import MustacheMarkup.Template.Build

/-!
# Where content ends

A token that comes next in the content of a container goes on with it, ends before it, or ends
behind it, which uses it. `Container.ending` says which, and `ends` acts on it
(`ends_apply`): it reports a reason, but nothing else depends on anything but the token.
-/

set_option autoImplicit false

namespace MustacheMarkup

/-- What a token means for the content that it would stand in. -/
inductive Ending where
  /-- the content goes on with the token -/
  | goesOn
  /-- the content ends before the token -/
  | before
  /-- the content ends behind the token, which is used -/
  | behind
deriving Repr, DecidableEq

/-- What a token means for the content of a container. -/
def Container.ending : Container → Lexeme → Ending
  | .whole, _ => .goesOn
  | .block _, .mustache .closing _ => .behind
  | .block _, _ => .goesOn
  | .element _ _, .mustache .closing _ => .before
  | .element name closers, .tag tag =>
    if tag.closing then if Text.lower tag.name = name then .behind else .before
    else if Vocabulary.isAmong closers (Text.lower tag.name) then .before
    else .goesOn
  | .element _ _, _ => .goesOn

/-- What the content of the element of an opening tag is the content of. -/
def Tag.container (tag : Tag) : Container :=
  .element (Text.lower tag.name) (Vocabulary.closers? (Text.lower tag.name))

/-- What a tag means for the content of an element is decided by the names of both in lower case. -/
theorem Tag.ending_container (tag next : Tag) : tag.container.ending (.tag next) =
    if next.closing then if Text.lower next.name = Text.lower tag.name then .behind else .before
    else if Vocabulary.closes (Text.lower next.name) (Text.lower tag.name) then .before
    else .goesOn :=
  rfl

namespace Building

/-- Whether content ends is what its container makes of the next token. Only a token that content
ends behind is used. -/
theorem ends_apply (container : Container) (t : Token) (rest : List Token) (index : Nat) :
    (ends container ⟨t :: rest, index⟩).result =
        .ok (container.ending t.lexeme != .goesOn) ∧
      (ends container ⟨t :: rest, index⟩).state =
        ⟨if container.ending t.lexeme = .behind then rest else t :: rest, index⟩ := by
  obtain ⟨lexeme, span⟩ := t
  cases container with
  | whole => exact ⟨rfl, rfl⟩
  | block reference =>
    cases lexeme with
    | mustache kind closing =>
      cases kind with
      | closing =>
        simp only [Container.ending, ends, Journal.bind_apply, peek, List.head?_cons, blockEnds]
        split
        · exact ⟨rfl, rfl⟩
        · exact ⟨rfl, rfl⟩
      | _ => exact ⟨rfl, rfl⟩
    | _ => exact ⟨rfl, rfl⟩
  | element name closers =>
    cases lexeme with
    | text content => exact ⟨rfl, rfl⟩
    | comment content => exact ⟨rfl, rfl⟩
    | mustache kind reference => cases kind <;> exact ⟨rfl, rfl⟩
    | tag tag =>
      simp only [Container.ending, ends, Journal.bind_apply, peek, List.head?_cons, elementEnds]
      split
      · split
        · exact ⟨rfl, rfl⟩
        · exact ⟨rfl, rfl⟩
      · split
        · exact ⟨rfl, rfl⟩
        · exact ⟨rfl, rfl⟩

end Building

end MustacheMarkup
