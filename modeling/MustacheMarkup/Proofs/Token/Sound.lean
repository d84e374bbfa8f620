import MustacheMarkup.Proofs.Attribute.Name
import MustacheMarkup.Proofs.Token.Runs

/-!
# Tokens that can be read again

What was read as a comment ends as one, what was read as the name of an attribute can be read as one
again, and no mustache starts in the literal texts of a value. So tokens of a source text can be
written without being taken for something else.
-/

set_option autoImplicit false

namespace MustacheMarkup

/-- The name of the attribute can be read again, and so can the texts of its value. -/
structure RawAttribute.Sound (a : RawAttribute) : Prop where
  name : ReadableName a.name
  value : ∀ tokens ∈ a.value, braceless (textChars tokens) = true

/-- A comment ends as one, and the attributes of a tag can be read again. -/
def Lexeme.Sound : Lexeme → Prop
  | .comment content => closesComment content
  | .tag t => ∀ a ∈ t.attributes, a.Sound
  | _ => True

/-- The attributes that are read can be read again. -/
theorem sound_of_scanAttributes {unterminated : ScanError} {src later : Source}
    {attributes : List RawAttribute} {selfClosing : Bool}
    (h : scanAttributes unterminated src = .ok (attributes, selfClosing, later)) :
    ∀ a ∈ attributes, a.Sound :=
  forall_mem_of_scanAttributes (fun _ _ _ _ _ hsrc hblank hbracket hslash hscan =>
    ⟨readableName_of_scanAttribute hsrc hblank hbracket hslash hscan,
      forall_mem_value_of_scanAttribute (fun _ _ _ => braceless_of_scanValue) hscan⟩) h

/-- Whatever is read next is sound. -/
theorem sound_of_scanNext {src later : Source} {lexeme : Lexeme}
    (h : scanNext src = .ok (lexeme, later)) : lexeme.Sound := by
  obtain ⟨-, h⟩ | ⟨-, h⟩ | ⟨-, h⟩ | ⟨-, h⟩ := scanNext_cases h
  · obtain ⟨kind, reference, rfl⟩ := exists_of_scanMustache h
    trivial
  · obtain ⟨content, hcontent, rfl, -⟩ := scanComment_eq_ok_iff.mp h
    show closesComment (String.ofList content)
    rw [closesComment, String.toList_ofList]
    exact before?_self hcontent (by simp)
  · obtain ⟨tag, unterminated, named, rfl, hattributes⟩ := exists_of_scanTag h
    exact sound_of_scanAttributes hattributes
  · cases h
    trivial

/-- All tokens of a source text are sound. -/
theorem sound_of_tokenize {source : String} {tokens : List Token}
    (h : tokenize source = .ok tokens) : ∀ t ∈ tokens, t.lexeme.Sound :=
  forall_mem_of_scanAll (fun _ _ _ _ => sound_of_scanNext) h

end MustacheMarkup
