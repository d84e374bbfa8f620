import MustacheMarkup.Proofs.Nesting.Descent
import MustacheMarkup.Proofs.Nesting.Makes

/-!
# The shape of a template

A `Shape` is a tree of items without identities and attributes: which item stands in the list of
which element or section, and in which order. Items have a shape, and so have the parts that the
stack machine finds. For a template that is built with its blanks both are the same: descending into
the template places every item where one pass over the tokens with a stack places it.
-/

set_option autoImplicit false

namespace MustacheMarkup

open Journal

/-- An item without identities and attributes. An element has its name as it was written. -/
inductive Shape where
  | text (content : String)
  | mustache (kind : MustacheKind) (reference : String)
  | block (reference : String) (inverted : Bool) (content : List Shape)
  | inclusion (name : String)
  | comment (content : String)
  | element (name : String) (doctype selfClosing : Bool) (content : Option (List Shape))

/-! ## The shapes of items and of parts -/

mutual

/-- The shape of an item. -/
def Item.shape : Item → Shape
  | .text content => .text content
  | .mustache kind reference => .mustache kind reference
  | .block reference inverted items => .block reference inverted (itemShapes items)
  | .inclusion name => .inclusion name
  | .comment content => .comment content
  | .element e => e.shape

/-- The shape of an element. -/
def Element.shape : Element → Shape
  | ⟨_, name, _, _, doctype, selfClosing, _, _, none⟩ => .element name doctype selfClosing none
  | ⟨_, name, _, _, doctype, selfClosing, _, _, some children⟩ =>
    .element name doctype selfClosing (some (itemShapes children))

/-- The shapes of items. -/
def itemShapes : List Item → List Shape
  | [] => []
  | item :: rest => item.shape :: itemShapes rest

end

mutual

/-- The shape of a part. -/
def Nested.shape : Nested → Shape
  | .text content => .text content
  | .mustache escaped reference => .mustache (.ofEscaped escaped) reference
  | .block reference inverted content => .block reference inverted (nestedShapes content)
  | .inclusion name => .inclusion name
  | .comment content => .comment content
  | .element tag _ none => .element tag.name tag.doctype tag.selfClosing none
  | .element tag _ (some content) =>
    .element tag.name tag.doctype tag.selfClosing (some (nestedShapes content))

/-- The shapes of parts. -/
def nestedShapes : List Nested → List Shape
  | [] => []
  | n :: rest => n.shape :: nestedShapes rest

end

/-! ## Building keeps the shape -/

mutual

/-- An item has the shape of the part that it is made of, if blanks are kept. -/
theorem shape_of_makes {settings : Settings} {index later : Nat} {n : Nested} {item : Item}
    (h : n.Makes settings true index item later) : item.shape = n.shape := by
  match h with
  | .text .. | .mustache .. | .inclusion .. | .comment .. | .alone .. => rfl
  | .block _ _ hcontent => rw [Item.shape, Nested.shape, shapes_of_makesAll hcontent]
  | .element _ hcontent =>
    rw [Nested.shape, ← shapes_of_makesAll hcontent]
    rfl

/-- The same for lists. -/
theorem shapes_of_makesAll {settings : Settings} {index later : Nat} {parts : List Nested}
    {items : List Item} (h : MakesAll settings true index parts items later) :
    itemShapes items = nestedShapes parts := by
  match h with
  | .nil .. => rfl
  | .cons hitem hitems =>
    rw [itemShapes, nestedShapes, shape_of_makes hitem, shapes_of_makesAll hitems]

end

/-- What is built with its blanks has the shapes of the parts that it is built of. -/
theorem shapes_of_buildAll (settings : Settings) (parts : List Nested) (index : Nat)
    (items : List Item) (h : (buildAll settings true parts index).result = .ok items) :
    itemShapes items = nestedShapes parts :=
  shapes_of_makesAll (makesAll_of_buildAll parts h)

/-! ## Templates -/

namespace Template

/-- A template that keeps its blanks is built of the parts that one pass over its tokens with a
stack finds, and each of its items stands where that pass puts it. -/
theorem placed_by_stack (settings : Settings) (tokens : List Token) (items : List Item)
    (hkeep : settings.options.preserveWhitespace = true)
    (hitems : (ofTokens settings tokens).result = .ok items) :
    itemShapes items = nestedShapes (Nesting.ofTokens tokens) ∧
      (buildAll settings true (Nesting.ofTokens tokens) 0).result = .ok items := by
  have hbuilt : (buildAll settings true (Nesting.ofTokens tokens) 0).result = .ok items := by
    rw [ofTokens_result, hkeep] at hitems
    cases hresult : (buildAll settings true (Nesting.ofTokens tokens) 0).result with
    | error e =>
      rw [hresult] at hitems
      cases hitems
    | ok built =>
      rw [hresult] at hitems
      exact hitems
  have hshapes := shapes_of_buildAll settings (Nesting.ofTokens tokens) 0 items hbuilt
  exact ⟨hshapes, hbuilt⟩

/-- Tokens in which nothing is closed by its own end: a closing mustache ends a section of another
reference with what is open in it, a closing tag ends an element that it does not name, and a
closing mustache ends an element where no section is open. -/
def misnested : List Token :=
  let openTag (name : String) : Token := ⟨.tag ⟨name, [], false, false, false⟩, default⟩
  [⟨.mustache .opening "s", default⟩, openTag "p", openTag "b", ⟨.text "x", default⟩,
    ⟨.text "!", default⟩, ⟨.mustache .closing "t", default⟩, openTag "i",
    ⟨.tag ⟨"p", [], true, false, false⟩, default⟩, openTag "td", openTag "th",
    ⟨.mustache .closing "", default⟩, ⟨.text "y", default⟩]

/-- The element of an opening tag without attributes. -/
def plainElement (index : Nat) (name : String) (children : List Item) : Item :=
  .element ⟨⟨0, index⟩, name, name, .html ⟨name, [], [], none, none, none⟩, false, false,
    Vocabulary.isVoid name, Vocabulary.closers? name, some children⟩

/-- Tags that are closed in the wrong order, in a section: where each element ends is what the stack
of open parts says. -/
theorem misnested_placed_by_stack :
    let items : List Item := [.block "s" false [plainElement 0 "p" [plainElement 1 "b"
      [.text "x!"]]], plainElement 2 "i" [], plainElement 3 "td" [], plainElement 4 "th" [],
      .text "y"]
    itemShapes items = nestedShapes (Nesting.ofTokens misnested) ∧
      (buildAll ⟨⟨true, false⟩, 0⟩ true (Nesting.ofTokens misnested) 0).result = .ok items :=
  placed_by_stack ⟨⟨true, false⟩, 0⟩ misnested _ rfl (by rfl)

end Template

end MustacheMarkup
