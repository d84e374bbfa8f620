import MustacheMarkup.Text.LowerCase
import MustacheMarkup.Token.Basic
import MustacheMarkup.Vocabulary

/-!
# Nesting by a stack

How the tokens of a template nest, said without any building: one pass over the tokens from left to
right with a stack of open elements and sections. An opening tag first closes the elements that it
may not stand in, one after another from the innermost; a closing tag closes open elements up to the
one that it names, but no section; a closing mustache closes the innermost section, whatever its
reference, with all elements that are open in it. What is open at the end is closed there.

The outcome is a list of `Nested` parts. They hold whole tags, so nothing about attributes is
decided here. An element that never has content has none, not even an empty list.
-/

set_option autoImplicit false

namespace MustacheMarkup

/-- The kind of a mustache for a value that is inserted, escaped or not. -/
def MustacheKind.ofEscaped (escaped : Bool) : MustacheKind :=
  if escaped then .interpolation else .unescaped

/-- A part of a template: what stands where, with the tags of elements as they are. -/
inductive Nested where
  | text (content : String)
  | mustache (escaped : Bool) (reference : String)
  | block (reference : String) (inverted : Bool) (content : List Nested)
  | inclusion (name : String)
  | comment (content : String)
  | element (tag : Tag) (span : Span) (content : Option (List Nested))

/-- Whether the element of an opening tag has no content, not even an empty list. -/
def Tag.isAlone (tag : Tag) : Bool :=
  tag.selfClosing || Vocabulary.isVoid (Text.lower tag.name)

/-- What opens something that other parts stand in. -/
inductive Opening where
  | block (reference : String) (inverted : Bool)
  | element (tag : Tag) (span : Span)

/-- The part that was opened, with its content. -/
def Opening.nested : Opening → List Nested → Nested
  | .block reference inverted, content => .block reference inverted content
  | .element tag span, content => .element tag span (some content)

/-- An element or section that is open, and the parts that stand before it in its list. -/
structure Frame where
  opening : Opening
  before : List Nested

/-- The parts of the innermost list that is not finished, and what it stands in, innermost first. -/
structure Nesting where
  content : List Nested
  frames : List Frame

namespace Nesting

/-- Nothing has been read. -/
def empty : Nesting := ⟨[], []⟩

/-- Put a part at the end of the innermost list. -/
def add (n : Nested) (s : Nesting) : Nesting :=
  ⟨s.content ++ [n], s.frames⟩

/-- Open something. -/
def enter (o : Opening) (s : Nesting) : Nesting :=
  ⟨[], ⟨o, s.content⟩ :: s.frames⟩

/-- Close open elements, innermost first, as long as an opening tag of this name closes them. -/
def leaveSiblings (name : String) : List Nested → List Frame → Nesting
  | content, ⟨.element tag span, before⟩ :: frames =>
    if Vocabulary.closes name (Text.lower tag.name) then
      leaveSiblings name (before ++ [.element tag span (some content)]) frames
    else ⟨content, ⟨.element tag span, before⟩ :: frames⟩
  | content, frames => ⟨content, frames⟩

/-- Close open elements, innermost first, up to the first of this name. Without one, all are closed
that are open in the innermost section. -/
def leaveElement (name : String) : List Nested → List Frame → Nesting
  | content, ⟨.element tag span, before⟩ :: frames =>
    if Text.lower tag.name = name then ⟨before ++ [.element tag span (some content)], frames⟩
    else leaveElement name (before ++ [.element tag span (some content)]) frames
  | content, frames => ⟨content, frames⟩

/-- Close the innermost section and the elements that are open in it. Without a section, all
elements are closed. -/
def leaveBlock : List Nested → List Frame → Nesting
  | content, ⟨.element tag span, before⟩ :: frames =>
    leaveBlock (before ++ [.element tag span (some content)]) frames
  | content, ⟨.block reference inverted, before⟩ :: frames =>
    ⟨before ++ [.block reference inverted content], frames⟩
  | content, [] => ⟨content, []⟩

/-- Close everything. -/
def leaveAll : List Nested → List Frame → List Nested
  | content, [] => content
  | content, f :: frames => leaveAll (f.before ++ [f.opening.nested content]) frames

/-- Read an opening tag. What never has content is not opened. -/
def openTag (s : Nesting) (tag : Tag) (span : Span) : Nesting :=
  let s := leaveSiblings (Text.lower tag.name) s.content s.frames
  if tag.isAlone then s.add (.element tag span none) else s.enter (.element tag span)

/-- Read a token. -/
def step (s : Nesting) (t : Token) : Nesting :=
  match t.lexeme with
  | .text content => s.add (.text content)
  | .comment content => s.add (.comment content)
  | .mustache .interpolation reference => s.add (.mustache true reference)
  | .mustache .unescaped reference => s.add (.mustache false reference)
  | .mustache .inclusion name => s.add (.inclusion name)
  | .mustache .remark _ => s
  | .mustache .opening reference => s.enter (.block reference false)
  | .mustache .inverted reference => s.enter (.block reference true)
  | .mustache .closing _ => leaveBlock s.content s.frames
  | .tag tag =>
    if tag.closing then leaveElement (Text.lower tag.name) s.content s.frames
    else s.openTag tag t.span

/-- The parts when nothing more is read. -/
def finish (s : Nesting) : List Nested :=
  leaveAll s.content s.frames

/-- Every run of literal texts as one text. -/
def joinTexts : List Token → List Token
  | [] => []
  | t :: rest =>
    match t.text?, joinTexts rest with
    | some s, ⟨.text s', _⟩ :: more => ⟨.text (s ++ s'), t.span⟩ :: more
    | _, joined => t :: joined

/-- To put texts together changes nothing for what passes over texts. -/
theorem filterMap_joinTexts {α : Type} {f : Token → Option α}
    (htext : ∀ content span, f ⟨.text content, span⟩ = none) (tokens : List Token) :
    (joinTexts tokens).filterMap f = tokens.filterMap f := by
  induction tokens with
  | nil => rfl
  | cons t rest ih =>
    rw [joinTexts, List.filterMap_cons, ← ih]
    split
    · rename_i hcontent hjoined
      obtain ⟨lexeme, span⟩ := t
      cases lexeme with
      | text content =>
        rw [hjoined, List.filterMap_cons_none (htext _ _), List.filterMap_cons_none (htext _ _),
          htext]
      | _ => cases hcontent
    · rw [List.filterMap_cons]

/-- Read tokens, each run of texts as one. -/
def run (s : Nesting) (tokens : List Token) : Nesting :=
  (joinTexts tokens).foldl step s

/-- How the tokens of a template nest. -/
def ofTokens (tokens : List Token) : List Nested :=
  (empty.run tokens).finish

end Nesting

end MustacheMarkup
