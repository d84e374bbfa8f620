import MustacheMarkup.Attribute.Build

/-!
# The place that building has reached

Building works on a cursor: the tokens that are not used yet, and the index of the next element. A
failure leaves the cursor where it happened.
-/

set_option autoImplicit false

namespace MustacheMarkup

/-- The tokens that are not used yet, and the index of the next element. -/
structure Cursor where
  tokens : List Token
  nextIndex : Nat

/-- What is built from the tokens at a cursor. -/
abbrev Building (α : Type) : Type :=
  Journal Cursor ParseError α

namespace Building

/-- The next token. -/
def peek : Building (Option Token) :=
  fun c => ⟨.ok c.tokens.head?, c, []⟩

/-- Use the next token. -/
def advance : Building Unit :=
  Journal.modify fun c => ⟨c.tokens.tail, c.nextIndex⟩

/-- Take the index of the next element. -/
def takeIndex : Building Nat :=
  fun c => ⟨.ok c.nextIndex, ⟨c.tokens, c.nextIndex + 1⟩, []⟩

/-- Build something that uses no tokens of the cursor. -/
def numbered {α : Type} (m : Numbered α) : Building α :=
  Journal.focus Cursor.nextIndex (fun n c => ⟨c.tokens, n⟩) m

/-- The texts of the tokens up to the first that is not literal text, put together. -/
def leadingText : List Token → String
  | [] => ""
  | t :: rest =>
    match t.text? with
    | some s => s ++ leadingText rest
    | none => ""

/-- The tokens from the first that is not literal text. -/
def afterText : List Token → List Token
  | [] => []
  | t :: rest => if t.text?.isSome then afterText rest else t :: rest

/-- Use all literal text that comes next. -/
def takeText : Building String :=
  fun c => ⟨.ok (leadingText c.tokens), ⟨afterText c.tokens, c.nextIndex⟩, []⟩

/-- Build a fragment of tokens of its own, all of which are used. Elements in it are counted on;
if it fails, none of them counts. -/
def fragment (items : Building (List Item)) : FragmentBuilder :=
  fun tokens n =>
    let o := items ⟨tokens, n⟩
    match o.result with
    | .error e => ⟨.error e, n, o.log⟩
    | .ok built => ⟨.ok built, o.state.nextIndex, o.log⟩

end Building

end MustacheMarkup
