import MustacheMarkup.Source

/-!
# Tokens

A template is a list of tokens: runs of text, comments, tags, and mustaches. The value of an
attribute is a list of tokens itself.
-/

set_option autoImplicit false

namespace MustacheMarkup

/-- What a mustache stands for. -/
inductive MustacheKind where
  /-- a value, escaped where it is inserted -/
  | interpolation
  /-- a value, inserted as it is -/
  | unescaped
  /-- the start of a section -/
  | opening
  /-- the start of an inverted section -/
  | inverted
  /-- the end of a section -/
  | closing
  /-- a template of its own -/
  | inclusion
  /-- a remark that leaves no trace -/
  | remark
deriving Repr, DecidableEq

mutual

/-- A piece of a template and the stretch of the source that it covers. -/
structure Token where
  lexeme : Lexeme
  span : Span

/-- What a token is. -/
inductive Lexeme where
  /-- a run of literal text -/
  | text (content : String)
  /-- a comment of the markup, without its delimiters -/
  | comment (content : String)
  /-- a mustache, with what stands between its delimiters -/
  | mustache (kind : MustacheKind) (reference : String)
  /-- a tag -/
  | tag (tag : Tag)

/-- A tag, with its name as it was written. -/
structure Tag where
  name : String
  attributes : List RawAttribute
  /-- whether the name follows a slash -/
  closing : Bool
  /-- whether a slash stands before the closing bracket -/
  selfClosing : Bool
  /-- whether the name follows an exclamation mark -/
  doctype : Bool

/-- An attribute as it was written. An attribute without `=` has no value. -/
structure RawAttribute where
  name : String
  value : Option (List Token)

end

/-- The text of a token that is literal text. -/
def Token.text? (t : Token) : Option String :=
  match t.lexeme with
  | .text s => some s
  | _ => none

mutual

/-- How many tokens there are in a token, those of its attributes' values included. -/
def Token.weight : Token → Nat
  | ⟨.text _, _⟩ => 1
  | ⟨.comment _, _⟩ => 1
  | ⟨.mustache _ _, _⟩ => 1
  | ⟨.tag ⟨_, attributes, _, _, _⟩, _⟩ => 1 + RawAttribute.totalWeight attributes

/-- How many tokens there are in the values of some attributes. -/
def RawAttribute.totalWeight : List RawAttribute → Nat
  | [] => 0
  | ⟨_, none⟩ :: rest => RawAttribute.totalWeight rest
  | ⟨_, some value⟩ :: rest => Token.totalWeight value + RawAttribute.totalWeight rest

/-- How many tokens there are in some tokens, those of their attributes' values included. -/
def Token.totalWeight : List Token → Nat
  | [] => 0
  | t :: rest => Token.weight t + Token.totalWeight rest

end

end MustacheMarkup
