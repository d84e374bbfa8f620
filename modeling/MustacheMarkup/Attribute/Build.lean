import MustacheMarkup.Attribute.Roles
import MustacheMarkup.Journal
import MustacheMarkup.Json.Reader
import MustacheMarkup.Text.LowerCase

/-!
# Attributes and directives

How the attributes of a tag become those of an element. Their values are built by a function that
is given, which makes a fragment of tokens; the state is the index of the next element.

The value of a directive is cut at its first literal colon into the name and the arguments.
Arguments that are one literal text are read as JSON, and are that text itself if they are no
JSON.
-/

set_option autoImplicit false

namespace MustacheMarkup

/-- What is built while elements are counted. -/
abbrev Numbered (α : Type) : Type :=
  Journal Nat ParseError α

/-- A function that builds a fragment of tokens. -/
abbrev FragmentBuilder : Type :=
  List Token → Numbered (List Item)

/-! ## Attributes -/

/-- The name of an attribute of the markup: in lower case, or as SVG has it. -/
def htmlAttributeName (name : String) : String :=
  let lower := Text.lower name
  (Vocabulary.svgAttribute? lower).getD lower

/-- Build an attribute of a component. Its name is kept. -/
def Attribute.ofComponent (fragment : FragmentBuilder) (a : RawAttribute) : Numbered Attribute := do
  let value ← Journal.whenSome fragment a.value
  return ⟨a.name, value⟩

/-- Build an attribute of an element of the markup. -/
def Attribute.ofHtml (fragment : FragmentBuilder) (a : RawAttribute) : Numbered Attribute := do
  let value ← Journal.whenSome fragment a.value
  return ⟨htmlAttributeName a.name, value⟩

/-! ## Directives -/

/-- Literal text as a token, unless it is empty. -/
def literal (content : List Char) (span : Span) : List Token :=
  if content.isEmpty then [] else [⟨.text (String.ofList content), span⟩]

/-- The characters before and behind the first colon. -/
def cutAtColon? (s : List Char) : Option (List Char × List Char) :=
  (before? [':'] s).map fun name => (name, s.drop (name.length + 1))

/-- The tokens before and behind the first literal colon. Without one, all stand before it. -/
def splitAtColon : List Token → List Token × List Token
  | [] => ([], [])
  | t :: rest =>
    match t.text?.bind fun s => cutAtColon? s.toList with
    | some (before, behind) => (literal before t.span, literal behind t.span ++ rest)
    | none => (t :: (splitAtColon rest).1, (splitAtColon rest).2)

/-- The text of tokens that are one literal text. -/
def onlyText? : List Token → Option String
  | [t] => t.text?
  | _ => none

/-- The value of literal arguments. -/
def argumentValue (s : String) : Json :=
  (Json.read? s).getD (.string s)

/-- Build the name of a directive. -/
def DirectiveName.ofTokens (fragment : FragmentBuilder) (tokens : List Token) :
    Numbered DirectiveName :=
  match onlyText? tokens with
  | some name => return .fixed name
  | none => return .dynamic (← fragment tokens)

/-- Build the arguments of a directive: those that are known, or those that depend on values. -/
def Directive.arguments? (fragment : FragmentBuilder) (tokens : List Token) :
    Numbered (Option Json × Option (List Item)) :=
  if tokens.isEmpty then return (none, none)
  else
    match onlyText? tokens with
    | some s => return (some (argumentValue s), none)
    | none => return (none, some (← fragment tokens))

/-- Build a directive. It has an occasion and a value; an error is reported at the tag. -/
def Directive.ofRaw (fragment : FragmentBuilder) (span : Span) (a : RawAttribute) :
    Numbered Directive :=
  match a.value with
  | none => Journal.fail (ParseFault.illegalDirective.at span)
  | some tokens =>
    if a.name.isEmpty then Journal.fail (ParseFault.illegalDirective.at span)
    else do
      let parts := splitAtColon tokens
      let name ← DirectiveName.ofTokens fragment parts.1
      let (arguments, dynamicArguments) ← Directive.arguments? fragment parts.2
      return ⟨a.name, name, arguments, dynamicArguments⟩

/-- The decorator that an attribute names: the literal text at the start of its value. -/
def decoratorName (span : Span) (a : RawAttribute) : Numbered (Option String) :=
  match a.value with
  | some (t :: _) =>
    match t.text? with
    | some s => return some s
    | none => do
      Journal.note (.dynamicDecorator span.line)
      return none
  | _ => Journal.fail (ParseFault.illegalDecorator.at span)

end MustacheMarkup
