import MustacheMarkup.Item.Basic

/-!
# What is reported on the way

Reading, building and writing report what they do as events. Each event has a level, the part of the
work that it comes from, and a wording.
-/

set_option autoImplicit false

namespace MustacheMarkup

/-- Why an element is not written as markup. -/
inductive Refusal where
  /-- it is a component -/
  | component (name : String)
  /-- its name is not on the list of plain elements -/
  | notPlain
  /-- it passes on events, or has a transition -/
  | behaviour
  /-- its content is not all literal -/
  | dynamicContent
  /-- it has an attribute that cannot be inserted as markup -/
  | attribute (name : String)
  /-- it has an attribute whose value is not all literal -/
  | dynamicAttribute (name : String)
deriving Repr, DecidableEq

/-- The wording of a refusal. -/
def Refusal.reason : Refusal → String
  | .component name => "component " ++ name
  | .notPlain => "not a plain HTML element"
  | .behaviour => "has proxies or transitions"
  | .dynamicContent => "dynamic children"
  | .attribute name => "attribute " ++ name
  | .dynamicAttribute name => "dynamic attribute " ++ name

/-- Something that is worth a report. Elements and tags are given by name, places by line. -/
inductive Event where
  /-- a text was split into so many tokens -/
  | scanned (count : Nat)
  /-- a section was closed by a mustache with another reference -/
  | sectionMismatch (reference closing : String) (line : Nat)
  /-- a mustache closes no section -/
  | straySectionEnd (reference : String) (line : Nat)
  /-- a closing tag closes no element -/
  | strayClosingTag (name : String) (line : Nat)
  /-- an element without content was built -/
  | built (name : String)
  /-- an element was opened -/
  | opened (name : String)
  /-- an element was closed by its closing tag -/
  | closed (name : String)
  /-- an element was closed by the end of a section around it -/
  | closedBySectionEnd (name : String) (line : Nat)
  /-- an element was closed by another closing tag -/
  | closedByTag (name closing : String) (line : Nat)
  /-- an element was closed by the opening tag of a sibling -/
  | closedBySibling (name sibling : String) (line : Nat)
  /-- the attribute of an event handler was dropped -/
  | sanitized (name tag : String)
  /-- a decorator starts with a mustache -/
  | dynamicDecorator (line : Nat)
  /-- an element is not written as markup -/
  | refused (name : String) (id : NodeId) (refusal : Refusal)
  /-- a template was compiled, of which so many elements were looked at for markup -/
  | compiled (items elements : Nat)
  /-- a file with so many bytes of text is about to be compiled -/
  | compiling (path : String) (bytes : Nat)
deriving Repr, DecidableEq

/-- How much an event matters. -/
inductive Level where
  | trace
  | debug
  | info
  | warn
deriving Repr, DecidableEq

/-- The word for a level. -/
def Level.word : Level → String
  | .trace => "TRACE"
  | .debug => "DEBUG"
  | .info => "INFO"
  | .warn => "WARN"

namespace Event

/-- How much an event matters. -/
def level : Event → Level
  | .sectionMismatch .. => .warn
  | .compiling .. => .info
  | .scanned .. | .built .. | .opened .. | .closed .. | .refused .. => .trace
  | _ => .debug

/-- The part of the work that an event comes from. -/
def source : Event → String
  | .scanned .. => "stache.lexer"
  | .refused .. | .compiled .. => "stache.codegen"
  | .compiling .. => "stache"
  | _ => "stache.parser"

/-- The end of a wording that names a line. -/
def atLine (line : Nat) : String :=
  " at line " ++ toString line

/-- A mustache as it is written, with the character that chooses its kind. -/
def mustacheText (sigil reference : String) : String :=
  "\x7b\x7b" ++ sigil ++ reference ++ "\x7d\x7d"

/-- The wording of an event. The run of a node id depends on what else was built, so it is left
out. -/
def message : Event → String
  | .scanned count => "scanned " ++ toString count ++ " tokens"
  | .sectionMismatch reference closing line =>
    "section " ++ mustacheText "#" reference ++ " closed by " ++ mustacheText "/" closing ++
      atLine line
  | .straySectionEnd reference line =>
    "ignoring unmatched section end " ++ mustacheText "/" reference ++ atLine line
  | .strayClosingTag name line => "ignoring unmatched closing tag </" ++ name ++ ">" ++ atLine line
  | .built name => "built <" ++ name ++ "/>"
  | .opened name => "open <" ++ name ++ ">"
  | .closed name => "close </" ++ name ++ ">"
  | .closedBySectionEnd name line => "<" ++ name ++ "> closed by end of section" ++ atLine line
  | .closedByTag name closing line =>
    "<" ++ name ++ "> closed by </" ++ closing ++ ">" ++ atLine line
  | .closedBySibling name sibling line =>
    "<" ++ name ++ "> closed by sibling <" ++ sibling ++ ">" ++ atLine line
  | .sanitized name tag => "sanitized " ++ name ++ " on <" ++ tag ++ ">"
  | .dynamicDecorator line => "ignoring dynamic decorator" ++ atLine line
  | .refused name id refusal =>
    "<" ++ name ++ "> (NodeId \x7b parse: _, index: " ++ toString id.index ++
      " \x7d) not stringifiable: " ++ refusal.reason
  | .compiled items elements =>
    "compiled " ++ toString items ++ " top-level items (" ++ toString elements ++
      " elements serialized)"
  | .compiling path bytes => "compiling " ++ path ++ " (" ++ toString bytes ++ " bytes)"

/-- An event as a line of a log. -/
def line (e : Event) : String :=
  e.level.word ++ " " ++ e.source ++ ": " ++ e.message

/-- What is written of an event if no more is asked for: warnings are, and nothing else. -/
def warning (e : Event) : String :=
  if e.level = .warn then e.line ++ "\n" else ""

end Event

end MustacheMarkup
