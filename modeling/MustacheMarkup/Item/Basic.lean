import MustacheMarkup.Json.Basic
import MustacheMarkup.Token.Basic
import MustacheMarkup.Vocabulary

/-!
# The tree of a template

A template is a list of items: texts, mustaches, blocks, inclusions, comments and elements. A list
of items also stands for a value of an attribute and for the dynamic parts of a directive; such a
list is called a fragment.
-/

set_option autoImplicit false

namespace MustacheMarkup

/-- The identity of an element: which run built it, and how many elements that run built before. -/
structure NodeId where
  run : Nat
  index : Nat
deriving Repr, DecidableEq, Hashable

mutual

/-- A part of a template. -/
inductive Item where
  /-- literal text -/
  | text (content : String)
  /-- a value that is inserted, in the way that the kind of its mustache says -/
  | mustache (kind : MustacheKind) (reference : String)
  /-- a section, inverted or not -/
  | block (reference : String) (inverted : Bool) (items : List Item)
  /-- another template -/
  | inclusion (name : String)
  /-- a comment of the markup, without its delimiters -/
  | comment (content : String)
  /-- an element -/
  | element (element : Element)

/-- An element: its opening tag and what stands between that and its end. -/
structure Element where
  id : NodeId
  /-- the name of the tag as it was written -/
  rawName : String
  /-- the name of the tag in lower case, by which elements are told apart -/
  lowerName : String
  kind : ElementKind
  doctype : Bool
  selfClosing : Bool
  /-- whether elements of this name never have content -/
  isVoid : Bool
  /-- the elements whose opening tag closes this one, if there are any -/
  closers : Option (List String)
  /-- the content, unless the element closes itself or never has any -/
  children : Option (List Item)

/-- What an element is. -/
inductive ElementKind where
  /-- a component, with its attributes as they were written -/
  | component (name : String) (attributes : List Attribute)
  /-- an element of the markup -/
  | html (details : HtmlDetails)

/-- What an element of the markup has besides its content. -/
structure HtmlDetails where
  /-- the name to write: in lower case, or as SVG has it -/
  tag : String
  attributes : List Attribute
  /-- the events that the element passes on -/
  proxies : List Directive
  intro : Option Directive
  outro : Option Directive
  decorator : Option String

/-- An attribute. One that was written without `=` has no value. -/
structure Attribute where
  name : String
  value : Option (List Item)

/-- What an attribute says that stands for behaviour: on which occasion, what, and with which
arguments. -/
structure Directive where
  occasion : String
  name : DirectiveName
  /-- arguments that are known -/
  arguments : Option Json
  /-- arguments that depend on values -/
  dynamicArguments : Option (List Item)

/-- The name of a directive, which may depend on values. -/
inductive DirectiveName where
  | fixed (name : String)
  | dynamic (items : List Item)

end

namespace Element

/-- The component's name, or the name to write in the tag. -/
def tag (e : Element) : String :=
  match e.kind with
  | .component name _ => name
  | .html details => details.tag

/-- The attributes that do not stand for behaviour. -/
def attributes (e : Element) : List Attribute :=
  match e.kind with
  | .component _ attributes => attributes
  | .html details => details.attributes

/-- The details of an element that is not a component. -/
def html? (e : Element) : Option HtmlDetails :=
  match e.kind with
  | .component _ _ => none
  | .html details => some details

/-- The content, empty if there is none. -/
def content (e : Element) : List Item :=
  e.children.getD []

end Element

end MustacheMarkup
