import MustacheMarkup.Output.Markup

/-!
# Items in structured form

Every item has a structured form as a JSON value; a number tells what it is. Lists of items that
can be written as markup are written so, unless `inline` says not to; what belongs to a directive
is written so in any case.

The only thing that has no structured form is an element with two attributes of one name.
-/

set_option autoImplicit false

namespace MustacheMarkup

/-- Why items have no structured form. -/
inductive StructureError where
  /-- an element has two attributes of one name -/
  | duplicateAttribute
deriving Repr, DecidableEq

/-- The text of an error of the structured form. -/
def StructureError.message : StructureError → String
  | .duplicateAttribute => "Codegen error: You cannot have multiple attributes with the same name"

namespace Output

/-- The numbers that tell what a structured form stands for. -/
inductive Code where
  | interpolation
  | unescaped
  | block
  | element
  | inclusion
  | comment
  | component
deriving Repr, DecidableEq

/-- The number of a code. -/
def Code.number : Code → Int
  | .interpolation => 2
  | .unescaped => 3
  | .block => 4
  | .element => 7
  | .inclusion => 8
  | .comment => 9
  | .component => 15

/-- The member that tells what a structured form stands for. -/
def Code.member (code : Code) : String × Json :=
  ("t", .integer code.number)

/-- A member that is only there if there is something to say. -/
def optionalMember (key : String) : Option Json → List (String × Json)
  | none => []
  | some value => [(key, value)]

/-- A member that marks something with a 1. -/
def flagMember (key : String) (flag : Bool) : List (String × Json) :=
  if flag then [(key, .integer 1)] else []

/-- The form of something that is only referred to. -/
def referenceForm (code : Code) (reference : String) : Json :=
  .object [code.member, ("r", .string reference)]

/-- The code of a value that is inserted: only triple braces keep it from being escaped. -/
def Code.ofMustache : MustacheKind → Code
  | .unescaped => .unescaped
  | _ => .interpolation

/-- The form of a mustache. -/
def mustacheForm (kind : MustacheKind) (reference : String) : Json :=
  referenceForm (Code.ofMustache kind) reference

/-- The form of a comment. -/
def commentForm (content : String) : Json :=
  .object [Code.comment.member, ("f", .string content)]

/-- The form of a section, given that of its items. -/
def blockForm (reference : String) (inverted : Bool) (content : Option Json) : Json :=
  .object ([Code.block.member, ("r", .string reference)] ++ flagMember "n" inverted ++
    optionalMember "f" content)

/-- The form of a directive, given those of its parts. Without arguments it is its name. -/
def directiveForm (name : Json) (fixed : Bool) (arguments dynamicArguments : Option Json) : Json :=
  if fixed && arguments.isNone && dynamicArguments.isNone then name
  else
    .object ([("n", name)] ++
      match arguments with
      | some value => [("a", value)]
      | none => optionalMember "d" dynamicArguments)

/-- The members of an element's form, given those of its parts. -/
structure ElementParts where
  code : Code
  tag : String
  doctype : Bool
  attributes : List (String × Json)
  content : Option Json
  proxies : List (String × Json)
  intro : Option Json
  outro : Option Json
  decorator : Option String

/-- The form of an element, given those of its parts. -/
def ElementParts.form (p : ElementParts) : Json :=
  .object ([p.code.member, ("e", .string p.tag)] ++ flagMember "y" p.doctype ++
    optionalMember "a" (if p.attributes.isEmpty then none else some (.object p.attributes)) ++
    optionalMember "f" p.content ++
    optionalMember "v" (if p.proxies.isEmpty then none else some (.object p.proxies)) ++
    optionalMember "t1" p.intro ++ optionalMember "t2" p.outro ++
    optionalMember "o" (p.decorator.map .string))

/-- The form of items, given that of the list of them: their markup if they have one and it is
asked for, else the list. -/
def itemsForm (inline : Bool) (items : List Item)
    (list : Unit → Except StructureError (List Json)) : Except StructureError Json :=
  match if inline then itemsMarkup? items else none with
  | some markup => .ok (.string markup)
  | none => (list ()).map .array

/-- The form of content, which is only there if there are items. -/
def contentForm (inline : Bool) (items : List Item)
    (list : Unit → Except StructureError (List Json)) : Except StructureError (Option Json) :=
  if items.isEmpty then .ok none else (itemsForm inline items list).map some

end Output

open Output

mutual

/-- The form of an item. -/
def Item.structured (inline : Bool) : Item → Except StructureError Json
  | .text content => .ok (.string content)
  | .mustache kind reference => .ok (mustacheForm kind reference)
  | .block reference inverted items => do
    let content ← contentForm inline items fun _ => listStructured inline items
    return blockForm reference inverted content
  | .inclusion name => .ok (referenceForm .inclusion name)
  | .comment content => .ok (commentForm content)
  | .element e => e.structured inline

/-- The form of an element. Its parts are written in order: attributes, content, proxies,
transitions. -/
def Element.structured (inline : Bool) : Element → Except StructureError Json
  | ⟨_, _, _, .component name attributes, doctype, _, _, _, children⟩ => do
    let attributes ← attributesStructured inline [] attributes
    let content ← childrenStructured inline children
    return ElementParts.form ⟨.component, name, doctype, attributes, content, [], none, none, none⟩
  | ⟨_, _, _, .html ⟨tag, attributes, proxies, intro, outro, decorator⟩, doctype, _, _, _,
      children⟩ => do
    let attributes ← attributesStructured inline [] attributes
    let content ← childrenStructured inline children
    let proxies ← proxiesStructured proxies
    let intro ← transitionStructured intro
    let outro ← transitionStructured outro
    return ElementParts.form ⟨.element, tag, doctype, attributes, content, Json.ofPairs proxies,
      intro, outro, decorator⟩

/-- The members of further attributes, given the names of those before. -/
def attributesStructured (inline : Bool) (seen : List String) :
    List Attribute → Except StructureError (List (String × Json))
  | [] => .ok []
  | ⟨name, value⟩ :: rest =>
    if seen.contains name then .error .duplicateAttribute
    else do
      let value ← valueStructured inline value
      let members ← attributesStructured inline (name :: seen) rest
      return (name, value) :: members

/-- The form of an attribute's value. -/
def valueStructured (inline : Bool) : Option (List Item) → Except StructureError Json
  | none => .ok .null
  | some items => itemsForm inline items fun _ => listStructured inline items

/-- The form of an element's content, if there is any. -/
def childrenStructured (inline : Bool) :
    Option (List Item) → Except StructureError (Option Json)
  | none => .ok none
  | some items => contentForm inline items fun _ => listStructured inline items

/-- The forms of proxies, each with its occasion. -/
def proxiesStructured : List Directive → Except StructureError (List (String × Json))
  | [] => .ok []
  | d :: rest => do
    let form ← d.structured
    let forms ← proxiesStructured rest
    return (d.occasion, form) :: forms

/-- The form of a transition, if there is one. -/
def transitionStructured : Option Directive → Except StructureError (Option Json)
  | none => .ok none
  | some d => do return some (← d.structured)

/-- The form of a directive. Arguments that are known leave no room for others. -/
def Directive.structured : Directive → Except StructureError Json
  | ⟨_, .fixed name, arguments, dynamicArguments⟩ => do
    let dynamicArguments ← argumentsStructured arguments dynamicArguments
    return directiveForm (.string name) true arguments dynamicArguments
  | ⟨_, .dynamic items, arguments, dynamicArguments⟩ => do
    let name ← itemsForm true items fun _ => listStructured true items
    let dynamicArguments ← argumentsStructured arguments dynamicArguments
    return directiveForm name false arguments dynamicArguments

/-- The form of arguments that depend on values, unless there are others. -/
def argumentsStructured (arguments : Option Json) :
    Option (List Item) → Except StructureError (Option Json)
  | none => .ok none
  | some items =>
    if arguments.isSome then .ok none
    else do return some (← itemsForm true items fun _ => listStructured true items)

/-- The forms of items. -/
def listStructured (inline : Bool) : List Item → Except StructureError (List Json)
  | [] => .ok []
  | item :: rest => do
    let form ← item.structured inline
    let forms ← listStructured inline rest
    return form :: forms

end

/-- The form of items: their markup if they have one and it is asked for, else a list. -/
def itemsStructured (inline : Bool) (items : List Item) : Except StructureError Json :=
  itemsForm inline items fun _ => listStructured inline items

end MustacheMarkup
