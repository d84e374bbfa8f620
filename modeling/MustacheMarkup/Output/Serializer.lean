import MustacheMarkup.Journal
import MustacheMarkup.Output.Structured
import Std.Data.HashMap

/-!
# Writing with a memory

A serializer writes items like `Item.markup?` and `Item.structured` do, but it remembers for every
element what came out, so that nothing is written twice and no refusal is reported twice. One
memory serves any number of templates, because the identity of an element tells them apart. A
failure is not remembered.
-/

set_option autoImplicit false

namespace MustacheMarkup

/-- What is remembered of elements. -/
structure Memo where
  /-- the structured forms, with and without markup in them -/
  forms : Std.HashMap (NodeId × Bool) Json
  /-- the markup, and also that there is none -/
  markups : Std.HashMap NodeId (Option String)

/-- Nothing is remembered. -/
def Memo.empty : Memo := ⟨∅, ∅⟩

/-- What is written with a memory. -/
abbrev Serializing (α : Type) : Type :=
  Journal Memo StructureError α

namespace Serializer

open Output

/-! ## Markup -/

/-- The markup of an element as it is remembered, else as it is written now. -/
def recallMarkup (id : NodeId) (lowerName : String) (write : Serializing (Except Refusal String)) :
    Serializing (Option String) := do
  match (← Journal.get).markups[id]? with
  | some markup => return markup
  | none =>
    let markup ← write
    match markup with
    | .error refusal => Journal.note (.refused lowerName id refusal)
    | .ok _ => pure ()
    Journal.modify fun memo => { memo with markups := memo.markups.insert id markup.toOption }
    return markup.toOption

mutual

/-- An item as markup, if it is literal. -/
def itemMarkup : Item → Serializing (Option String)
  | .text content => return some content
  | .comment content => return some ("<!--" ++ content ++ "-->")
  | .element e => elementMarkup e
  | .mustache _ _ => return none
  | .block _ _ _ => return none
  | .inclusion _ => return none

/-- An element as markup, if it can be written so. -/
def elementMarkup : Element → Serializing (Option String)
  | ⟨id, _, lowerName, .component name _, _, _, _, _, _⟩ =>
    recallMarkup id lowerName (return .error (.component name))
  | ⟨id, _, lowerName, .html ⟨tag, attributes, proxies, intro, outro, _⟩, _, selfClosing, isVoid, _,
      children⟩ =>
    recallMarkup id lowerName
      (if !Vocabulary.isPlain lowerName then return .error .notPlain
      else if !proxies.isEmpty || intro.isSome || outro.isSome then return .error .behaviour
      else do
        match ← contentMarkup children with
        | none => return .error .dynamicContent
        | some content =>
          match ← attributesMarkup attributes with
          | .error refusal => return .error refusal
          | .ok written =>
            return .ok (elementText tag written isVoid selfClosing content))

/-- The content of an element as markup, if all of it is literal. -/
def contentMarkup : Option (List Item) → Serializing (Option String)
  | none => return some ""
  | some items => itemsMarkup items

/-- The texts of attributes, or why they keep their element from being written as markup. -/
def attributesMarkup :
    List Attribute → Serializing (Except Refusal (List (String × Option String)))
  | [] => return .ok []
  | ⟨name, value⟩ :: rest =>
    if isReserved name then return .error (.attribute name)
    else do
      match ← valueMarkup value with
      | none => return .error (.dynamicAttribute name)
      | some text =>
        match ← attributesMarkup rest with
        | .error refusal => return .error refusal
        | .ok written => return .ok ((name, text) :: written)

/-- The text of an attribute's value, if there is a value, and if all of it is literal. -/
def valueMarkup : Option (List Item) → Serializing (Option (Option String))
  | none => return some none
  | some items => do return (← itemsMarkup items).map some

/-- Items as markup, if all of them are literal. -/
def itemsMarkup : List Item → Serializing (Option String)
  | [] => return some ""
  | item :: rest => do
    match ← itemMarkup item with
    | none => return none
    | some first => return (← itemsMarkup rest).map (first ++ ·)

end

/-! ## Structured form -/

/-- The form of an element as it is remembered, else as it is written now. -/
def recallForm (id : NodeId) (inline : Bool) (write : Serializing Json) : Serializing Json := do
  match (← Journal.get).forms[(id, inline)]? with
  | some form => return form
  | none =>
    let form ← write
    Journal.modify fun memo => { memo with forms := memo.forms.insert (id, inline) form }
    return form

/-- The form of items, given that of the list of them. -/
def itemsFormWith (inline : Bool) (items : List Item) (list : Serializing (List Json)) :
    Serializing Json := do
  match ← if inline then itemsMarkup items else pure none with
  | some markup => return .string markup
  | none => return .array (← list)

/-- The form of content, which is only there if there are items. -/
def contentFormWith (inline : Bool) (items : List Item) (list : Serializing (List Json)) :
    Serializing (Option Json) :=
  if items.isEmpty then return none else do return some (← itemsFormWith inline items list)

mutual

/-- The form of an item. -/
def itemForm (inline : Bool) : Item → Serializing Json
  | .text content => return .string content
  | .mustache kind reference => return mustacheForm kind reference
  | .block reference inverted items => do
    let content ← contentFormWith inline items (listForm inline items)
    return blockForm reference inverted content
  | .inclusion name => return referenceForm .inclusion name
  | .comment content => return commentForm content
  | .element e => elementForm inline e

/-- The form of an element. -/
def elementForm (inline : Bool) : Element → Serializing Json
  | ⟨id, _, _, .component name attributes, doctype, _, _, _, children⟩ =>
    recallForm id inline do
      let attributes ← attributesForm inline [] attributes
      let content ← childrenForm inline children
      return ElementParts.form
        ⟨.component, name, doctype, attributes, content, [], none, none, none⟩
  | ⟨id, _, _, .html ⟨tag, attributes, proxies, intro, outro, decorator⟩, doctype, _, _, _,
      children⟩ =>
    recallForm id inline do
      let attributes ← attributesForm inline [] attributes
      let content ← childrenForm inline children
      let proxies ← proxiesForm proxies
      let intro ← transitionForm intro
      let outro ← transitionForm outro
      return ElementParts.form ⟨.element, tag, doctype, attributes, content,
        Json.ofPairs proxies, intro, outro, decorator⟩

/-- The members of further attributes, given the names of those before. -/
def attributesForm (inline : Bool) (seen : List String) :
    List Attribute → Serializing (List (String × Json))
  | [] => return []
  | ⟨name, value⟩ :: rest =>
    if seen.contains name then Journal.fail .duplicateAttribute
    else do
      let value ← valueForm inline value
      let members ← attributesForm inline (name :: seen) rest
      return (name, value) :: members

/-- The form of an attribute's value. -/
def valueForm (inline : Bool) : Option (List Item) → Serializing Json
  | none => return .null
  | some items => itemsFormWith inline items (listForm inline items)

/-- The form of an element's content, if there is any. -/
def childrenForm (inline : Bool) : Option (List Item) → Serializing (Option Json)
  | none => return none
  | some items => contentFormWith inline items (listForm inline items)

/-- The forms of proxies, each with its occasion. -/
def proxiesForm : List Directive → Serializing (List (String × Json))
  | [] => return []
  | d :: rest => do
    let form ← directiveForm d
    let forms ← proxiesForm rest
    return (d.occasion, form) :: forms

/-- The form of a transition, if there is one. -/
def transitionForm : Option Directive → Serializing (Option Json)
  | none => return none
  | some d => do return some (← directiveForm d)

/-- The form of a directive. -/
def directiveForm : Directive → Serializing Json
  | ⟨_, .fixed name, arguments, dynamicArguments⟩ => do
    let dynamicArguments ← argumentsForm arguments dynamicArguments
    return Output.directiveForm (.string name) true arguments dynamicArguments
  | ⟨_, .dynamic items, arguments, dynamicArguments⟩ => do
    let name ← itemsFormWith true items (listForm true items)
    let dynamicArguments ← argumentsForm arguments dynamicArguments
    return Output.directiveForm name false arguments dynamicArguments

/-- The form of arguments that depend on values, unless there are others. -/
def argumentsForm (arguments : Option Json) : Option (List Item) → Serializing (Option Json)
  | none => return none
  | some items =>
    if arguments.isSome then return none
    else do return some (← itemsFormWith true items (listForm true items))

/-- The forms of items. -/
def listForm (inline : Bool) : List Item → Serializing (List Json)
  | [] => return []
  | item :: rest => do
    let form ← itemForm inline item
    let forms ← listForm inline rest
    return form :: forms

end

/-- The form of items: their markup if they have one and it is asked for, else a list. -/
def itemsForm (inline : Bool) (items : List Item) : Serializing Json :=
  itemsFormWith inline items (listForm inline items)

/-- The form of a template, written without any memory, and a report on it. -/
def compile (items : List Item) : Outcome Memo StructureError Json :=
  let work : Serializing Json := do
    let form ← itemsForm true items
    let memo ← Journal.get
    Journal.note (.compiled items.length memo.markups.size)
    return form
  work Memo.empty

end Serializer

end MustacheMarkup
