import MustacheMarkup.Event
import MustacheMarkup.Output.Tag

/-!
# Items as markup

Items that are all literal can be written as markup, which can be inserted in one go. An element
with behaviour, or that is more than a plain element, keeps itself and everything around it from
that. An element that cannot be written as markup says why; the reasons are looked for in a fixed
order, the content before the attributes.
-/

set_option autoImplicit false

namespace MustacheMarkup

mutual

/-- An item as markup, if it is literal. -/
def Item.markup? : Item → Option String
  | .text content => some content
  | .comment content => some ("<!--" ++ content ++ "-->")
  | .element e => e.markup.toOption
  | .mustache _ _ => none
  | .block _ _ _ => none
  | .inclusion _ => none

/-- An element as markup, or why it cannot be written so. -/
def Element.markup : Element → Except Refusal String
  | ⟨_, _, _, .component name _, _, _, _, _, _⟩ => .error (.component name)
  | ⟨_, _, lowerName, .html ⟨tag, attributes, proxies, intro, outro, _⟩, _, selfClosing, isVoid, _,
      children⟩ =>
    if !Vocabulary.isPlain lowerName then .error .notPlain
    else if !proxies.isEmpty || intro.isSome || outro.isSome then .error .behaviour
    else
      match contentMarkup? children with
      | none => .error .dynamicContent
      | some content =>
        match attributesMarkup attributes with
        | .error refusal => .error refusal
        | .ok written =>
          .ok (Output.elementText tag written isVoid selfClosing content)

/-- The content of an element as markup, if all of it is literal. -/
def contentMarkup? : Option (List Item) → Option String
  | none => some ""
  | some items => itemsMarkup? items

/-- The texts of attributes, or why they keep their element from being written as markup. -/
def attributesMarkup : List Attribute → Except Refusal (List (String × Option String))
  | [] => .ok []
  | ⟨name, value⟩ :: rest =>
    if Output.isReserved name then .error (.attribute name)
    else
      match valueMarkup? value with
      | none => .error (.dynamicAttribute name)
      | some text =>
        match attributesMarkup rest with
        | .error refusal => .error refusal
        | .ok written => .ok ((name, text) :: written)

/-- The text of an attribute's value, if there is a value, and if all of it is literal. -/
def valueMarkup? : Option (List Item) → Option (Option String)
  | none => some none
  | some items => (itemsMarkup? items).map some

/-- Items as markup, if all of them are literal. -/
def itemsMarkup? : List Item → Option String
  | [] => some ""
  | item :: rest =>
    match item.markup? with
    | none => none
    | some first => (itemsMarkup? rest).map (first ++ ·)

end

end MustacheMarkup
