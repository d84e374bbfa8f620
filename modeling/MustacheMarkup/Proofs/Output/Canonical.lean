import MustacheMarkup.Output.Structured
import MustacheMarkup.Proofs.Item.Canonical

/-!
# What is written of trees up to the spelling of tags

Neither the markup of items nor their structured form shows how the names of tags were written or
which run built the items: both are those of the canonical items (`itemsMarkup?_canonical`,
`itemsStructured_canonical`).
-/

set_option autoImplicit false

namespace MustacheMarkup

open Output

/-- To make items canonical adds none and drops none. -/
theorem isEmpty_itemsCanonical (items : List Item) :
    (itemsCanonical items).isEmpty = items.isEmpty := by
  rw [itemsCanonical_eq, List.isEmpty_map]

/-! ## Markup -/

mutual

/-- An item has the same markup in its canonical form. The induction is over all that a markup is
made of, one case for each function that writes some of it. -/
theorem markup?_canonical : ∀ item : Item, item.canonical.markup? = item.markup?
  | .text _ => rfl
  | .comment _ => rfl
  | .element e => by
    rw [Item.canonical, Item.markup?, Item.markup?, markup_canonical e]
  | .mustache _ _ => rfl
  | .block _ _ _ => rfl
  | .inclusion _ => rfl

/-- An element has the same markup in its canonical form: nothing of what is forgotten
is written. -/
theorem markup_canonical : ∀ e : Element, e.canonical.markup = e.markup
  | ⟨_, _, _, .component _ _, _, _, _, _, _⟩ => by
    rw [Element.canonical, ElementKind.canonical, Element.markup, Element.markup]
  | ⟨_, _, _, .html ⟨_, attributes, proxies, intro, outro, _⟩, _, _, _, _, children⟩ => by
    rw [Element.canonical, ElementKind.canonical, Element.markup, Element.markup,
      directivesCanonical_eq, transitionCanonical_eq, transitionCanonical_eq, List.isEmpty_map,
      Option.isSome_map, Option.isSome_map, contentMarkup?_canonical children,
      attributesMarkup_canonical attributes]

/-- The same for content. -/
theorem contentMarkup?_canonical : ∀ children : Option (List Item),
    contentMarkup? (fragmentCanonical children) = contentMarkup? children
  | none => rfl
  | some items => by
    rw [fragmentCanonical, contentMarkup?, contentMarkup?, itemsMarkup?_canonical items]

/-- The same for attributes, whose names do not change. -/
theorem attributesMarkup_canonical : ∀ attributes : List Attribute,
    attributesMarkup (attributesCanonical attributes) = attributesMarkup attributes
  | [] => rfl
  | ⟨_, value⟩ :: rest => by
    rw [attributesCanonical, attributesMarkup, attributesMarkup, valueMarkup?_canonical value,
      attributesMarkup_canonical rest]

/-- The same for the value of an attribute. -/
theorem valueMarkup?_canonical : ∀ value : Option (List Item),
    valueMarkup? (fragmentCanonical value) = valueMarkup? value
  | none => rfl
  | some items => by
    rw [fragmentCanonical, valueMarkup?, valueMarkup?, itemsMarkup?_canonical items]

/-- Canonical items have the same markup, or none as well. -/
theorem itemsMarkup?_canonical : ∀ items : List Item,
    itemsMarkup? (itemsCanonical items) = itemsMarkup? items
  | [] => rfl
  | item :: rest => by
    rw [itemsCanonical, itemsMarkup?, itemsMarkup?, markup?_canonical item,
      itemsMarkup?_canonical rest]

end

/-! ## Structured form -/

/-- Whether items are written as markup or as a list does not change, so the form is the same if the
lists are. -/
theorem itemsForm_canonical (inline : Bool) (items : List Item)
    (list : Unit → Except StructureError (List Json)) :
    itemsForm inline (itemsCanonical items) list = itemsForm inline items list := by
  rw [itemsForm, itemsForm, itemsMarkup?_canonical]

/-- The same for the content of an element. -/
theorem contentForm_canonical (inline : Bool) (items : List Item)
    (list : Unit → Except StructureError (List Json)) :
    contentForm inline (itemsCanonical items) list = contentForm inline items list := by
  rw [contentForm, contentForm, isEmpty_itemsCanonical, itemsForm_canonical]

mutual

/-- An item has the same structured form in its canonical form. Again there is one case for each
function that writes some of it. -/
theorem structured_canonical (inline : Bool) :
    ∀ item : Item, item.canonical.structured inline = item.structured inline
  | .text _ => rfl
  | .mustache _ _ => rfl
  | .block _ _ items => by
    rw [Item.canonical, Item.structured, Item.structured, contentForm_canonical,
      listStructured_canonical inline items]
  | .inclusion _ => rfl
  | .comment _ => rfl
  | .element e => by
    rw [Item.canonical, Item.structured, Item.structured, structured_element_canonical inline e]

/-- An element has the same structured form in its canonical form. -/
theorem structured_element_canonical (inline : Bool) :
    ∀ e : Element, e.canonical.structured inline = e.structured inline
  | ⟨_, _, _, .component _ attributes, _, _, _, _, children⟩ => by
    rw [Element.canonical, ElementKind.canonical, Element.structured, Element.structured,
      attributesStructured_canonical inline [] attributes,
      childrenStructured_canonical inline children]
  | ⟨_, _, _, .html ⟨_, attributes, proxies, intro, outro, _⟩, _, _, _, _, children⟩ => by
    rw [Element.canonical, ElementKind.canonical, Element.structured, Element.structured,
      attributesStructured_canonical inline [] attributes,
      childrenStructured_canonical inline children, proxiesStructured_canonical proxies,
      transitionStructured_canonical intro, transitionStructured_canonical outro]

/-- The same for attributes, whatever names were seen before. -/
theorem attributesStructured_canonical (inline : Bool) (seen : List String) :
    ∀ attributes : List Attribute,
      attributesStructured inline seen (attributesCanonical attributes) =
        attributesStructured inline seen attributes
  | [] => rfl
  | ⟨name, value⟩ :: rest => by
    rw [attributesCanonical, attributesStructured, attributesStructured,
      valueStructured_canonical inline value,
      attributesStructured_canonical inline (name :: seen) rest]

/-- The same for the value of an attribute. -/
theorem valueStructured_canonical (inline : Bool) : ∀ value : Option (List Item),
    valueStructured inline (fragmentCanonical value) = valueStructured inline value
  | none => rfl
  | some items => by
    rw [fragmentCanonical, valueStructured, valueStructured, itemsForm_canonical,
      listStructured_canonical inline items]

/-- The same for content. -/
theorem childrenStructured_canonical (inline : Bool) : ∀ children : Option (List Item),
    childrenStructured inline (fragmentCanonical children) = childrenStructured inline children
  | none => rfl
  | some items => by
    rw [fragmentCanonical, childrenStructured, childrenStructured, contentForm_canonical,
      listStructured_canonical inline items]

/-- The same for the events that are passed on. -/
theorem proxiesStructured_canonical : ∀ proxies : List Directive,
    proxiesStructured (directivesCanonical proxies) = proxiesStructured proxies
  | [] => rfl
  | d :: rest => by
    have hoccasion : d.canonical.occasion = d.occasion := by rw [Directive.canonical_eq]
    rw [directivesCanonical, proxiesStructured, proxiesStructured, structured_directive_canonical d,
      proxiesStructured_canonical rest, hoccasion]

/-- The same for a transition. -/
theorem transitionStructured_canonical : ∀ transition : Option Directive,
    transitionStructured (transitionCanonical transition) = transitionStructured transition
  | none => rfl
  | some d => by
    rw [transitionCanonical, transitionStructured, transitionStructured,
      structured_directive_canonical d]

/-- A directive has the same structured form. Fixed names and known arguments do not change. -/
theorem structured_directive_canonical : ∀ d : Directive, d.canonical.structured = d.structured
  | ⟨_, .fixed _, arguments, dynamicArguments⟩ => by
    rw [Directive.canonical, Directive.structured, Directive.structured,
      argumentsStructured_canonical arguments dynamicArguments]
  | ⟨_, .dynamic items, arguments, dynamicArguments⟩ => by
    rw [Directive.canonical, Directive.structured, Directive.structured, itemsForm_canonical,
      listStructured_canonical true items,
      argumentsStructured_canonical arguments dynamicArguments]

/-- The same for the arguments of a directive. -/
theorem argumentsStructured_canonical (arguments : Option Json) :
    ∀ dynamicArguments : Option (List Item),
      argumentsStructured arguments (fragmentCanonical dynamicArguments) =
        argumentsStructured arguments dynamicArguments
  | none => rfl
  | some items => by
    rw [fragmentCanonical, argumentsStructured, argumentsStructured, itemsForm_canonical,
      listStructured_canonical true items]

/-- The same for lists of items. -/
theorem listStructured_canonical (inline : Bool) : ∀ items : List Item,
    listStructured inline (itemsCanonical items) = listStructured inline items
  | [] => rfl
  | item :: rest => by
    rw [itemsCanonical, listStructured, listStructured, structured_canonical inline item,
      listStructured_canonical inline rest]

end

/-- Canonical items have the same structured form, or none for the same reason. -/
theorem itemsStructured_canonical (inline : Bool) (items : List Item) :
    itemsStructured inline (itemsCanonical items) = itemsStructured inline items := by
  rw [itemsStructured, itemsStructured, itemsForm_canonical, listStructured_canonical]

end MustacheMarkup
