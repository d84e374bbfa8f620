import Mathlib.Data.List.Flatten
import MustacheMarkup.Proofs.Item.Elements

/-!
# What stands in an element

An element holds lists of items: its content, the values of its attributes, and the dynamic parts of
its directives. The elements of each of them are listed among those of the element, in their order.
All of these lists but the content are the fragments of the element.
-/

set_option autoImplicit false

namespace MustacheMarkup

/-- What an element has of directives. -/
def Element.directives (e : Element) : List Directive :=
  match e.kind with
  | .component _ _ => []
  | .html details => details.proxies ++ details.intro.toList ++ details.outro.toList

/-- What is made of a member is part of what is made of the list, in order. -/
theorem sublist_flatMap_of_mem {α β : Type} {f : α → List β} {l : List α} {a : α} (h : a ∈ l) :
    (f a).Sublist (l.flatMap f) := by
  rw [List.flatMap_def]
  exact List.sublist_flatten_of_mem (List.mem_map_of_mem h)

/-- The elements of an item are some of those of the list that it stands in. -/
theorem sublist_of_mem_items {items : List Item} {item : Item} (h : item ∈ items) :
    item.elements.Sublist (itemsElements items) := by
  rw [itemsElements_eq]
  exact sublist_flatMap_of_mem h

namespace Element

variable (e : Element)

/-- The elements of an element: itself, then those of its opening tag, and then those of its
content. -/
theorem elements_eq : e.elements = e :: (e.kind.elements ++ fragmentElements e.children) := by
  obtain ⟨id, rawName, lowerName, kind, doctype, selfClosing, isVoid, closers, children⟩ := e
  rfl

/-- The content of an element has some of its elements. -/
theorem sublist_content : (fragmentElements e.children).Sublist e.elements := by
  rw [elements_eq]
  exact (List.sublist_append_right _ _).cons e

/-- The opening tag of an element has some of its elements. -/
theorem sublist_kind : e.kind.elements.Sublist e.elements := by
  rw [elements_eq]
  exact (List.sublist_append_left _ _).cons e

/-- What an element has besides its content are its attributes and its directives. -/
theorem elements_kind_eq :
    e.kind.elements = attributesElements e.attributes ++ directivesElements e.directives := by
  obtain ⟨id, rawName, lowerName, ⟨name, attributes⟩ |
    ⟨tag, attributes, proxies, intro, outro, decorator⟩, doctype, selfClosing, isVoid, closers,
    children⟩ := e
  · rw [ElementKind.elements]
    exact (List.append_nil _).symm
  · have hdirectives : directivesElements (proxies ++ intro.toList ++ outro.toList) =
        directivesElements proxies ++ transitionElements intro ++ transitionElements outro := by
      simp only [transitionElements_eq, directivesElements_eq, List.flatMap_append]
    rw [ElementKind.elements, List.append_assoc, List.append_assoc, ← List.append_assoc _ _
      (transitionElements outro), ← hdirectives]
    rfl

/-- The attributes have some of the elements of the opening tag. -/
theorem sublist_attributes : (attributesElements e.attributes).Sublist e.kind.elements := by
  rw [elements_kind_eq]
  exact List.sublist_append_left _ _

variable {e}

/-- The value of an attribute has some of the elements of the opening tag. -/
theorem sublist_of_mem_attributes {a : Attribute} (h : a ∈ e.attributes) :
    (fragmentElements a.value).Sublist e.kind.elements := by
  refine List.Sublist.trans ?_ e.sublist_attributes
  rw [attributesElements_eq]
  exact sublist_flatMap_of_mem (f := fun a => fragmentElements a.value) h

/-- A directive has some of the elements of the opening tag. -/
theorem sublist_of_mem_directives {d : Directive} (h : d ∈ e.directives) :
    d.elements.Sublist e.kind.elements := by
  rw [elements_kind_eq, directivesElements_eq]
  exact (sublist_flatMap_of_mem h).trans (List.sublist_append_right _ _)

end Element

/-- What stands in an element of a list is listed among the elements of the list. -/
theorem sublist_of_inside {items : List Item} {e : Element} (he : .element e ∈ items)
    {elements : List Element} (h : elements.Sublist e.elements) :
    elements.Sublist (itemsElements items) :=
  h.trans (sublist_of_mem_items he)

/-! ## Fragments -/

/-- The name of a directive as far as it depends on values. -/
def DirectiveName.fragment? : DirectiveName → Option (List Item)
  | .fixed _ => none
  | .dynamic items => some items

/-- The fragments in a directive: those of its name and of its arguments. -/
def Directive.fragments (d : Directive) : List (List Item) :=
  d.name.fragment?.toList ++ d.dynamicArguments.toList

/-- The fragments in what an element has besides its content. -/
def ElementKind.fragments : ElementKind → List (List Item)
  | .component _ attributes => attributes.filterMap Attribute.value
  | .html details => details.attributes.filterMap Attribute.value ++
    (details.proxies ++ details.intro.toList ++ details.outro.toList).flatMap Directive.fragments

/-- The values of the attributes of an element, and the dynamic parts of its directives. -/
def Element.fragments (e : Element) : List (List Item) :=
  e.attributes.filterMap Attribute.value ++ e.directives.flatMap Directive.fragments

/-- The fragments of an element are those of its opening tag. -/
theorem Element.fragments_eq (e : Element) : e.fragments = e.kind.fragments := by
  obtain ⟨id, rawName, lowerName, _ | _, doctype, selfClosing, isVoid, closers, children⟩ := e
  · exact List.append_nil _
  · rfl

/-- The elements of a directive are those of its fragments. -/
theorem Directive.elements_eq_flatMap (d : Directive) :
    d.elements = d.fragments.flatMap itemsElements := by
  obtain ⟨occasion, _ | items, arguments, dynamicArguments⟩ := d
  · rw [Directive.elements, fragmentElements_eq]
    rfl
  · rw [Directive.elements, fragmentElements_eq]
    rfl

/-- The elements of attributes are those of the values that are there. -/
theorem attributesElements_eq_flatMap (attributes : List Attribute) :
    attributesElements attributes =
      (attributes.filterMap Attribute.value).flatMap itemsElements := by
  induction attributes with
  | nil => rfl
  | cons a rest ih =>
    obtain ⟨name, _ | value⟩ := a
    · exact ih
    · rw [attributesElements, ih]
      rfl

/-- The elements in what an element has besides its content are those of its fragments. -/
theorem ElementKind.elements_eq_flatMap (kind : ElementKind) :
    kind.elements = kind.fragments.flatMap itemsElements := by
  cases kind with
  | component name attributes => exact attributesElements_eq_flatMap attributes
  | html details =>
    obtain ⟨tag, attributes, proxies, intro, outro, decorator⟩ := details
    rw [ElementKind.elements, ElementKind.fragments, attributesElements_eq_flatMap,
      transitionElements_eq, transitionElements_eq, List.flatMap_append, List.flatMap_assoc,
      ← funext Directive.elements_eq_flatMap, List.flatMap_append, List.flatMap_append,
      ← directivesElements_eq, ← directivesElements_eq, ← directivesElements_eq]
    simp only [List.append_assoc]

end MustacheMarkup
