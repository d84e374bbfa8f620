import MustacheMarkup.Proofs.Item.Elements

/-!
# Trees without event attributes

An event attribute is a plain attribute of an element of the markup whose name in the tree is the
name of an event handler. `itemsWithoutEvents` removes them from the elements in the content of a
tree, at any depth. Values of attributes are left as they are: those of a template that was read
from a source text have no elements in them.
-/

set_option autoImplicit false

namespace MustacheMarkup

/-- What an element is, without its event attributes. -/
def ElementKind.withoutEvents : ElementKind → ElementKind
  | .component name attributes => .component name attributes
  | .html ⟨tag, attributes, proxies, intro, outro, decorator⟩ =>
    .html ⟨tag, attributes.filter fun a => !Vocabulary.isEventHandler a.name, proxies, intro, outro,
      decorator⟩

/-- An element that is of the markup has no event attribute. -/
def ElementKind.NoEvents : ElementKind → Prop
  | .component _ _ => True
  | .html details => ∀ a ∈ details.attributes, Vocabulary.isEventHandler a.name = false

mutual

/-- An item without event attributes. -/
def Item.withoutEvents : Item → Item
  | .text content => .text content
  | .mustache kind reference => .mustache kind reference
  | .block reference inverted items => .block reference inverted (itemsWithoutEvents items)
  | .inclusion name => .inclusion name
  | .comment content => .comment content
  | .element e => .element e.withoutEvents

/-- An element without event attributes. -/
def Element.withoutEvents : Element → Element
  | ⟨id, rawName, lowerName, kind, doctype, selfClosing, isVoid, closers, none⟩ =>
    ⟨id, rawName, lowerName, kind.withoutEvents, doctype, selfClosing, isVoid, closers, none⟩
  | ⟨id, rawName, lowerName, kind, doctype, selfClosing, isVoid, closers, some children⟩ =>
    ⟨id, rawName, lowerName, kind.withoutEvents, doctype, selfClosing, isVoid, closers,
      some (itemsWithoutEvents children)⟩

/-- Items without event attributes. -/
def itemsWithoutEvents : List Item → List Item
  | [] => []
  | item :: rest => item.withoutEvents :: itemsWithoutEvents rest

end

/-! ## Blanks at the ends -/

/-- Event attributes are dropped item by item. -/
theorem itemsWithoutEvents_eq (items : List Item) :
    itemsWithoutEvents items = items.map Item.withoutEvents := by
  induction items with
  | nil => rfl
  | cons item rest ih => rw [itemsWithoutEvents, ih, List.map_cons]

/-- To drop event attributes changes no text, so it does not matter whether the ends are trimmed
before or after. -/
theorem trimBoundary_withoutEvents (items : List Item) :
    trimBoundary (itemsWithoutEvents items) = itemsWithoutEvents (trimBoundary items) := by
  rw [itemsWithoutEvents_eq, itemsWithoutEvents_eq]
  refine (map_trimBoundary (fun content => rfl) (fun item h content => ?_) items).symm
  cases item with
  | text content' => exact absurd rfl (h content')
  | _ => exact fun heq => by cases heq

/-! ## What is left -/

/-- Where event attributes were dropped, none is left. -/
theorem noEvents_withoutEvents (kind : ElementKind) : kind.withoutEvents.NoEvents := by
  cases kind with
  | component name attributes => trivial
  | html details =>
    obtain ⟨tag, attributes, proxies, intro, outro, decorator⟩ := details
    intro a ha
    have hkept := (List.mem_filter.mp ha).2
    rwa [Bool.not_eq_true'] at hkept

/-- If an opening tag has no elements in it, none come in by dropping attributes. -/
theorem elements_kind_withoutEvents {kind : ElementKind} (h : kind.elements = []) :
    kind.withoutEvents.elements = [] := by
  cases kind with
  | component name attributes => exact h
  | html details =>
    obtain ⟨tag, attributes, proxies, intro, outro, decorator⟩ := details
    simp only [ElementKind.withoutEvents, ElementKind.elements, List.append_eq_nil_iff] at h ⊢
    refine ⟨⟨⟨?_, h.1.1.2⟩, h.1.2⟩, h.2⟩
    rw [attributesElements_eq_nil_iff] at h ⊢
    exact fun a ha => h.1.1.1 a (List.mem_filter.mp ha).1

mutual

/-- An element that was left without event attributes holds none, if its values have no elements. -/
theorem noEvents_of_mem_item : ∀ (item : Item), (∀ e ∈ item.elements, e.kind.elements = []) →
    ∀ e ∈ item.withoutEvents.elements, e.kind.NoEvents
  | .text _, _ => List.forall_mem_nil _
  | .mustache _ _, _ => List.forall_mem_nil _
  | .block _ _ items, h => noEvents_of_mem_items items h
  | .inclusion _, _ => List.forall_mem_nil _
  | .comment _, _ => List.forall_mem_nil _
  | .element e, h => noEvents_of_mem_element e h

/-- After event attributes were dropped in an element, no element in it has any. The induction is
over content alone: the hypothesis says that opening tags hold no elements. -/
theorem noEvents_of_mem_element : ∀ (e : Element), (∀ e' ∈ e.elements, e'.kind.elements = []) →
    ∀ e' ∈ e.withoutEvents.elements, e'.kind.NoEvents
  | ⟨id, rawName, lowerName, kind, doctype, selfClosing, isVoid, closers, none⟩, h => by
    have hkind : kind.elements = [] := h _ (Element.mem_elements_self _)
    rw [Element.withoutEvents, Element.elements, elements_kind_withoutEvents hkind]
    exact List.forall_mem_singleton.mpr (noEvents_withoutEvents kind)
  | ⟨id, rawName, lowerName, kind, doctype, selfClosing, isVoid, closers, some children⟩, h => by
    have hkind : kind.elements = [] := h _ (Element.mem_elements_self _)
    rw [Element.elements, hkind] at h
    rw [Element.withoutEvents, Element.elements, elements_kind_withoutEvents hkind]
    refine List.forall_mem_cons.mpr ⟨noEvents_withoutEvents kind, ?_⟩
    exact noEvents_of_mem_items children (List.forall_mem_cons.mp h).2

/-- The same for lists of items. -/
theorem noEvents_of_mem_items : ∀ (items : List Item),
    (∀ e ∈ itemsElements items, e.kind.elements = []) →
      ∀ e ∈ itemsElements (itemsWithoutEvents items), e.kind.NoEvents
  | [], _ => List.forall_mem_nil _
  | item :: rest, h => by
    rw [itemsElements, List.forall_mem_append] at h
    rw [itemsWithoutEvents, itemsElements, List.forall_mem_append]
    exact ⟨noEvents_of_mem_item item h.1, noEvents_of_mem_items rest h.2⟩

end

end MustacheMarkup
