import MustacheMarkup.Proofs.Template.Elements
import MustacheMarkup.Proofs.Template.Identities

/-!
# Attributes of one name

The structured form of items fails exactly if an element that it writes has two attributes of one
name (`isOk_listStructured_iff`). Without markup in it the form writes every element. With markup, a
list that has a markup is written as that, and nobody looks at the names in it. So a template is
refused for an element in its structured form and accepted with the same element in its compiled
form, if nothing around the element is dynamic.
-/

set_option autoImplicit false

namespace MustacheMarkup

open Output Journal

/-- No two attributes of an element have the same name. -/
def Element.NamesDistinct (e : Element) : Prop :=
  (e.attributes.map Attribute.name).Nodup

/-- Whether the names of an element are distinct can be computed. -/
instance (e : Element) : Decidable e.NamesDistinct :=
  inferInstanceAs (Decidable (e.attributes.map Attribute.name).Nodup)

/-! ## The elements that a form writes -/

/-- What is written of items besides their markup: nothing, if they are written as markup. -/
def besidesMarkup (inline : Bool) (items : List Item) (elements : List Element) : List Element :=
  if inline && (itemsMarkup? items).isSome then [] else elements

mutual

/-- The elements that the form of an item writes, those in markup left out. -/
def Item.formed (inline : Bool) : Item → List Element
  | .text _ => []
  | .mustache _ _ => []
  | .block _ _ items => besidesMarkup inline items (listFormed inline items)
  | .inclusion _ => []
  | .comment _ => []
  | .element e => e.formed inline

/-- An element and those that its form writes in its content. -/
def Element.formed (inline : Bool) : Element → List Element
  | ⟨id, rawName, lowerName, kind, doctype, selfClosing, isVoid, closers, none⟩ =>
    [⟨id, rawName, lowerName, kind, doctype, selfClosing, isVoid, closers, none⟩]
  | ⟨id, rawName, lowerName, kind, doctype, selfClosing, isVoid, closers, some children⟩ =>
    ⟨id, rawName, lowerName, kind, doctype, selfClosing, isVoid, closers, some children⟩ ::
      besidesMarkup inline children (listFormed inline children)

/-- The elements that the forms of items write. -/
def listFormed (inline : Bool) : List Item → List Element
  | [] => []
  | item :: rest => item.formed inline ++ listFormed inline rest

end

/-- The elements that the form of a list of items writes. -/
def itemsFormed (inline : Bool) (items : List Item) : List Element :=
  besidesMarkup inline items (listFormed inline items)

/-- What is written of items besides their markup are some of their elements. -/
theorem mem_of_mem_besidesMarkup {inline : Bool} {items : List Item} {elements : List Element}
    {e : Element} (h : e ∈ besidesMarkup inline items elements) : e ∈ elements := by
  unfold besidesMarkup at h
  split at h
  · cases h
  · exact h

/-- If no markup is inserted, all that there is to write is written. -/
theorem besidesMarkup_false (items : List Item) (elements : List Element) :
    besidesMarkup false items elements = elements := rfl

mutual

/-- The form of an item writes only elements that are in the item. The induction is over content. -/
theorem mem_elements_of_formed {inline : Bool} {e : Element} :
    ∀ item : Item, e ∈ item.formed inline → e ∈ item.elements
  | .text _, h => by cases h
  | .mustache _ _, h => by cases h
  | .block _ _ items, h => mem_itemsElements_of_formed items (mem_of_mem_besidesMarkup h)
  | .inclusion _, h => by cases h
  | .comment _, h => by cases h
  | .element inner, h => mem_elements_of_formed_element inner h

/-- The same for an element, whose opening tag counts as well. -/
theorem mem_elements_of_formed_element {inline : Bool} {e : Element} :
    ∀ inner : Element, e ∈ inner.formed inline → e ∈ inner.elements
  | ⟨id, rawName, lowerName, kind, doctype, selfClosing, isVoid, closers, none⟩, h => by
    rw [Element.formed, List.mem_singleton] at h
    rw [h]
    exact Element.mem_elements_self _
  | ⟨id, rawName, lowerName, kind, doctype, selfClosing, isVoid, closers, some children⟩, h => by
    rw [Element.formed] at h
    rcases List.mem_cons.mp h with rfl | h
    · exact Element.mem_elements_self _
    · have hmem := mem_itemsElements_of_formed children (mem_of_mem_besidesMarkup h)
      rw [Element.elements]
      exact List.mem_cons_of_mem _ (List.mem_append_right _ hmem)

/-- A form writes no other elements than those that there are. -/
theorem mem_itemsElements_of_formed {inline : Bool} {e : Element} :
    ∀ items : List Item, e ∈ listFormed inline items → e ∈ itemsElements items
  | [], h => by cases h
  | item :: rest, h => by
    rw [listFormed] at h
    rw [itemsElements]
    rcases List.mem_append.mp h with h | h
    · exact List.mem_append_left _ (mem_elements_of_formed item h)
    · exact List.mem_append_right _ (mem_itemsElements_of_formed rest h)

end

mutual

/-- If no markup is inserted, the form of an item writes all its elements, provided that opening
tags hold none. -/
theorem formed_false : ∀ item : Item, (∀ e ∈ item.elements, e.kind.elements = []) →
    item.formed false = item.elements
  | .text _, _ => rfl
  | .mustache _ _, _ => rfl
  | .block _ _ items, h => by
    rw [Item.formed, besidesMarkup_false, Item.elements]
    exact listFormed_false items h
  | .inclusion _, _ => rfl
  | .comment _, _ => rfl
  | .element e, h => by
    rw [Item.formed, Item.elements]
    exact formed_false_element e h

/-- The same for an element. -/
theorem formed_false_element : ∀ e : Element, (∀ e' ∈ e.elements, e'.kind.elements = []) →
    e.formed false = e.elements
  | ⟨id, rawName, lowerName, kind, doctype, selfClosing, isVoid, closers, none⟩, h => by
    have hkind : kind.elements = [] := h _ (Element.mem_elements_self _)
    rw [Element.formed, Element.elements, hkind]
    rfl
  | ⟨id, rawName, lowerName, kind, doctype, selfClosing, isVoid, closers, some children⟩, h => by
    have hkind : kind.elements = [] := h _ (Element.mem_elements_self _)
    rw [Element.elements, hkind, List.nil_append, fragmentElements] at h
    have hchildren := listFormed_false children (List.forall_mem_cons.mp h).2
    rw [Element.formed, besidesMarkup_false, hchildren, Element.elements, hkind, List.nil_append,
      fragmentElements]

/-- Without markup a form writes all elements, if there are none in attributes. -/
theorem listFormed_false : ∀ items : List Item,
    (∀ e ∈ itemsElements items, e.kind.elements = []) →
    listFormed false items = itemsElements items
  | [], _ => rfl
  | item :: rest, h => by
    rw [itemsElements] at h
    obtain ⟨hitem, hrest⟩ := List.forall_mem_append.mp h
    rw [listFormed, formed_false item hitem, listFormed_false rest hrest, itemsElements]

end

/-! ## Success of the parts -/

section

variable {ε α β : Type}

/-- One step after another succeeds if the first does and the second does whatever it is given. -/
theorem isOk_bind_iff {r : Except ε α} {f : α → Except ε β} {p : Prop}
    (h : ∀ a, (f a).isOk = true ↔ p) : (r >>= f).isOk = true ↔ r.isOk = true ∧ p := by
  cases r with
  | error e =>
    refine ⟨fun hok => ?_, fun hok => ?_⟩
    · cases hok
    · cases hok.1
  | ok a =>
    refine ⟨fun hok => ⟨rfl, (h a).mp hok⟩, fun hok => (h a).mpr hok.2⟩

/-- To change the value of an outcome does not change whether there is one. -/
theorem isOk_map (f : α → β) (r : Except ε α) : (r.map f).isOk = r.isOk := by
  cases r <;> rfl

/-- To go on with a value that is given back does not change whether there is one. -/
theorem isOk_bind_pure (f : α → β) (r : Except ε α) :
    (do let a ← r; return f a : Except ε β).isOk = r.isOk := by
  cases r <;> rfl

end

/-- A list of items is written if its items are. -/
theorem isOk_itemsForm {inline : Bool} {items : List Item}
    {list : Unit → Except StructureError (List Json)} (h : (list ()).isOk = true) :
    (itemsForm inline items list).isOk = true := by
  unfold itemsForm
  split
  · rfl
  · rw [isOk_map]
    exact h

/-- A list of items is written if it has a markup or its items are written. So elements that the
markup stands for are not asked about their names. -/
theorem isOk_itemsForm_iff {inline : Bool} {items : List Item}
    {list : Unit → Except StructureError (List Json)} {elements : List Element} {P : Element → Prop}
    (h : (list ()).isOk = true ↔ ∀ e ∈ elements, P e) :
    (itemsForm inline items list).isOk = true ↔ ∀ e ∈ besidesMarkup inline items elements, P e := by
  unfold itemsForm besidesMarkup
  cases inline with
  | false =>
    simp only [Bool.false_and, Bool.false_eq_true, if_false]
    rw [isOk_map]
    exact h
  | true =>
    simp only [Bool.true_and, if_true]
    cases itemsMarkup? items with
    | some markup => exact ⟨fun _ e he => absurd he List.not_mem_nil, fun _ => rfl⟩
    | none =>
      simp only [Option.isSome_none, Bool.false_eq_true, if_false]
      rw [isOk_map]
      exact h

/-- It makes no difference that content without items is not written. -/
theorem isOk_contentForm_iff {inline : Bool} {items : List Item}
    {list : Unit → Except StructureError (List Json)} {elements : List Element} {P : Element → Prop}
    (hnil : items = [] → elements = []) (h : (list ()).isOk = true ↔ ∀ e ∈ elements, P e) :
    (contentForm inline items list).isOk = true ↔
      ∀ e ∈ besidesMarkup inline items elements, P e := by
  unfold contentForm
  cases items with
  | nil =>
    refine ⟨fun _ e he => ?_, fun _ => rfl⟩
    have hmem := mem_of_mem_besidesMarkup he
    rw [hnil rfl] at hmem
    cases hmem
  | cons item rest =>
    rw [List.isEmpty_cons, if_neg Bool.false_ne_true, isOk_map]
    exact isOk_itemsForm_iff h

/-! ## Attributes and directives -/

mutual

/-- An item without elements has a structured form, since nothing but attributes can be refused. -/
theorem isOk_structured_of_elements (inline : Bool) :
    ∀ item : Item, item.elements = [] → (item.structured inline).isOk = true
  | .text _, _ => rfl
  | .mustache _ _, _ => rfl
  | .block reference inverted items, h => by
    rw [Item.structured, isOk_bind_pure]
    unfold contentForm
    split
    · rfl
    · rw [isOk_map]
      exact isOk_itemsForm (isOk_listStructured_of_elements inline items h)
  | .inclusion _, _ => rfl
  | .comment _, _ => rfl
  | .element e, h => by
    rw [Item.elements] at h
    have hmem := Element.mem_elements_self e
    rw [h] at hmem
    cases hmem

/-- The same for lists of items. -/
theorem isOk_listStructured_of_elements (inline : Bool) :
    ∀ items : List Item, itemsElements items = [] → (listStructured inline items).isOk = true
  | [], _ => rfl
  | item :: rest, h => by
    rw [itemsElements, List.append_eq_nil_iff] at h
    have hitem := isOk_structured_of_elements inline item h.1
    have hrest := isOk_listStructured_of_elements inline rest h.2
    rw [listStructured]
    refine (isOk_bind_iff (p := True) fun form => ?_).mpr ⟨hitem, trivial⟩
    rw [isOk_bind_pure]
    exact ⟨fun _ => trivial, fun _ => hrest⟩

end

/-- A value without elements has a structured form. -/
theorem isOk_valueStructured {inline : Bool} {value : Option (List Item)}
    (h : fragmentElements value = []) : (valueStructured inline value).isOk = true := by
  cases value with
  | none => rfl
  | some items =>
    rw [valueStructured]
    exact isOk_itemsForm (isOk_listStructured_of_elements inline items h)

/-- Attributes are written if no name has been seen before, and none stands twice. Their values hold
no elements, so nothing in these can be refused. -/
theorem isOk_attributesStructured_iff (inline : Bool) (seen : List String)
    {attributes : List Attribute} (h : attributesElements attributes = []) :
    (attributesStructured inline seen attributes).isOk = true ↔
      (∀ a ∈ attributes, a.name ∉ seen) ∧ (attributes.map Attribute.name).Nodup := by
  induction attributes generalizing seen with
  | nil => exact ⟨fun _ => ⟨List.forall_mem_nil _, List.nodup_nil⟩, fun _ => rfl⟩
  | cons a rest ih =>
    obtain ⟨name, value⟩ := a
    rw [attributesElements, List.append_eq_nil_iff] at h
    rw [attributesStructured, List.forall_mem_cons, List.map_cons, List.nodup_cons]
    by_cases hseen : seen.contains name = true
    · rw [if_pos hseen]
      refine ⟨fun hok => ?_, fun hok => ?_⟩
      · cases hok
      · exact absurd (List.contains_iff_mem.mp hseen) hok.1.1
    · have hname : name ∉ seen := fun hmem => hseen (List.contains_iff_mem.mpr hmem)
      have hrest := ih (name :: seen) h.2
      simp only [List.mem_cons, not_or] at hrest
      rw [if_neg hseen, isOk_bind_iff fun value => (Bool.eq_iff_iff.mp (isOk_bind_pure _ _)).trans
        hrest, isOk_valueStructured h.1]
      simp only [List.mem_map, not_exists, not_and, true_and]
      constructor
      · rintro ⟨hrest, hnodup⟩
        exact ⟨⟨hname, fun a ha => (hrest a ha).2⟩, fun a ha => (hrest a ha).1, hnodup⟩
      · rintro ⟨⟨-, hrest⟩, hfirst, hnodup⟩
        exact ⟨fun a ha => ⟨hfirst a ha, hrest a ha⟩, hnodup⟩

/-- Arguments without elements have a structured form. -/
theorem isOk_argumentsStructured (arguments : Option Json) {items : Option (List Item)}
    (h : fragmentElements items = []) : (argumentsStructured arguments items).isOk = true := by
  cases items with
  | none => rfl
  | some items =>
    rw [argumentsStructured]
    split
    · rfl
    · rw [isOk_bind_pure]
      exact isOk_itemsForm (isOk_listStructured_of_elements true items h)

/-- A directive without elements has a structured form. -/
theorem isOk_structured_directive {d : Directive} (h : d.elements = []) :
    d.structured.isOk = true := by
  obtain ⟨occasion, name | items, arguments, dynamicArguments⟩ := d
  · rw [Directive.elements] at h
    rw [Directive.structured, isOk_bind_pure]
    exact isOk_argumentsStructured arguments h
  · rw [Directive.elements, List.append_eq_nil_iff] at h
    rw [Directive.structured]
    refine (isOk_bind_iff (p := True) fun name => ?_).mpr
      ⟨isOk_itemsForm (isOk_listStructured_of_elements true items h.1), trivial⟩
    rw [isOk_bind_pure]
    exact ⟨fun _ => trivial, fun _ => isOk_argumentsStructured arguments h.2⟩

/-- Events that are passed on have structured forms, if there are no elements in them. -/
theorem isOk_proxiesStructured {proxies : List Directive} (h : directivesElements proxies = []) :
    (proxiesStructured proxies).isOk = true := by
  induction proxies with
  | nil => rfl
  | cons d rest ih =>
    rw [directivesElements, List.append_eq_nil_iff] at h
    rw [proxiesStructured]
    refine (isOk_bind_iff (p := True) fun form => ?_).mpr ⟨isOk_structured_directive h.1, trivial⟩
    rw [isOk_bind_pure]
    exact ⟨fun _ => trivial, fun _ => ih h.2⟩

/-- A transition has a structured form, if there are no elements in it. -/
theorem isOk_transitionStructured {transition : Option Directive}
    (h : transitionElements transition = []) : (transitionStructured transition).isOk = true := by
  cases transition with
  | none => rfl
  | some d =>
    rw [transitionStructured, isOk_bind_pure]
    exact isOk_structured_directive h

/-! ## Items -/

/-- What decides whether a list has a form decides it for content, but for content that is written
as markup, which is never refused. -/
theorem isOk_childrenStructured_iff {inline : Bool} {children : List Item} {P : Element → Prop}
    (h : (listStructured inline children).isOk = true ↔ ∀ e ∈ listFormed inline children, P e) :
    (childrenStructured inline (some children)).isOk = true ↔
      ∀ e ∈ besidesMarkup inline children (listFormed inline children), P e := by
  rw [childrenStructured]
  refine isOk_contentForm_iff (fun hnil => ?_) h
  rw [hnil, listFormed]

/-- An element is written if its names are distinct and its content is written. Of directives
nothing is refused, whatever their names are. -/
theorem isOk_structured_element_iff {inline : Bool} {e : Element} (h : e.kind.elements = []) :
    (e.structured inline).isOk = true ↔
      e.NamesDistinct ∧ (childrenStructured inline e.children).isOk = true := by
  obtain ⟨id, rawName, lowerName, ⟨name, attributes⟩ |
    ⟨tag, attributes, proxies, intro, outro, decorator⟩, doctype, selfClosing, isVoid, closers,
    children⟩ := e
  · have hattributes := isOk_attributesStructured_iff inline [] h
    rw [Element.structured, isOk_bind_iff fun a => by rw [isOk_bind_pure], hattributes]
    simp only [List.not_mem_nil, not_false_eq_true, implies_true, true_and]
    rfl
  · rw [ElementKind.elements, List.append_eq_nil_iff, List.append_eq_nil_iff,
      List.append_eq_nil_iff] at h
    obtain ⟨⟨⟨hattributes, hproxies⟩, hintro⟩, houtro⟩ := h
    have hattributes := isOk_attributesStructured_iff inline [] hattributes
    rw [Element.structured, isOk_bind_iff fun a => isOk_bind_iff fun content =>
      isOk_bind_iff fun proxies => isOk_bind_iff fun intro => by rw [isOk_bind_pure], hattributes,
      isOk_proxiesStructured hproxies, isOk_transitionStructured hintro,
      isOk_transitionStructured houtro]
    simp only [List.not_mem_nil, not_false_eq_true, implies_true, true_and, and_true]
    rfl

mutual

/-- An item has a structured form exactly if no element that the form writes has two attributes of
one name. The induction is over content, with the hypothesis that opening tags hold no elements. -/
theorem isOk_structured_iff (inline : Bool) :
    ∀ item : Item, (∀ e ∈ item.elements, e.kind.elements = []) →
      ((item.structured inline).isOk = true ↔ ∀ e ∈ item.formed inline, e.NamesDistinct)
  | .text _, _ => ⟨fun _ e he => absurd he List.not_mem_nil, fun _ => rfl⟩
  | .mustache _ _, _ => ⟨fun _ e he => absurd he List.not_mem_nil, fun _ => rfl⟩
  | .block reference inverted items, h => by
    rw [Item.structured, isOk_bind_pure, Item.formed]
    refine isOk_contentForm_iff (fun hnil => ?_) (isOk_listStructured_iff inline items h)
    rw [hnil, listFormed]
  | .inclusion _, _ => ⟨fun _ e he => absurd he List.not_mem_nil, fun _ => rfl⟩
  | .comment _, _ => ⟨fun _ e he => absurd he List.not_mem_nil, fun _ => rfl⟩
  | .element e, h => by
    rw [Item.structured, Item.formed]
    exact isOk_structured_iff_element inline e h

/-- The same for an element, which adds its own names to those of its content. -/
theorem isOk_structured_iff_element (inline : Bool) :
    ∀ e : Element, (∀ e' ∈ e.elements, e'.kind.elements = []) →
      ((e.structured inline).isOk = true ↔ ∀ e' ∈ e.formed inline, e'.NamesDistinct)
  | ⟨id, rawName, lowerName, kind, doctype, selfClosing, isVoid, closers, none⟩, h => by
    rw [isOk_structured_element_iff (h _ (Element.mem_elements_self _)), Element.formed,
      List.forall_mem_singleton]
    exact ⟨fun hok => hok.1, fun hnames => ⟨hnames, rfl⟩⟩
  | ⟨id, rawName, lowerName, kind, doctype, selfClosing, isVoid, closers, some children⟩, h => by
    have hkind : kind.elements = [] := h _ (Element.mem_elements_self _)
    rw [isOk_structured_element_iff hkind, Element.formed, List.forall_mem_cons]
    rw [Element.elements, hkind, List.nil_append, fragmentElements] at h
    have hchildren := isOk_listStructured_iff inline children (List.forall_mem_cons.mp h).2
    rw [isOk_childrenStructured_iff hchildren]

/-- The forms of items are written if and only if the names of each element that they write are
distinct. -/
theorem isOk_listStructured_iff (inline : Bool) :
    ∀ items : List Item, (∀ e ∈ itemsElements items, e.kind.elements = []) →
      ((listStructured inline items).isOk = true ↔
        ∀ e ∈ listFormed inline items, e.NamesDistinct)
  | [], _ => ⟨fun _ e he => absurd he List.not_mem_nil, fun _ => rfl⟩
  | item :: rest, h => by
    obtain ⟨hitem, hrest⟩ := List.forall_mem_append.mp h
    have hlist := isOk_listStructured_iff inline rest hrest
    rw [listStructured, listFormed, isOk_bind_iff fun form =>
      (Bool.eq_iff_iff.mp (isOk_bind_pure _ _)).trans hlist, isOk_structured_iff inline item hitem,
      List.forall_mem_append]

end

/-- The form of a list of items is written if and only if the names of each element that it writes
are distinct. -/
theorem isOk_itemsStructured_iff (inline : Bool) {items : List Item}
    (h : ∀ e ∈ itemsElements items, e.kind.elements = []) :
    (itemsStructured inline items).isOk = true ↔
      ∀ e ∈ itemsFormed inline items, e.NamesDistinct :=
  isOk_itemsForm_iff (isOk_listStructured_iff inline items h)

/-- There is one reason only why a form is not written. -/
theorem eq_duplicateAttribute_iff {α : Type} {r : Except StructureError α} :
    r = .error .duplicateAttribute ↔ ¬r.isOk = true := by
  cases r with
  | error e =>
    cases e
    exact ⟨fun _ hok => Bool.false_ne_true hok, fun _ => rfl⟩
  | ok a =>
    refine ⟨fun h => ?_, fun h => absurd rfl h⟩
    cases h

/-! ## Templates -/

namespace Serializer

/-- A serializer that remembers nothing gives the structured form of the items of a template. -/
theorem result_itemsForm_parse {options : Options} {source : String} {items : List Item}
    (h : Template.parse options source = .ok items) (inline : Bool) :
    (itemsForm inline items Memo.empty).result = itemsStructured inline items :=
  result_itemsForm (Template.nodup_ids_of_parse h) inline

end Serializer

namespace Template

/-- A template has no structured form if an element of it has two attributes of one name, and is not
compiled if one has that is not written as markup. -/
theorem duplicates_refused (options : Options) (source : String) (items : List Item)
    (h : parse options source = .ok items) :
    ((Serializer.itemsForm false items Memo.empty).result = .error .duplicateAttribute ↔
      ∃ e ∈ itemsElements items, ¬e.NamesDistinct) ∧
    ((Serializer.compile items).result = .error .duplicateAttribute ↔
      ∃ e ∈ itemsFormed true items, ¬e.NamesDistinct) ∧
    ∀ e ∈ itemsFormed true items, e ∈ itemsElements items := by
  have hkinds := elements_kind_of_parse h
  have hplain : itemsFormed false items = itemsElements items := listFormed_false items hkinds
  refine ⟨?_, ?_, fun e he => mem_itemsElements_of_formed items (mem_of_mem_besidesMarkup he)⟩
  · rw [Serializer.result_itemsForm_parse h, eq_duplicateAttribute_iff,
      isOk_itemsStructured_iff false hkinds, hplain]
    simp only [not_forall, exists_prop]
  · rw [Serializer.result_compile, Serializer.result_itemsForm_parse h, eq_duplicateAttribute_iff,
      isOk_itemsStructured_iff true hkinds]
    simp only [not_forall, exists_prop]

/-- An element with two attributes of one name, and something dynamic beside it: there is no markup
of the list that could hide the element, so it is refused by both ways of writing. -/
theorem duplicates_refused_beside_dynamic :
    ∃ items, parse {} "<div a=1 A=2></div>\x7b\x7bx\x7d\x7d" = .ok items ∧
      ((Serializer.itemsForm false items Memo.empty).result = .error .duplicateAttribute ↔
        ∃ e ∈ itemsElements items, ¬e.NamesDistinct) ∧
      ((Serializer.compile items).result = .error .duplicateAttribute ↔
        ∃ e ∈ itemsFormed true items, ¬e.NamesDistinct) := by
  obtain ⟨items, hitems⟩ : ∃ items, parse {} "<div a=1 A=2></div>\x7b\x7bx\x7d\x7d" = .ok items :=
    exists_of_isOk (by decide +kernel)
  have hrefused := duplicates_refused _ _ items hitems
  exact ⟨items, hitems, hrefused.1, hrefused.2.1⟩

/-- An element with two attributes of one name that is refused by itself is compiled to
its markup. -/
theorem duplicates_compiled :
    ∃ items, parse {} "<div a=1 a=2></div>" = .ok items ∧
      (∃ e ∈ itemsElements items, ¬e.NamesDistinct) ∧
      (Serializer.itemsForm false items Memo.empty).result = .error .duplicateAttribute ∧
      (Serializer.compile items).result = .ok (.string "<div a=1 a=2></div>") := by
  obtain ⟨items, hitems⟩ : ∃ items, parse {} "<div a=1 a=2></div>" = .ok items :=
    exists_of_isOk (by decide +kernel)
  have hfound : (parse {} "<div a=1 a=2></div>").toOption.any (fun items =>
      (itemsElements items).any fun e => !decide e.NamesDistinct) = true := by decide +kernel
  have hwritten : (parse {} "<div a=1 a=2></div>").toOption.bind itemsMarkup? =
      some "<div a=1 a=2></div>" := by decide +kernel
  rw [hitems] at hfound hwritten
  obtain ⟨e, he, hnames⟩ := List.any_eq_true.mp hfound
  rw [Bool.not_eq_true', decide_eq_false_iff_not] at hnames
  have hkinds := elements_kind_of_parse hitems
  refine ⟨items, hitems, ⟨e, he, hnames⟩, ?_, ?_⟩
  · rw [Serializer.result_itemsForm_parse hitems, eq_duplicateAttribute_iff,
      isOk_itemsStructured_iff false hkinds]
    have hplain : itemsFormed false items = itemsElements items := listFormed_false items hkinds
    rw [hplain]
    exact fun hall => hnames (hall e he)
  · have hmarkup : itemsMarkup? items = some "<div a=1 a=2></div>" := hwritten
    rw [Serializer.result_compile, Serializer.result_itemsForm_parse hitems, itemsStructured,
      Output.itemsForm, if_pos rfl, hmarkup]

end Template

end MustacheMarkup
