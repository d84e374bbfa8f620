import Mathlib.Data.Multiset.Defs
import MustacheMarkup.Proofs.Item.Inside
import MustacheMarkup.Proofs.Output.Duplicates
import MustacheMarkup.Proofs.Template.FinalNames

/-!
# A refusal does not depend on any order

Items, attributes and what stands in their values may be put into another order, at any depth:
`ItemsReordered`. A structured form without markup in it is refused for the names of an element, so
all that counts is the `signature` of each element, in which the names have no order. To reorder
items permutes their signatures (`perm_signatures`), and a refusal is read off the signatures, in
whatever order they are.

Directives and what is written as markup never add a refusal.
-/

set_option autoImplicit false

namespace MustacheMarkup

open Output Journal

/-! ## Items in another order -/

mutual

/-- The same item, with another order of what stands in it. -/
inductive Item.Reordered : Item → Item → Prop where
  | same (item : Item) : Item.Reordered item item
  | block (reference : String) (inverted : Bool) {items items' : List Item}
      (hitems : ItemsReordered items items') :
      Item.Reordered (.block reference inverted items) (.block reference inverted items')
  | element (id : NodeId) (rawName lowerName : String) (doctype selfClosing isVoid : Bool)
      (closers : Option (List String)) {kind kind' : ElementKind}
      {children children' : Option (List Item)} (hkind : ElementKind.Reordered kind kind')
      (hchildren : FragmentReordered children children') :
      Item.Reordered
        (.element
          ⟨id, rawName, lowerName, kind, doctype, selfClosing, isVoid, closers, children⟩)
        (.element
          ⟨id, rawName, lowerName, kind', doctype, selfClosing, isVoid, closers, children'⟩)

/-- The same, with another order of the attributes and of the events that are passed on. -/
inductive ElementKind.Reordered : ElementKind → ElementKind → Prop where
  | component (name : String) {attributes attributes' : List Attribute}
      (hattributes : AttributesReordered attributes attributes') :
      ElementKind.Reordered (.component name attributes) (.component name attributes')
  | html (tag : String) (intro outro : Option Directive) (decorator : Option String)
      {attributes attributes' : List Attribute} {proxies proxies' : List Directive}
      (hattributes : AttributesReordered attributes attributes')
      (hproxies : proxies.Perm proxies') :
      ElementKind.Reordered (.html ⟨tag, attributes, proxies, intro, outro, decorator⟩)
        (.html ⟨tag, attributes', proxies', intro, outro, decorator⟩)

/-- The same attributes in another order, and with another order of what stands in their values. -/
inductive AttributesReordered : List Attribute → List Attribute → Prop where
  | nil : AttributesReordered [] []
  | cons (name : String) {value value' : Option (List Item)} {rest rest' : List Attribute}
      (hvalue : FragmentReordered value value') (hrest : AttributesReordered rest rest') :
      AttributesReordered (⟨name, value⟩ :: rest) (⟨name, value'⟩ :: rest')
  | swap (a b : Attribute) (rest : List Attribute) :
      AttributesReordered (a :: b :: rest) (b :: a :: rest)
  | trans {attributes between attributes' : List Attribute}
      (h : AttributesReordered attributes between) (h' : AttributesReordered between attributes') :
      AttributesReordered attributes attributes'

/-- The same items in another order, if there are any. -/
inductive FragmentReordered : Option (List Item) → Option (List Item) → Prop where
  | none : FragmentReordered none none
  | some {items items' : List Item} (hitems : ItemsReordered items items') :
      FragmentReordered (some items) (some items')

/-- The same items in another order, and with another order of what stands in them. -/
inductive ItemsReordered : List Item → List Item → Prop where
  | nil : ItemsReordered [] []
  | cons {item item' : Item} {rest rest' : List Item} (hitem : Item.Reordered item item')
      (hrest : ItemsReordered rest rest') : ItemsReordered (item :: rest) (item' :: rest')
  | swap (item item' : Item) (rest : List Item) :
      ItemsReordered (item :: item' :: rest) (item' :: item :: rest)
  | trans {items between items' : List Item} (h : ItemsReordered items between)
      (h' : ItemsReordered between items') : ItemsReordered items items'

end

/-- Items may be put into any order. -/
theorem ItemsReordered.of_perm {items items' : List Item} (h : items.Perm items') :
    ItemsReordered items items' := by
  induction h with
  | nil => exact .nil
  | cons item _ ih => exact .cons (.same item) ih
  | swap item item' rest => exact .swap item' item rest
  | trans _ _ ih ih' => exact ih.trans ih'

/-! ## Signatures -/

/-- What a refusal can depend on of an element: its identity, the names of its attributes in no
order, and how many elements stand in its attributes and directives. -/
def Element.signature (e : Element) : NodeId × Multiset String × Nat :=
  (e.id, e.kind.attributeNames, e.kind.elements.length)

/-- The signatures of elements. -/
def signatures (elements : List Element) : List (NodeId × Multiset String × Nat) :=
  elements.map Element.signature

/-- The signatures of two lists of elements are those of the one and those of the other. -/
theorem signatures_append (elements elements' : List Element) :
    signatures (elements ++ elements') = signatures elements ++ signatures elements' :=
  List.map_append

/-- The identity of an element is part of its signature. -/
theorem idsOf_eq (elements : List Element) :
    idsOf elements = (signatures elements).map Prod.fst := by
  rw [signatures, List.map_map]
  rfl

/-- Whether the names are distinct can be told from the signature, in which they have no order. -/
theorem Element.namesDistinct_iff (e : Element) : e.NamesDistinct ↔ e.signature.2.1.Nodup := by
  rw [Element.NamesDistinct, Element.map_name_attributes]
  exact Multiset.coe_nodup.symm

/-- Where signatures are the same but for their order, each element has one of its signature on the
other side. -/
theorem exists_signature_eq {elements elements' : List Element}
    (h : (signatures elements).Perm (signatures elements')) {e : Element} (he : e ∈ elements) :
    ∃ e' ∈ elements', e'.signature = e.signature := by
  have hmem : e.signature ∈ signatures elements' := h.subset (List.mem_map_of_mem he)
  exact List.mem_map.mp hmem

mutual

/-- To put what stands in an item in another order puts the signatures of its elements in another
order. One case for each kind of content that may be reordered. -/
theorem perm_signatures_item {item item' : Item} (h : item.Reordered item') :
    (signatures item.elements).Perm (signatures item'.elements) := by
  match h with
  | .same item => exact .refl _
  | .block reference inverted hitems => exact perm_signatures hitems
  | .element _ _ _ _ _ _ _ hkind hchildren =>
    obtain ⟨hnames, helements⟩ := perm_signatures_kind hkind
    have hinside := helements.append (perm_signatures_fragment hchildren)
    have hlength := helements.length_eq
    rw [signatures, signatures, List.length_map, List.length_map] at hlength
    rw [← signatures_append, ← signatures_append] at hinside
    rw [Item.elements, Item.elements, Element.elements, Element.elements, signatures, signatures,
      List.map_cons, List.map_cons, Element.signature, Element.signature, hlength,
      Multiset.coe_eq_coe.mpr hnames]
    exact hinside.cons _

/-- The same for what an element is: the names of its attributes are the same but for
their order. -/
theorem perm_signatures_kind {kind kind' : ElementKind} (h : kind.Reordered kind') :
    kind.attributeNames.Perm kind'.attributeNames ∧
      (signatures kind.elements).Perm (signatures kind'.elements) := by
  match h with
  | .component name hattributes => exact perm_signatures_attributes hattributes
  | .html tag intro outro decorator hattributes hproxies =>
    obtain ⟨hnames, helements⟩ := perm_signatures_attributes hattributes
    have hdirectives := (hproxies.flatMap_right Directive.elements).map Element.signature
    rw [← directivesElements_eq, ← directivesElements_eq] at hdirectives
    refine ⟨hnames, ?_⟩
    simp only [ElementKind.elements, signatures_append]
    exact ((helements.append hdirectives).append_right _).append_right _

/-- The same for attributes and what stands in their values. The names are the same up to order, so
they are distinct on both sides or on neither. -/
theorem perm_signatures_attributes {attributes attributes' : List Attribute}
    (h : AttributesReordered attributes attributes') :
    (attributes.map Attribute.name).Perm (attributes'.map Attribute.name) ∧
      (signatures (attributesElements attributes)).Perm
        (signatures (attributesElements attributes')) := by
  match h with
  | .nil => exact ⟨.nil, .nil⟩
  | .cons name hvalue hrest =>
    obtain ⟨hnames, helements⟩ := perm_signatures_attributes hrest
    refine ⟨hnames.cons name, ?_⟩
    rw [attributesElements, attributesElements, signatures_append, signatures_append]
    exact (perm_signatures_fragment hvalue).append helements
  | .swap a b rest =>
    have hswap := List.Perm.swap b a rest
    refine ⟨hswap.map _, ?_⟩
    rw [attributesElements_eq, attributesElements_eq]
    exact (hswap.flatMap_right _).map _
  | .trans h h' =>
    obtain ⟨hnames, helements⟩ := perm_signatures_attributes h
    obtain ⟨hnames', helements'⟩ := perm_signatures_attributes h'
    exact ⟨hnames.trans hnames', helements.trans helements'⟩

/-- The same for a fragment, if there is one. -/
theorem perm_signatures_fragment {items items' : Option (List Item)}
    (h : FragmentReordered items items') :
    (signatures (fragmentElements items)).Perm (signatures (fragmentElements items')) := by
  match h with
  | .none => exact .nil
  | .some hitems => exact perm_signatures hitems

/-- To reorder items permutes the signatures of their elements. -/
theorem perm_signatures {items items' : List Item} (h : ItemsReordered items items') :
    (signatures (itemsElements items)).Perm (signatures (itemsElements items')) := by
  match h with
  | .nil => exact .nil
  | .cons hitem hrest =>
    rw [itemsElements, itemsElements, signatures_append, signatures_append]
    exact (perm_signatures_item hitem).append (perm_signatures hrest)
  | .swap item item' rest =>
    rw [itemsElements_eq, itemsElements_eq]
    exact ((List.Perm.swap item' item rest).flatMap_right _).map _
  | .trans h h' => exact (perm_signatures h).trans (perm_signatures h')

end

/-! ## Refusals -/

/-- Where elements have identities of their own and stand in content only, the form without markup
is refused if and only if the names of one are not distinct. -/
theorem refused_iff_of_nodup {items : List Item} (hids : (idsOf (itemsElements items)).Nodup)
    (hkinds : ∀ e ∈ itemsElements items, e.kind.elements = []) :
    (Serializer.itemsForm false items Memo.empty).result = .error .duplicateAttribute ↔
      ∃ e ∈ itemsElements items, ¬e.NamesDistinct := by
  have hplain : itemsFormed false items = itemsElements items := listFormed_false items hkinds
  rw [Serializer.result_itemsForm hids, eq_duplicateAttribute_iff,
    isOk_itemsStructured_iff false hkinds, hplain]
  simp only [not_forall, exists_prop]

/-- A form with markup in it is only refused where the form without markup is refused. -/
theorem refused_of_refused_inline {items : List Item} (hids : (idsOf (itemsElements items)).Nodup)
    (hkinds : ∀ e ∈ itemsElements items, e.kind.elements = [])
    (h : (Serializer.itemsForm true items Memo.empty).result = .error .duplicateAttribute) :
    (Serializer.itemsForm false items Memo.empty).result = .error .duplicateAttribute := by
  rw [Serializer.result_itemsForm hids, eq_duplicateAttribute_iff,
    isOk_itemsStructured_iff true hkinds] at h
  push Not at h
  obtain ⟨e, he, hnames⟩ := h
  refine (refused_iff_of_nodup hids hkinds).mpr ⟨e, ?_, hnames⟩
  exact mem_itemsElements_of_formed items (mem_of_mem_besidesMarkup he)

/-- Reordered items are refused if the items are. Both are refused for an element with two
attributes of one name, and reordering gives each element the names that it had. -/
theorem refused_iff_of_reordered {items items' : List Item} (h : ItemsReordered items items')
    (hids : (idsOf (itemsElements items)).Nodup)
    (hkinds : ∀ e ∈ itemsElements items, e.kind.elements = []) :
    (Serializer.itemsForm false items' Memo.empty).result = .error .duplicateAttribute ↔
      (Serializer.itemsForm false items Memo.empty).result = .error .duplicateAttribute := by
  have hperm := perm_signatures h
  have hids' : (idsOf (itemsElements items')).Nodup := by
    rw [idsOf_eq] at hids ⊢
    exact (hperm.map Prod.fst).nodup_iff.mp hids
  have hkinds' : ∀ e' ∈ itemsElements items', e'.kind.elements = [] := by
    intro e' he'
    obtain ⟨e, he, hsame⟩ := exists_signature_eq hperm.symm he'
    have hlength : e.kind.elements.length = e'.kind.elements.length :=
      congrArg (fun signature => signature.2.2) hsame
    rw [hkinds e he] at hlength
    exact List.eq_nil_of_length_eq_zero hlength.symm
  rw [refused_iff_of_nodup hids' hkinds', refused_iff_of_nodup hids hkinds]
  simp only [Element.namesDistinct_iff]
  constructor
  · rintro ⟨e', he', hnames⟩
    obtain ⟨e, he, hsame⟩ := exists_signature_eq hperm.symm he'
    exact ⟨e, he, hsame ▸ hnames⟩
  · rintro ⟨e, he, hnames⟩
    obtain ⟨e', he', hsame⟩ := exists_signature_eq hperm he
    exact ⟨e', he', hsame ▸ hnames⟩

/-! ## Directives -/

/-- A directive that holds no elements is written, whatever a serializer remembers. -/
theorem Serializer.isOk_directiveForm {d : Directive} (h : d.elements = []) (memo : Memo) :
    (directiveForm d memo).result.isOk = true := by
  have hnone : ∀ e ∈ d.elements, e ∈ (∅ : Set Element) := by
    rw [h]
    exact List.forall_mem_nil _
  have hsound : memo.Sound ∅ := ⟨fun _ he => he.elim, fun _ he => he.elim⟩
  rw [(yields_directiveForm (Set.injOn_empty _) d hnone).result hsound]
  exact isOk_structured_directive h

/-! ## Templates -/

namespace Template

/-- The form of a template without markup in it is refused if and only if some element of it, in
whatever content, has two attributes of one name, the names being those that the opening tags give.
It is refused in any other order, too. No directive is refused, and nothing is refused only because
markup is asked for. -/
theorem refused_iff_duplicate (options : Options) (source : String) (items : List Item)
    (h : parse options source = .ok items) :
    ((Serializer.itemsForm false items Memo.empty).result = .error .duplicateAttribute ↔
      ∃ e ∈ itemsElements items, ¬e.NamesDistinct) ∧
    (∀ e ∈ itemsElements items, e.kind.elements = []) ∧
    (∃ tokens, tokenize source = .ok tokens ∧
      (itemsElements items).map (fun e => e.attributes.map Attribute.name) =
        (openingTags tokens).map fun tag => tag.finalNames options) ∧
    (∀ items', ItemsReordered items items' →
      ((Serializer.itemsForm false items' Memo.empty).result = .error .duplicateAttribute ↔
        (Serializer.itemsForm false items Memo.empty).result = .error .duplicateAttribute)) ∧
    (∀ e ∈ itemsElements items, ∀ d ∈ e.directives, ∀ memo,
      (Serializer.directiveForm d memo).result.isOk = true) ∧
    ((Serializer.itemsForm true items Memo.empty).result = .error .duplicateAttribute →
      (Serializer.itemsForm false items Memo.empty).result = .error .duplicateAttribute) := by
  have hids := nodup_ids_of_parse h
  have hkinds := elements_kind_of_parse h
  refine ⟨refused_iff_of_nodup hids hkinds, hkinds, names_of_parse h, fun items' hreordered => ?_,
    fun e he d hd memo => ?_, refused_of_refused_inline hids hkinds⟩
  · exact refused_iff_of_reordered hreordered hids hkinds
  · have hinside := e.sublist_of_mem_directives hd
    rw [hkinds e he] at hinside
    exact Serializer.isOk_directiveForm (List.sublist_nil.mp hinside) memo

/-- A directive with the name of an attribute in its value, and in a section two attributes that
come to one name as SVG has it. -/
def viewBoxTwice : String :=
  "<p on-x=x:\x7b\x7bx\x7d\x7d x=1></p>\x7b\x7b#s\x7d\x7d<svg viewbox VIEWBOX></svg>"

/-- It is refused for the names in the section, in reverse order as well. -/
theorem refused_viewBoxTwice :
    ∃ items, parse {} viewBoxTwice = .ok items ∧ (∃ e ∈ itemsElements items, ¬e.NamesDistinct) ∧
      (Serializer.itemsForm false items.reverse Memo.empty).result =
        .error .duplicateAttribute := by
  obtain ⟨items, hitems⟩ : ∃ items, parse {} viewBoxTwice = .ok items :=
    exists_of_isOk (by decide +kernel)
  have hfound : (parse {} viewBoxTwice).toOption.any (fun items =>
      (itemsElements items).any fun e => !decide e.NamesDistinct) = true := by decide +kernel
  rw [hitems] at hfound
  obtain ⟨e, he, hnames⟩ := List.any_eq_true.mp hfound
  rw [Bool.not_eq_true', decide_eq_false_iff_not] at hnames
  obtain ⟨hiff, -, -, hreordered, -, -⟩ := refused_iff_duplicate _ _ items hitems
  have hreverse := hreordered items.reverse (.of_perm (List.reverse_perm items).symm)
  exact ⟨items, hitems, ⟨e, he, hnames⟩, hreverse.mpr (hiff.mpr ⟨e, he, hnames⟩)⟩

end Template

end MustacheMarkup
