import MustacheMarkup.Proofs.Output.Duplicates
import MustacheMarkup.Proofs.Output.Literal
import MustacheMarkup.Proofs.Template.Built

/-!
# What can be written as markup

Items have a markup if and only if nothing dynamic is reached from them through the content of
elements and the values of attributes (`isSome_itemsMarkup?_iff_static`). The markup of a list has
in it the markup of every list inside, as long as only content is gone through, and the closing tag
of the element right behind it. So a compiled template is a text if nothing in it is dynamic, and
otherwise a list with an entry for each of its items.
-/

set_option autoImplicit false

namespace MustacheMarkup

open Output Journal

/-! ## What is dynamic -/

/-- An element that can be written as markup as far as what is inside it can: a plain one of the
markup, without behaviour, and with no attribute that is kept for other purposes. -/
structure Element.Eligible (e : Element) : Prop where
  html : e.html?.isSome = true
  plain : Vocabulary.isPlain e.lowerName = true
  directives : e.directives = []
  names : ∀ a ∈ e.attributes, ':' ∉ a.name.toList ∧ a.name ∉ ["id", "intro", "outro"]

/-- An item that is not dynamic, whatever is inside it. -/
def Item.IsStatic : Item → Prop
  | .text _ => True
  | .mustache _ _ => False
  | .block _ _ _ => False
  | .inclusion _ => False
  | .comment _ => True
  | .element e => e.Eligible

/-- An item that is reached from items through the content of elements and the values of attributes,
at any depth. -/
inductive Reached (items : List Item) : Item → Prop where
  | here {item : Item} (h : item ∈ items) : Reached items item
  | content {e : Element} {inner : List Item} {item : Item} (he : Reached items (.element e))
      (hinner : e.children = some inner) (h : item ∈ inner) : Reached items item
  | value {e : Element} {a : Attribute} {inner : List Item} {item : Item}
      (he : Reached items (.element e)) (ha : a ∈ e.attributes) (hinner : a.value = some inner)
      (h : item ∈ inner) : Reached items item

/-- An element that is reached from items through the content of elements only. -/
inductive ReachedInside (items : List Item) : Element → Prop where
  | here {e : Element} (h : .element e ∈ items) : ReachedInside items e
  | content {e e' : Element} {inner : List Item} (he : ReachedInside items e)
      (hinner : e.children = some inner) (h : .element e' ∈ inner) : ReachedInside items e'

/-- What is reached from items that are reached themselves is reached. -/
theorem Reached.trans {items inner : List Item} {item : Item} (h : Reached inner item)
    (hinner : ∀ item ∈ inner, Reached items item) : Reached items item := by
  induction h with
  | here h => exact hinner _ h
  | content _ hchildren h ih => exact .content ih hchildren h
  | value _ ha hvalue h ih => exact .value ih ha hvalue h

/-! ## One element -/

/-- A name is not reserved exactly if it has no colon and is none of the three that are kept for
other purposes. -/
theorem isReserved_eq_false_iff {name : String} :
    isReserved name = false ↔ ':' ∉ name.toList ∧ name ∉ ["id", "intro", "outro"] := by
  simp [isReserved, List.contains_eq_mem]

/-- Content has a markup exactly if it is missing or its items have one. -/
theorem isSome_contentMarkup?_iff {children : Option (List Item)} :
    (contentMarkup? children).isSome = true ↔
      ∀ inner ∈ children, (itemsMarkup? inner).isSome = true := by
  cases children with
  | none => simp [contentMarkup?]
  | some inner => simp [contentMarkup?]

/-- A value has a markup exactly if it is missing or its items have one. -/
theorem isSome_valueMarkup?_iff {value : Option (List Item)} :
    (valueMarkup? value).isSome = true ↔ ∀ inner ∈ value, (itemsMarkup? inner).isSome = true := by
  cases value with
  | none => simp [valueMarkup?]
  | some inner => simp [valueMarkup?]

/-- Attributes can be written exactly if none is reserved and all values have a markup. Two of one
name are written like any others. -/
theorem isOk_attributesMarkup_iff (attributes : List Attribute) :
    (attributesMarkup attributes).isOk = true ↔
      (∀ a ∈ attributes, isReserved a.name = false) ∧
        ∀ a ∈ attributes, ∀ inner ∈ a.value, (itemsMarkup? inner).isSome = true := by
  induction attributes with
  | nil => exact ⟨fun _ => ⟨List.forall_mem_nil _, List.forall_mem_nil _⟩, fun _ => rfl⟩
  | cons a rest ih =>
    obtain ⟨name, value⟩ := a
    rw [List.forall_mem_cons, List.forall_mem_cons, ← isSome_valueMarkup?_iff, attributesMarkup]
    cases hname : isReserved name with
    | true => simp [Except.isOk, Except.toBool]
    | false =>
      cases valueMarkup? value with
      | none => simp [Except.isOk, Except.toBool]
      | some text =>
        simp only [Bool.false_eq_true, if_false, Option.isSome_some, true_and]
        rw [← ih]
        cases attributesMarkup rest <;> rfl

/-- What makes an element eligible, as it is looked for. The order of the tests matters for the
refusal that is reported, but not for whether there is one. -/
theorem eligible_html_iff {id : NodeId} {rawName lowerName tag : String}
    {attributes : List Attribute} {proxies : List Directive} {intro outro : Option Directive}
    {decorator : Option String} {doctype selfClosing isVoid : Bool}
    {closers : Option (List String)} {children : Option (List Item)} :
    Element.Eligible ⟨id, rawName, lowerName, .html ⟨tag, attributes, proxies, intro, outro,
        decorator⟩, doctype, selfClosing, isVoid, closers, children⟩ ↔
      Vocabulary.isPlain lowerName = true ∧
        (!proxies.isEmpty || intro.isSome || outro.isSome) = false ∧
          ∀ a ∈ attributes, isReserved a.name = false := by
  have hdirectives : proxies ++ intro.toList ++ outro.toList = [] ↔
      (!proxies.isEmpty || intro.isSome || outro.isSome) = false := by
    simp [List.append_eq_nil_iff, and_assoc]
  rw [← hdirectives]
  simp only [isReserved_eq_false_iff]
  exact ⟨fun h => ⟨h.plain, h.directives, h.names⟩, fun h => ⟨rfl, h.1, h.2.1, h.2.2⟩⟩

/-- An element has a markup if it is eligible and everything inside it has one: its content and the
values of its attributes. A component is never eligible. -/
theorem Element.isOk_markup_iff (e : Element) : e.markup.isOk = true ↔ e.Eligible ∧
    (∀ inner ∈ e.children, (itemsMarkup? inner).isSome = true) ∧
      ∀ a ∈ e.attributes, ∀ inner ∈ a.value, (itemsMarkup? inner).isSome = true := by
  obtain ⟨id, rawName, lowerName, ⟨name, attributes⟩ |
    ⟨tag, attributes, proxies, intro, outro, decorator⟩, doctype, selfClosing, isVoid, closers,
    children⟩ := e
  · refine ⟨fun h => ?_, fun h => ?_⟩
    · cases h
    · exact absurd h.1.html Bool.false_ne_true
  · have hattributes := isOk_attributesMarkup_iff attributes
    rw [eligible_html_iff, ← isSome_contentMarkup?_iff, Element.markup]
    cases Vocabulary.isPlain lowerName with
    | false => simp [Except.isOk, Except.toBool]
    | true =>
      cases !proxies.isEmpty || intro.isSome || outro.isSome with
      | true => simp [Except.isOk, Except.toBool]
      | false =>
        cases contentMarkup? children with
        | none => simp [Except.isOk, Except.toBool]
        | some content =>
          simp only [Bool.not_true, Bool.false_eq_true, if_false, Option.isSome_some, true_and]
          refine Iff.trans ?_ hattributes
          cases attributesMarkup attributes <;> rfl

/-! ## All items -/

/-- The markup of an element as an item is that of the element. -/
theorem markup?_element_eq_some_iff {e : Element} {text : String} :
    (Item.element e).markup? = some text ↔ e.markup = .ok text := by
  rw [Item.markup?]
  cases e.markup <;> simp [Except.toOption]

/-- An element as an item has a markup exactly if the element has one. -/
theorem isSome_markup?_element (e : Element) :
    (Item.element e).markup?.isSome = e.markup.isOk := by
  rw [Item.markup?]
  cases e.markup <;> rfl

/-- If items have a markup, all that is reached from them has one. -/
theorem isSome_markup?_of_reached {items : List Item} (h : (itemsMarkup? items).isSome = true)
    {item : Item} (hitem : Reached items item) : item.markup?.isSome = true := by
  induction hitem with
  | here hmem => exact isSome_itemsMarkup?_iff.mp h _ hmem
  | @content e inner item he hinner hmem ih =>
    rw [isSome_markup?_element, e.isOk_markup_iff] at ih
    obtain ⟨-, hcontent, -⟩ := ih
    exact isSome_itemsMarkup?_iff.mp (hcontent inner hinner) item hmem
  | @value e a inner item he ha hinner hmem ih =>
    rw [isSome_markup?_element, e.isOk_markup_iff] at ih
    obtain ⟨-, -, hvalues⟩ := ih
    exact isSome_itemsMarkup?_iff.mp (hvalues a ha inner hinner) item hmem

/-- What has a markup is not dynamic itself. -/
theorem isStatic_of_isSome {item : Item} (h : item.markup?.isSome = true) : item.IsStatic := by
  cases item with
  | text content => trivial
  | mustache kind reference => cases h
  | block reference inverted items => cases h
  | inclusion name => cases h
  | comment content => trivial
  | element e =>
    rw [isSome_markup?_element, e.isOk_markup_iff] at h
    exact h.1

mutual

/-- An item has a markup if nothing that is reached from it is dynamic. The induction is over the
item, and what is reached from a part is reached from the whole. -/
theorem isSome_markup?_of_static : ∀ item : Item,
    (∀ inner, Reached [item] inner → inner.IsStatic) → item.markup?.isSome = true
  | .text _, _ => rfl
  | .mustache _ _, h => (h _ (.here List.mem_cons_self)).elim
  | .block _ _ _, h => (h _ (.here List.mem_cons_self)).elim
  | .inclusion _, h => (h _ (.here List.mem_cons_self)).elim
  | .comment _, _ => rfl
  | .element e, h => by
    rw [isSome_markup?_element]
    exact isOk_markup_of_static e h

/-- The same for an element. -/
theorem isOk_markup_of_static : ∀ e : Element,
    (∀ inner, Reached [.element e] inner → inner.IsStatic) → e.markup.isOk = true
  | ⟨_, _, _, .component _ _, _, _, _, _, _⟩, h => by
    have heligible : Element.Eligible _ := h _ (.here List.mem_cons_self)
    exact absurd heligible.html Bool.false_ne_true
  | ⟨_, _, _, .html ⟨_, attributes, _, _, _, _⟩, _, _, _, _, children⟩, h => by
    refine (Element.isOk_markup_iff _).mpr ⟨h _ (.here List.mem_cons_self), ?_, ?_⟩
    · refine isSome_fragment_of_static children fun inner hinner item hitem => h item ?_
      exact hitem.trans fun item hmem => .content (.here List.mem_cons_self) hinner hmem
    · refine isSome_values_of_static attributes fun a ha inner hinner item hitem => h item ?_
      exact hitem.trans fun item hmem => .value (.here List.mem_cons_self) ha hinner hmem

/-- The same for the values of attributes. -/
theorem isSome_values_of_static : ∀ attributes : List Attribute,
    (∀ a ∈ attributes, ∀ inner ∈ a.value, ∀ item, Reached inner item → item.IsStatic) →
      ∀ a ∈ attributes, ∀ inner ∈ a.value, (itemsMarkup? inner).isSome = true
  | [], _ => List.forall_mem_nil _
  | ⟨name, value⟩ :: rest, h => by
    obtain ⟨hvalue, hrest⟩ := List.forall_mem_cons.mp h
    exact List.forall_mem_cons.mpr
      ⟨isSome_fragment_of_static value hvalue, isSome_values_of_static rest hrest⟩

/-- The same for a fragment, if there is one. -/
theorem isSome_fragment_of_static : ∀ items : Option (List Item),
    (∀ inner ∈ items, ∀ item, Reached inner item → item.IsStatic) →
      ∀ inner ∈ items, (itemsMarkup? inner).isSome = true
  | none, _ => fun inner hinner => by cases hinner
  | some items, h => fun inner hinner => by
    cases hinner
    exact isSome_itemsMarkup?_of_static items (h items rfl)

/-- If nothing dynamic is reached from items, they have a markup. -/
theorem isSome_itemsMarkup?_of_static : ∀ items : List Item,
    (∀ item, Reached items item → item.IsStatic) → (itemsMarkup? items).isSome = true
  | [], _ => rfl
  | item :: rest, h => by
    have hitem := isSome_markup?_of_static item fun inner hinner => h inner <|
      hinner.trans fun inner hmem => .here (List.mem_singleton.mp hmem ▸ List.mem_cons_self)
    have hrest := isSome_itemsMarkup?_of_static rest fun inner hinner => h inner <|
      hinner.trans fun inner hmem => .here (List.mem_cons_of_mem _ hmem)
    rw [isSome_itemsMarkup?_iff] at hrest ⊢
    exact List.forall_mem_cons.mpr ⟨hitem, hrest⟩

end

/-- Items have a markup if and only if nothing dynamic is reached from them. -/
theorem isSome_itemsMarkup?_iff_static (items : List Item) :
    (itemsMarkup? items).isSome = true ↔ ∀ item, Reached items item → item.IsStatic :=
  ⟨fun h _ hitem => isStatic_of_isSome (isSome_markup?_of_reached h hitem),
    isSome_itemsMarkup?_of_static items⟩

/-! ## What stands in a markup -/

/-- What stands in an element that is reached is listed among the elements of all items. -/
theorem ReachedInside.sublist {items : List Item} {e : Element} (h : ReachedInside items e) :
    e.elements.Sublist (itemsElements items) := by
  induction h with
  | here hmem => exact sublist_of_mem_items hmem
  | @content e e' inner _ hinner hmem ih =>
    have hcontent := e.sublist_content
    rw [hinner] at hcontent
    exact (sublist_of_mem_items hmem).trans (hcontent.trans ih)

/-- The markup of items has in it that of each of them, in one piece, since it is nothing but the
markups one behind the other. -/
theorem infix_of_mem {items : List Item} {markup : String} (h : itemsMarkup? items = some markup)
    {item : Item} (hitem : item ∈ items) :
    ∃ text, item.markup? = some text ∧ text.toList <:+: markup.toList := by
  induction items generalizing markup with
  | nil => cases hitem
  | cons first rest ih =>
    rw [itemsMarkup?] at h
    cases hfirst : first.markup? with
    | none =>
      rw [hfirst] at h
      cases h
    | some start =>
      rw [hfirst] at h
      obtain ⟨more, hmore, rfl⟩ := Option.map_eq_some_iff.mp h
      rw [String.toList_append]
      rcases List.mem_cons.mp hitem with rfl | hitem
      · exact ⟨start, hfirst, (List.prefix_append _ _).isInfix⟩
      · obtain ⟨text, htext, hinfix⟩ := ih hmore hitem
        exact ⟨text, htext, hinfix.trans (List.suffix_append _ _).isInfix⟩

/-- The markup of an element with content ends with that of the content and the closing tag. This
needs that the element neither is void nor closes itself, as then no content is written. -/
theorem exists_content_of_markup {e : Element} {text : String} {inner : List Item}
    (h : e.markup = .ok text) (hinner : e.children = some inner)
    (hwhole : e.children.isSome = !(e.selfClosing || e.isVoid)) :
    ∃ content, itemsMarkup? inner = some content ∧
      (content ++ "</" ++ e.tag ++ ">").toList <:+: text.toList := by
  have hok : e.markup.isOk = true := by
    rw [h]
    rfl
  obtain ⟨details, hdetails⟩ := Option.isSome_iff_exists.mp (e.isOk_markup_iff.mp hok).1.html
  have hkind : e.kind = .html details := by
    unfold Element.html? at hdetails
    split at hdetails
    · cases hdetails
    · rename_i details' hkind
      cases hdetails
      exact hkind
  have htag : e.tag = details.tag := by
    rw [Element.tag, hkind]
  obtain ⟨content, texts, hcontent, -, rfl⟩ := exists_of_markup hkind h
  rw [hinner, contentMarkup?] at hcontent
  rw [hinner, Option.isSome_some, eq_comm, Bool.not_eq_true', Bool.or_eq_false_iff] at hwhole
  refine ⟨content, hcontent, ?_⟩
  rw [elementText, hwhole.1, hwhole.2, Bool.or_false, if_neg Bool.false_ne_true, htag]
  generalize content ++ "</" ++ details.tag ++ ">" = ending
  rw [String.toList_append]
  exact (List.suffix_append _ _).isInfix

/-- The markup of items has in it that of each element that is reached through content. -/
theorem infix_of_reachedInside {items : List Item} {markup : String}
    (h : itemsMarkup? items = some markup)
    (hwhole : ∀ e ∈ itemsElements items, e.children.isSome = !(e.selfClosing || e.isVoid))
    {e : Element} (he : ReachedInside items e) :
    ∃ text, e.markup = .ok text ∧ text.toList <:+: markup.toList := by
  induction he with
  | here hmem =>
    obtain ⟨text, htext, hinfix⟩ := infix_of_mem h hmem
    exact ⟨text, markup?_element_eq_some_iff.mp htext, hinfix⟩
  | @content e e' inner he hinner hmem ih =>
    obtain ⟨text, htext, hinfix⟩ := ih
    have hmem_e := he.sublist.subset e.mem_elements_self
    obtain ⟨content, hcontent, hinfix'⟩ := exists_content_of_markup htext hinner (hwhole e hmem_e)
    obtain ⟨text', htext', hinfix''⟩ := infix_of_mem hcontent hmem
    refine ⟨text', markup?_element_eq_some_iff.mp htext', hinfix''.trans ?_⟩
    refine List.IsInfix.trans ?_ (hinfix'.trans hinfix)
    rw [String.append_assoc, String.append_assoc, String.toList_append]
    exact (List.prefix_append _ _).isInfix

/-! ## Compiling -/

/-- A list in structured form has a form for each item. -/
theorem length_listStructured {inline : Bool} {items : List Item} {forms : List Json}
    (h : listStructured inline items = .ok forms) : forms.length = items.length := by
  induction items generalizing forms with
  | nil =>
    cases h
    rfl
  | cons item rest ih =>
    rw [listStructured] at h
    obtain ⟨form, -, h⟩ := exists_of_bind_eq_ok h
    obtain ⟨more, hmore, h⟩ := exists_of_bind_eq_ok h
    cases h
    rw [List.length_cons, List.length_cons, ih hmore]

/-- The compiled form of items is their markup if they have one, and else a list. -/
theorem itemsStructured_cases {items : List Item} {form : Json}
    (h : itemsStructured true items = .ok form) :
    (∃ text, itemsMarkup? items = some text ∧ form = .string text) ∨
      itemsMarkup? items = none ∧ ∃ forms, form = .array forms ∧ forms.length = items.length := by
  rw [itemsStructured, itemsForm, if_pos rfl] at h
  cases hmarkup : itemsMarkup? items with
  | some text =>
    rw [hmarkup] at h
    cases h
    exact .inl ⟨text, rfl, rfl⟩
  | none =>
    rw [hmarkup] at h
    obtain ⟨forms, hforms, rfl⟩ := exists_of_map_eq_ok h
    exact .inr ⟨rfl, forms, rfl, length_listStructured hforms⟩

namespace Building

/-- A serializer that remembers nothing gives a markup of a list that a parser builds if and only if
nothing dynamic is reached from the list. That markup has in it the markup of each list inside, with
the closing tag behind it. Compiled, the list is a text if nothing dynamic is reached, and otherwise
a list with an entry for each item. -/
theorem Built.markup_iff_static (settings : Settings) (items : List Item)
    (h : Built settings items) :
    ∃ markup, (Serializer.itemsMarkup items Memo.empty).result = .ok markup ∧
      (markup.isSome = true ↔ ∀ item, Reached items item → item.IsStatic) ∧
      (∀ text ∈ markup, ∀ e inner, ReachedInside items e → e.children = some inner →
        ∃ content, (Serializer.itemsMarkup inner Memo.empty).result = .ok (some content) ∧
          (content ++ "</" ++ e.tag ++ ">").toList <:+: text.toList) ∧
      ∀ form, (Serializer.compile items).result = .ok form →
        ((∃ text, form = .string text) ↔ ∀ item, Reached items item → item.IsStatic) ∧
        ((∃ text, form = .string text) ∨ ∃ forms, form = .array forms ∧
          forms.length = items.length) := by
  have hwhole : ∀ e ∈ itemsElements items, e.children.isSome = !(e.selfClosing || e.isVoid) := by
    intro e he
    obtain ⟨tag, htogether⟩ := (h.isBuilt e he).putTogether
    exact htogether.children
  have hstatic := isSome_itemsMarkup?_iff_static items
  refine ⟨itemsMarkup? items, Serializer.result_itemsMarkup h.nodup_ids, hstatic, ?_, ?_⟩
  · intro text htext e inner he hinner
    obtain ⟨text', htext', hinfix⟩ := infix_of_reachedInside htext hwhole he
    have hmem := he.sublist.subset e.mem_elements_self
    obtain ⟨content, hcontent, hinfix'⟩ := exists_content_of_markup htext' hinner (hwhole e hmem)
    have hsublist := e.sublist_content.trans he.sublist
    rw [hinner] at hsublist
    have hids := (hsublist.map Element.id).nodup h.nodup_ids
    refine ⟨content, ?_, hinfix'.trans hinfix⟩
    rw [Serializer.result_itemsMarkup hids, hcontent]
  · intro form hform
    rw [Serializer.result_compile, Serializer.result_itemsForm h.nodup_ids] at hform
    rw [← hstatic]
    rcases itemsStructured_cases hform with ⟨text, htext, rfl⟩ | ⟨hnone, forms, rfl, hlength⟩
    · rw [htext]
      exact ⟨⟨fun _ => rfl, fun _ => ⟨text, rfl⟩⟩, .inl ⟨text, rfl⟩⟩
    · rw [hnone]
      refine ⟨⟨fun ⟨text, htext⟩ => ?_, fun hsome => ?_⟩, .inr ⟨forms, rfl, hlength⟩⟩
      · cases htext
      · cases hsome

/-- An element with an element in the value of an attribute, which has an attribute with
some value. -/
def holdingInValue (value : Lexeme) : List Token :=
  [⟨.tag ⟨"P", [⟨"title", some [⟨.text "x", default⟩, Call.aloneTag "b" [⟨"lang", some
    [⟨value, default⟩]⟩]]⟩], false, false, false⟩, default⟩, ⟨.text "y", default⟩]

/-- If that value is a text, it is written within the value around it. If it is a mustache, nothing
is written. -/
theorem markup_holdingInValue :
    (∃ items, Built ⟨{}, 0⟩ items ∧ (Serializer.itemsMarkup items Memo.empty).result =
      .ok (some "<p title=\"x<b lang=z />\">y</p>") ∧
        ∀ item, Reached items item → item.IsStatic) ∧
    ∃ items, Built ⟨{}, 0⟩ items ∧ (Serializer.itemsMarkup items Memo.empty).result = .ok none ∧
      ¬∀ item, Reached items item → item.IsStatic := by
  have hwritten : ∀ (tokens : List Token) (expected : Option String),
      (Template.ofTokens ⟨{}, 0⟩ tokens).result.toOption.map itemsMarkup? = some expected →
      ∃ items, Built ⟨{}, 0⟩ items ∧
        (Serializer.itemsMarkup items Memo.empty).result = .ok expected ∧
          (expected.isSome = true ↔ ∀ item, Reached items item → item.IsStatic) := by
    intro tokens expected h
    cases hitems : (Template.ofTokens ⟨{}, 0⟩ tokens).result with
    | error e =>
      rw [hitems] at h
      cases h
    | ok items =>
      rw [hitems] at h
      have hbuilt := built_of_ofTokens hitems
      obtain ⟨markup, hresult, hstatic, -, -⟩ := Built.markup_iff_static _ items hbuilt
      have hmarkup : markup = expected := by
        rw [Serializer.result_itemsMarkup hbuilt.nodup_ids] at hresult
        exact (Except.ok.inj hresult).symm.trans (Option.some.inj h)
      rw [hmarkup] at hresult hstatic
      exact ⟨items, hbuilt, hresult, hstatic⟩
  constructor
  · obtain ⟨items, hbuilt, hresult, hstatic⟩ := hwritten (holdingInValue (.text "z"))
      (some "<p title=\"x<b lang=z />\">y</p>") (by decide +kernel)
    exact ⟨items, hbuilt, hresult, hstatic.mp rfl⟩
  · obtain ⟨items, hbuilt, hresult, hstatic⟩ := hwritten
      (holdingInValue (.mustache .interpolation "z")) none (by decide +kernel)
    exact ⟨items, hbuilt, hresult, fun h => Bool.false_ne_true (hstatic.mpr h)⟩

end Building

end MustacheMarkup
