import MustacheMarkup.Proofs.Output.Legible

/-!
# What markup keeps of a tree

Markup says nothing of identities, of how the name of a tag was written, of decorators and of
doctypes; whether an element that never has content closes itself is not said either, nor how the
text of a value is parted, nor whether an empty value is there. `Item.essence` forgets just these.
What is left of an item with a literal form is `Literal.item`, and a form that is read back makes an
item of which that is left again (`exists_build_essence`).
-/

set_option autoImplicit false

namespace MustacheMarkup

open Building Journal Output

/-! ## Essential items -/

/-- Items with neighbouring texts put together. -/
def joinItems : List Item → List Item
  | [] => []
  | .text content :: rest =>
    match joinItems rest with
    | .text next :: rest => .text (content ++ next) :: rest
    | rest => .text content :: rest
  | item :: rest => item :: joinItems rest

/-- Whether an item is an empty text. -/
def Item.isEmptyText : Item → Bool
  | .text content => content.isEmpty
  | _ => false

/-- A value with its texts put together, and none if it is empty. -/
def essentialValue (items : List Item) : Option (List Item) :=
  if (joinItems items).all Item.isEmptyText then none else some (joinItems items)

/-- What markup keeps of an attribute. -/
def Attribute.essence (a : Attribute) : Attribute :=
  ⟨a.name, a.value.bind essentialValue⟩

/-- What markup keeps of what an element is. -/
def ElementKind.essence : ElementKind → ElementKind
  | .component name attributes => .component name (attributes.map Attribute.essence)
  | .html ⟨tag, attributes, proxies, intro, outro, _⟩ =>
    .html ⟨tag, attributes.map Attribute.essence, proxies, intro, outro, none⟩

/-- Any identity, where it makes no difference which. -/
def NodeId.any : NodeId := ⟨0, 0⟩

mutual

/-- What markup keeps of an item. -/
def Item.essence : Item → Item
  | .text content => .text content
  | .mustache kind reference => .mustache kind reference
  | .block reference inverted items => .block reference inverted (itemsEssence items)
  | .inclusion name => .inclusion name
  | .comment content => .comment content
  | .element e => .element e.essence

/-- What markup keeps of an element. -/
def Element.essence : Element → Element
  | ⟨_, _, lowerName, kind, _, selfClosing, isVoid, closers, none⟩ =>
    ⟨.any, "", lowerName, kind.essence, false, selfClosing && !isVoid, isVoid, closers, none⟩
  | ⟨_, _, lowerName, kind, _, selfClosing, isVoid, closers, some children⟩ =>
    ⟨.any, "", lowerName, kind.essence, false, selfClosing && !isVoid, isVoid, closers,
      some (itemsEssence children)⟩

/-- What markup keeps of items. -/
def itemsEssence : List Item → List Item
  | [] => []
  | item :: rest => item.essence :: itemsEssence rest

end

/-! ## The items of forms -/

/-- The attribute that is written as a text, without value if the text is empty. -/
def literalAttribute (a : String × String) : Attribute :=
  ⟨a.1, if a.2.isEmpty then none else some [.text a.2]⟩

/-- What an element of the markup without behaviour is. -/
def literalKind (name : String) (attributes : List (String × String)) : ElementKind :=
  .html ⟨name, attributes.map literalAttribute, [], none, none, none⟩

mutual

/-- What is left of the items that have a form. -/
def Literal.item : Literal → Item
  | .text content => .text content
  | .comment content => .comment content
  | .alone name attributes slash =>
    .element ⟨.any, "", name, literalKind name attributes, false, slash, Vocabulary.isVoid name,
      Vocabulary.closers? name, none⟩
  | .element name attributes content =>
    .element ⟨.any, "", name, literalKind name attributes, false, false, Vocabulary.isVoid name,
      Vocabulary.closers? name, some (literalsItems content)⟩

/-- What is left of lists of items that have forms. -/
def literalsItems : List Literal → List Item
  | [] => []
  | l :: rest => l.item :: literalsItems rest

end

/-! ## Faithful forms -/

/-- An attribute that is read back as itself: it stands for no behaviour, it is not taken for the
start of a value, and nothing in its value is escaped. -/
structure FaithfulAttribute (a : String × String) : Prop where
  role : Role.ofName a.1 = .plain
  name : a.1 ≠ "="
  value : ∀ c ∈ a.2.toList, c ≠ '"'

mutual

/-- A form that is read back as itself. -/
def Literal.Faithful : Literal → Prop
  | .text content => content ≠ "" ∧ inert content.toList = true
  | .comment _ => True
  | .alone _ attributes _ => ∀ a ∈ attributes, FaithfulAttribute a
  | .element _ attributes content => (∀ a ∈ attributes, FaithfulAttribute a) ∧
    literalsFaithful content

/-- Forms each of which is read back as itself. -/
def literalsFaithful : List Literal → Prop
  | [] => True
  | l :: rest => l.Faithful ∧ literalsFaithful rest

end

/-- Attributes that are read back as themselves do not run into each other, because none is named
`=`. -/
theorem attributesApart_of_faithful {attributes : List (String × String)}
    (h : ∀ a ∈ attributes, FaithfulAttribute a) : attributesApart attributes = true := by
  induction attributes with
  | nil => rfl
  | cons a rest ih =>
    cases rest with
    | nil => rfl
    | cons b rest =>
      obtain ⟨-, hrest⟩ := List.forall_mem_cons.mp h
      have hb := (List.forall_mem_cons.mp hrest).1.name
      have hname : (b.1 == "=") = false := beq_eq_false_iff_ne.mpr hb
      rw [attributesApart, hname, Bool.and_false, ih hrest]
      rfl

mutual

/-- A form that is read back as itself is separate. -/
theorem separate_of_faithful : ∀ l : Literal, l.Faithful → l.separate = true
  | .text _, h => h.2
  | .comment _, _ => rfl
  | .alone _ _ _, h => attributesApart_of_faithful h
  | .element _ _ content, h => by
    rw [Literal.separate, attributesApart_of_faithful h.1, separate_of_literalsFaithful content h.2]
    rfl

/-- The same for lists of forms. -/
theorem separate_of_literalsFaithful : ∀ literals : List Literal, literalsFaithful literals →
    literalsSeparate literals = true
  | [], _ => rfl
  | l :: rest, h => by
    rw [literalsSeparate, separate_of_faithful l h.1, separate_of_literalsFaithful rest h.2]
    rfl

end

/-! ## Forms that are read back -/

/-- An attribute that is read back has the essence of the one that was written. A value without
double quotes comes back unchanged, and no value is as good as an empty one. -/
theorem essence_built_of_reads {raw : RawAttribute} {a : String × String} (h : raw.Reads a)
    (hlegible : LegibleAttribute a) (hfaithful : FaithfulAttribute a) :
    raw.built.essence = literalAttribute a := by
  obtain ⟨hname, hvalue⟩ := h
  have hfinal : htmlAttributeName raw.name = a.1 := by
    rw [hname]
    exact hlegible.final
  rw [RawAttribute.built, hfinal, Attribute.essence, literalAttribute]
  split at hvalue
  · rename_i hempty
    rw [hvalue, if_pos hempty]
    rfl
  · rename_i hempty
    obtain ⟨span, hvalue⟩ := hvalue
    rw [hvalue, if_neg hempty, Option.map_some, valueItems_text,
      escapeQuotes_eq_self hfaithful.value, Option.bind_some, essentialValue]
    simp only [joinItems, List.all_cons, List.all_nil, Item.isEmptyText, Bool.and_true, hempty,
      Bool.false_eq_true, if_false]

/-- Attributes that are read of faithful ones are built to what was written, with empty values
forgotten. -/
theorem essence_builtAttributes_of_reads {raws : List RawAttribute}
    {attributes : List (String × String)} (h : List.Forall₂ RawAttribute.Reads raws attributes)
    (hlegible : ∀ a ∈ attributes, LegibleAttribute a)
    (hfaithful : ∀ a ∈ attributes, FaithfulAttribute a) :
    ((raws.filter fun raw => Role.ofName raw.name = .plain).map RawAttribute.built).map
      Attribute.essence = attributes.map literalAttribute := by
  induction h with
  | nil => rfl
  | @cons raw a raws attributes hreads _ ih =>
    obtain ⟨ha, hrest⟩ := List.forall_mem_cons.mp hlegible
    obtain ⟨ha', hrest'⟩ := List.forall_mem_cons.mp hfaithful
    rw [List.filter_cons_of_pos (by simp only [hreads.1, ha'.role, decide_true]), List.map_cons,
      List.map_cons, List.map_cons, ih hrest hrest', essence_built_of_reads hreads ha ha']

/-- The opening tag of a faithful form that is read back gives to its element what the form says. No
attribute of it stands for behaviour, so nothing can be refused. -/
theorem exists_header_of_faithful {settings : Settings}
    (hoff : settings.options.sanitizeEventAttributes = false) {name : String}
    (hname : Vocabulary.isPlain name = true) {raws : List RawAttribute} (slash : Bool)
    {attributes : List (String × String)} (hreads : List.Forall₂ RawAttribute.Reads raws attributes)
    (hlegible : ∀ a ∈ attributes, LegibleAttribute a)
    (hfaithful : ∀ a ∈ attributes, FaithfulAttribute a) (span : Span) (index : Nat) :
    ∃ header, (elementHeader settings ⟨name, raws, false, slash, false⟩ span index).result =
      .ok header ∧ header.2.essence = literalKind name attributes := by
  have hreadable : (⟨name, raws, false, slash, false⟩ : Tag).Readable := readable_of_forall₂ hreads
  have hplain : attributesPlain attributes = true :=
    List.all_eq_true.mpr fun a ha => decide_eq_true (hfaithful a ha).role
  obtain ⟨hcomponent, hwritten⟩ := isComponent_of_isPlain hname
  refine ⟨_, hreadable.result_elementHeader_of_plain hcomponent (plain_of_reads hreads hplain)
    settings span index, ?_⟩
  dsimp only
  rw [ElementKind.essence, hwritten, Tag.builtAttributes_eq _ hoff, Tag.plainAttributes,
    essence_builtAttributes_of_reads hreads hlegible hfaithful, literalKind]

mutual

/-- What a faithful form is read as makes an item of which the item of the form is left. Blanks are
kept on the way, so that the texts are those of the form. -/
theorem exists_build_essence {settings : Settings}
    (hoff : settings.options.sanitizeEventAttributes = false) :
    ∀ (l : Literal) {n : Nested} (index : Nat), l.ReadAs n → l.Legible → l.Faithful →
      ∃ item, (n.build settings true index).result = .ok item ∧ item.essence = l.item
  | .text content, n, index, hn, _, _ => by
    cases hn
    exact ⟨_, rfl, rfl⟩
  | .comment content, n, index, hn, _, _ => by
    cases hn
    exact ⟨_, rfl, rfl⟩
  | .alone name attributes slash, n, index, hn, hl, h => by
    obtain ⟨hname, hslash, hattributes⟩ := hl
    cases hn with
    | alone _ _ hreads span =>
      obtain ⟨header, hheader, hessence⟩ :=
        exists_header_of_faithful hoff hname slash hreads hattributes h span index
      rw [Nested.build]
      refine ⟨_, result_bind_of_ok hheader rfl, ?_⟩
      rw [Item.essence, Tag.element, Element.essence, hessence, lower_of_isPlain hname,
        Literal.item, hslash, Bool.and_self]
  | .element name attributes content, n, index, hn, hl, h => by
    obtain ⟨hname, -, hattributes, -, hcontent⟩ := hl
    cases hn with
    | @element _ _ _ raws parts hreads span hparts =>
      obtain ⟨header, hheader, hessence⟩ :=
        exists_header_of_faithful hoff hname false hreads hattributes h.1 span index
      obtain ⟨children, hchildren, hitems⟩ :=
        exists_buildAll_essence hoff content _ hparts hcontent h.2
      rw [Nested.build]
      refine ⟨_, result_bind_of_ok hheader (result_bind_of_ok hchildren rfl), ?_⟩
      have hkept : Tag.keepsBlanks ⟨name, raws, false, false, false⟩ true = true := rfl
      rw [Item.essence, Tag.element, hkept, if_pos rfl, Element.essence, hessence, hitems,
        lower_of_isPlain hname, Literal.item, Bool.false_and]

/-- What faithful forms are read as makes items of which the items of the forms are left, one by one
and in the same order. -/
theorem exists_buildAll_essence {settings : Settings}
    (hoff : settings.options.sanitizeEventAttributes = false) :
    ∀ (literals : List Literal) {parts : List Nested} (index : Nat),
      List.Forall₂ Literal.ReadAs literals parts → literalsLegible literals →
      literalsFaithful literals → ∃ items, (buildAll settings true parts index).result = .ok items ∧
        itemsEssence items = literalsItems literals
  | [], parts, index, hparts, _, _ => by
    cases hparts
    exact ⟨[], rfl, rfl⟩
  | l :: literals, parts, index, hparts, hlegible, h => by
    obtain ⟨hl, -, hliterals⟩ := hlegible
    cases hparts with
    | @cons _ n _ more hn hrest =>
      obtain ⟨item, hitem, hessence⟩ := exists_build_essence hoff l index hn hl h.1
      obtain ⟨items, hitems, hessences⟩ := exists_buildAll_essence hoff literals
        (n.build settings true index).state hrest hliterals h.2
      rw [buildAll]
      refine ⟨item :: items, result_bind_of_ok hitem (result_bind_of_ok hitems rfl), ?_⟩
      rw [itemsEssence, hessence, hessences, literalsItems]

end

end MustacheMarkup
