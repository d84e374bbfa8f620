import MustacheMarkup.Proofs.Nesting.Complete
import MustacheMarkup.Proofs.Output.Essence
import MustacheMarkup.Proofs.Output.RoundTrip
import MustacheMarkup.Proofs.Template.Elements

/-!
# Markup stands for the tree that it is written of

If a template keeps its blanks, and nothing that is written side by side can be taken for something
else, then its markup is parsed to the same template again, up to what markup does not say
(`Template.essence_of_parse_markup`). What is to be shown is that the form of every item leaves the
same of it as markup does: elements have content unless they stand alone, the literal values of
attributes are texts, and no text is empty.
-/

set_option autoImplicit false

namespace MustacheMarkup

open Building Journal Output

/-! ## What must not stand side by side -/

/-- Whether no two texts stand side by side. -/
def textsApart : List Item → Bool
  | .text _ :: .text _ :: _ => false
  | _ :: rest => textsApart rest
  | [] => true

/-- Whether an item is a text with a double quote in it. -/
def Item.hasQuote : Item → Bool
  | .text content => content.toList.contains '"'
  | _ => false

/-- Whether an attribute of this name is read as one, and as one that stands for no behaviour. -/
def staysPlain (name : String) : Bool :=
  !(["=", "decorator", "intro-outro"].contains name ||
    ["on-", "proxy-"].any fun mark => mark.toList.isPrefixOf name.toList)

/-- Whether an attribute is read back as itself. -/
def Attribute.staysSame (a : Attribute) : Bool :=
  staysPlain a.name && !(a.value.getD []).any Item.hasQuote

/-- No two texts stand side by side behind the first item either, and a text is followed by
something else. -/
theorem textsApart_cons {item : Item} {rest : List Item} (h : textsApart (item :: rest) = true) :
    textsApart rest = true ∧
      ∀ content next more, item = .text content → rest ≠ .text next :: more := by
  cases item with
  | text content =>
    cases rest with
    | nil => exact ⟨rfl, fun _ _ _ _ hrest => by cases hrest⟩
    | cons item' rest =>
      cases item' with
      | text content' => cases h
      | _ => exact ⟨h, fun _ _ _ _ hrest => by cases hrest⟩
  | _ => exact ⟨h, fun _ _ _ hitem => by cases hitem⟩

/-- A name that stays plain and is not reserved gives no role. Two of the four names with a role of
their own are reserved, and to stay plain excludes the others and the marks of a proxy. -/
theorem ofName_of_staysPlain {name : String} (h : staysPlain name = true)
    (hreserved : isReserved name = false) : Role.ofName name = .plain ∧ name ≠ "=" := by
  rw [staysPlain, Bool.not_eq_true', Bool.or_eq_false_iff] at h
  obtain ⟨hnames, hmarks⟩ := h
  rw [isReserved, Bool.or_eq_false_iff] at hreserved
  have hreserved := hreserved.2
  simp only [List.contains_cons, List.contains_nil, Bool.or_false, Bool.or_eq_false_iff,
    beq_eq_false_iff_ne] at hnames hreserved
  simp only [List.any_cons, List.any_nil, Bool.or_false, Bool.or_eq_false_iff] at hmarks
  obtain ⟨hequals, hdecorator, hboth⟩ := hnames
  obtain ⟨-, hintro, houtro⟩ := hreserved
  have hproxy : proxyOccasion? name = none := by
    rw [proxyOccasion?, afterMark?, afterMark?, hmarks.1, hmarks.2]
    rfl
  refine ⟨?_, hequals⟩
  rw [Role.ofName, if_neg hintro, if_neg houtro, if_neg hboth, if_neg hdecorator, hproxy]

/-! ## Values -/

/-- Parts without tags and comments are texts, as far as they have a markup. -/
theorem texts_of_makesAll {settings : Settings} {index later : Nat} {parts : List Nested}
    {items : List Item} (h : MakesAll settings true index parts items later)
    (hvalue : ∀ lexeme ∈ partsListing parts, lexeme.inValue = true)
    (hmarkup : ∀ item ∈ items, item.markup?.isSome = true) :
    ∀ item ∈ items, ∃ content, item = .text content := by
  induction parts generalizing index items with
  | nil =>
    cases h
    exact List.forall_mem_nil _
  | cons n rest ih =>
    obtain ⟨hn, hrest⟩ := List.forall_mem_append.mp hvalue
    cases h with
    | cons hitem hitems =>
      obtain ⟨hfirst, hlater⟩ := List.forall_mem_cons.mp hmarkup
      obtain ⟨content, -, rfl⟩ := text_of_makes hitem hn hfirst
      exact List.forall_mem_cons.mpr ⟨⟨content, rfl⟩, ih hitems hrest hlater⟩

/-- A literal value of a source text is made of texts. -/
theorem texts_of_valueItems {tokens : List Token} (h : ∀ t ∈ tokens, t.lexeme.inValue = true)
    {text : String} (htext : itemsMarkup? (valueItems tokens) = some text) :
    ∀ item ∈ valueItems tokens, ∃ content, item = .text content := by
  obtain ⟨items, -, hyields⟩ := exists_fragment h
  rw [valueItems_eq hyields] at htext ⊢
  have hresult := (hyields ⟨default, 0⟩ 0).result rfl
  rw [fragmentItems_result] at hresult
  have hmarkup : (itemsMarkup? items).isSome = true := by
    rw [htext]
    rfl
  exact texts_of_makesAll (makesAll_of_buildAll _ hresult)
    (Nesting.forall_mem_listing (P := fun lexeme => lexeme.inValue = true) (fun _ _ _ _ => rfl) h)
    (isSome_itemsMarkup?_iff.mp hmarkup)

/-- Texts are put together to their markup. -/
theorem joinItems_of_texts {items : List Item} (h : ∀ item ∈ items, ∃ content, item = .text content)
    {text : String} (htext : itemsMarkup? items = some text) :
    joinItems items = if items.isEmpty then [] else [.text text] := by
  induction items generalizing text with
  | nil => rfl
  | cons item rest ih =>
    obtain ⟨⟨content, rfl⟩, hrest⟩ := List.forall_mem_cons.mp h
    rw [itemsMarkup?, Item.markup?] at htext
    obtain ⟨later, hlater, rfl⟩ := Option.map_eq_some_iff.mp htext
    rw [joinItems, ih hrest hlater]
    cases rest with
    | nil =>
      obtain rfl := Option.some.inj hlater
      rw [String.append_empty]
      rfl
    | cons item' rest => rfl

/-- The markup of texts without double quotes has none. -/
theorem quoteless_of_texts {items : List Item} (h : ∀ item ∈ items, ∃ content, item = .text content)
    {text : String} (htext : itemsMarkup? items = some text)
    (hquotes : items.any Item.hasQuote = false) : ∀ c ∈ text.toList, c ≠ '"' := by
  induction items generalizing text with
  | nil =>
    obtain rfl := Option.some.inj htext
    exact List.forall_mem_nil _
  | cons item rest ih =>
    obtain ⟨⟨content, rfl⟩, hrest⟩ := List.forall_mem_cons.mp h
    rw [itemsMarkup?, Item.markup?] at htext
    obtain ⟨later, hlater, rfl⟩ := Option.map_eq_some_iff.mp htext
    rw [List.any_cons, Bool.or_eq_false_iff, Item.hasQuote] at hquotes
    rw [String.toList_append]
    refine List.forall_mem_append.mpr ⟨?_, ih hrest hlater hquotes.2⟩
    rintro c hc rfl
    exact Bool.eq_false_iff.mp hquotes.1 (List.contains_iff_mem.mpr hc)

/-- A literal attribute leaves what its text leaves. Its value is made of texts and has no double
quotes, so there is nothing that writing changes. -/
theorem essence_of_valueMarkup? {name : String} {value : Option (List Token)}
    (hvalue : ∀ tokens ∈ value, ∀ t ∈ tokens, t.lexeme.inValue = true) {text : Option String}
    (htext : valueMarkup? (value.map valueItems) = some text)
    (hsame : Attribute.staysSame ⟨name, value.map valueItems⟩ = true)
    (hreserved : isReserved name = false) :
    Attribute.essence ⟨name, value.map valueItems⟩ = literalAttribute (name, text.getD "") ∧
      FaithfulAttribute (name, text.getD "") := by
  rw [Attribute.staysSame, Bool.and_eq_true, Bool.not_eq_true'] at hsame
  obtain ⟨hname, hquotes⟩ := hsame
  obtain ⟨hrole, hequals⟩ := ofName_of_staysPlain hname hreserved
  cases value with
  | none =>
    obtain rfl := Option.some.inj htext
    exact ⟨rfl, hrole, hequals, List.forall_mem_nil _⟩
  | some tokens =>
    obtain ⟨content, hcontent, rfl⟩ := Option.map_eq_some_iff.mp htext
    have htexts := texts_of_valueItems (hvalue tokens rfl) hcontent
    refine ⟨?_, hrole, hequals, quoteless_of_texts htexts hcontent hquotes⟩
    rw [Attribute.essence, Option.map_some, Option.bind_some, essentialValue,
      joinItems_of_texts htexts hcontent, literalAttribute]
    cases hitems : valueItems tokens with
    | nil =>
      rw [hitems] at hcontent
      obtain rfl := Option.some.inj hcontent
      rfl
    | cons item rest =>
      simp only [List.isEmpty_cons, Bool.false_eq_true, if_false, List.all_cons, List.all_nil,
        Item.isEmptyText, Bool.and_true, Option.getD_some]

/-- Attributes that stay the same are read back as what markup keeps of them, and what is written
for them is faithful. -/
theorem essence_of_attributesLiteral? {raws : List RawAttribute}
    (hreadable : ∀ a ∈ raws, a.Readable)
    (hsame : ∀ a ∈ raws.map RawAttribute.built, a.staysSame = true)
    {texts : List (String × String)}
    (h : attributesLiteral? (raws.map RawAttribute.built) = some texts) :
    (raws.map RawAttribute.built).map Attribute.essence = texts.map literalAttribute ∧
      ∀ a ∈ texts, FaithfulAttribute a := by
  induction raws generalizing texts with
  | nil =>
    cases h
    exact ⟨rfl, List.forall_mem_nil _⟩
  | cons raw rest ih =>
    obtain ⟨hreadable, hreadable'⟩ := List.forall_mem_cons.mp hreadable
    obtain ⟨hsame, hsame'⟩ := List.forall_mem_cons.mp hsame
    rw [List.map_cons, RawAttribute.built, attributesLiteral?] at h
    rw [RawAttribute.built] at hsame
    rw [List.map_cons, List.map_cons, RawAttribute.built]
    -- from here on it makes no difference how the final name is found
    generalize htmlAttributeName raw.name = name at h hsame ⊢
    split at h
    · cases h
    · rename_i hreserved
      split at h
      · rename_i text written hvalue hrest
        cases h
        obtain ⟨hessences, hfaithful⟩ := ih hreadable' hsame' hrest
        obtain ⟨hessence, hfirst⟩ :=
          essence_of_valueMarkup? hreadable hvalue hsame (Bool.eq_false_iff.mpr hreserved)
        refine ⟨?_, List.forall_mem_cons.mpr ⟨hfirst, hfaithful⟩⟩
        rw [List.map_cons, hessences, hessence]
      · cases h

/-! ## Items -/

/-- What is known of the lexemes of parts of a source text: values hold no tags, and texts are not
empty and nothing starts in them. -/
def Lexeme.Whole (lexeme : Lexeme) : Prop :=
  lexeme.Readable ∧ ∀ content, lexeme = .text content → content ≠ "" ∧ inert content.toList = true

/-- Whether the attributes and the content of an element are read back as they are. -/
def Element.staysSame (e : Element) : Bool :=
  textsApart e.content && e.attributes.all Attribute.staysSame

section

variable {settings : Settings}

/-- The form of an element leaves what markup leaves of the element, if that of its content does. It
has content exactly if the tag does not stand alone. -/
theorem essence_element (hoff : settings.options.sanitizeEventAttributes = false) {tag : Tag}
    (hreadable : tag.Readable) {span : Span} {index : Nat} {header : NodeId × ElementKind}
    (hheader : (elementHeader settings tag span index).result = .ok header)
    {children : Option (List Item)} (halone : children.isNone = tag.isAlone)
    (hsame : (tag.element header children).attributes.all Attribute.staysSame = true)
    (hcontent : ∀ items literals, children = some items → itemsLiterals? items = some literals →
      itemsEssence items = literalsItems literals ∧ literalsFaithful literals) {l : Literal}
    (hl : (Item.element (tag.element header children)).literal? = some l) :
    (Item.element (tag.element header children)).essence = l.item ∧ l.Faithful := by
  obtain ⟨-, decorator, content, texts, hkind, hchildren, htexts, rfl⟩ :=
    exists_of_literal?_element hreadable hheader hl
  rw [Tag.element, hkind] at hsame ⊢
  have hall : ∀ a ∈ tag.builtAttributes settings.options, a.staysSame = true :=
    List.all_eq_true.mp hsame
  rw [Tag.builtAttributes_eq _ hoff] at htexts hall ⊢
  have hreadable' : ∀ a ∈ tag.plainAttributes, a.Readable := by
    intro a ha
    exact hreadable a (List.mem_filter.mp ha).1
  obtain ⟨hessences, hfaithful⟩ := essence_of_attributesLiteral? hreadable' hall htexts
  rw [Tag.isAlone, Bool.or_comm] at halone
  rw [← halone, Item.essence]
  cases children with
  | none =>
    refine ⟨?_, hfaithful⟩
    -- an element that stands alone closes itself, unless it never has content
    have hself : (tag.selfClosing && !Vocabulary.isVoid (Text.lower tag.name)) =
        !Vocabulary.isVoid (Text.lower tag.name) := by
      cases hvoid : Vocabulary.isVoid (Text.lower tag.name) with
      | true => rw [Bool.not_true, Bool.and_false]
      | false =>
        rw [hvoid, Bool.false_or] at halone
        rw [← halone]
        rfl
    rw [Element.essence, ElementKind.essence, hessences, hself]
    rfl
  | some items =>
    obtain ⟨hitems, hliterals⟩ := hcontent items content rfl hchildren
    refine ⟨?_, hfaithful, hliterals⟩
    have hself : tag.selfClosing = false := (Bool.or_eq_false_iff.mp halone.symm).2
    rw [Element.essence, ElementKind.essence, hessences, hitems, hself, Bool.false_and]
    rfl

/-- A form that is put before others stays by itself if it is no text before a text. -/
theorem cons_eq_cons {l : Literal} {literals : List Literal}
    (hempty : ∀ content, l = .text content → content ≠ "")
    (happart : ∀ content next rest, l = .text content → literals ≠ .text next :: rest) :
    l.cons literals = l :: literals := by
  fun_cases Literal.cons l literals with
  | case1 s s' rest => exact absurd rfl (happart s s' rest rfl)
  | case2 s rest hrest hnil => exact absurd (String.isEmpty_iff.mp hnil) (hempty s rfl)
  | case3 s rest hrest hnil => rfl
  | case4 l rest hl => rfl

/-- What markup keeps of an item is a text only if the item is that text. -/
theorem eq_text_of_essence {item : Item} {content : String} (h : item.essence = .text content) :
    item = .text content := by
  cases item <;> cases h
  rfl

/-- A text stands first in the items of forms only if it stands first in the items. -/
theorem ne_text_of_essence {items : List Item} {literals : List Literal}
    (h : itemsEssence items = literalsItems literals)
    (hne : ∀ next more, items ≠ .text next :: more) (next : String) (rest : List Literal) :
    literals ≠ .text next :: rest := by
  rintro rfl
  cases items with
  | nil => cases h
  | cons item more =>
    rw [itemsEssence, literalsItems, List.cons.injEq] at h
    exact hne next more (congrArg (· :: more) (eq_text_of_essence h.1))

/-- What is read back as it is in an element: its attributes and the texts in its content, and
everything inside that. The hypothesis says that its opening tag holds no elements. -/
theorem staysSame_element {tag : Tag} {header : NodeId × ElementKind}
    {children : Option (List Item)} (helements : header.2.elements = [])
    (h : ∀ e ∈ (Item.element (tag.element header children)).elements, e.staysSame = true) :
    (tag.element header children).staysSame = true ∧
      ∀ e ∈ fragmentElements children, e.staysSame = true := by
  rw [elements_element helements, List.singleton_append] at h
  exact List.forall_mem_cons.mp h

mutual

/-- The form of an item leaves what markup leaves of the item, and the form is faithful, so the item
is left again when the markup is read. -/
theorem essence_of_makes (hoff : settings.options.sanitizeEventAttributes = false)
    {index later : Nat} {n : Nested} {item : Item} (h : n.Makes settings true index item later)
    (hcomplete : n.Complete) (hwhole : ∀ lexeme ∈ n.listing, lexeme.Whole)
    (hsame : ∀ e ∈ item.elements, e.staysSame = true) {l : Literal} (hl : item.literal? = some l) :
    item.essence = l.item ∧ l.Faithful := by
  match h with
  | .text _ _ content =>
    obtain rfl := Option.some.inj hl
    exact ⟨rfl, (hwhole _ List.mem_cons_self).2 content rfl⟩
  | .comment .. =>
    obtain rfl := Option.some.inj hl
    exact ⟨rfl, trivial⟩
  | .mustache .. | .block .. | .inclusion .. => cases hl
  | .alone _ hheader =>
    have hreadable := (hwhole _ List.mem_cons_self).1
    obtain ⟨hself, -⟩ := staysSame_element (hreadable.elements_elementHeader hheader) hsame
    have halone : (none : Option (List Item)).isNone = Tag.isAlone _ := hcomplete.symm
    exact essence_element hoff hreadable hheader halone (Bool.and_eq_true_iff.mp hself).2
      (fun items literals hnone => by cases hnone) hl
  | @Nested.Makes.element _ _ _ _ _ _ _ _ children hheader hcontent =>
    obtain ⟨hopening, hinside⟩ := List.forall_mem_cons.mp hwhole
    have hreadable := hopening.1
    obtain ⟨hself, hinner⟩ := staysSame_element (hreadable.elements_elementHeader hheader) hsame
    obtain ⟨happart, hattributes⟩ := Bool.and_eq_true_iff.mp hself
    have halone : (some children).isNone = Tag.isAlone _ := hcomplete.1.symm
    refine essence_element hoff hreadable hheader halone hattributes
      (fun items literals hitems hliterals => ?_) hl
    obtain rfl := Option.some.inj hitems
    exact essence_of_makesAll hoff hcontent hcomplete.2 hinside happart hinner hliterals

/-- The forms of items leave what markup leaves of the items, if no texts stand side by side. -/
theorem essence_of_makesAll (hoff : settings.options.sanitizeEventAttributes = false)
    {index later : Nat} {parts : List Nested} {items : List Item}
    (h : MakesAll settings true index parts items later) (hcomplete : partsComplete parts)
    (hwhole : ∀ lexeme ∈ partsListing parts, lexeme.Whole) (happart : textsApart items = true)
    (hsame : ∀ e ∈ itemsElements items, e.staysSame = true) {literals : List Literal}
    (hliterals : itemsLiterals? items = some literals) :
    itemsEssence items = literalsItems literals ∧ literalsFaithful literals := by
  match h with
  | .nil .. =>
    cases hliterals
    exact ⟨rfl, trivial⟩
  | .cons hitem hitems =>
    obtain ⟨hn, hrest⟩ := List.forall_mem_append.mp hwhole
    obtain ⟨happart, hnext⟩ := textsApart_cons happart
    rw [itemsElements] at hsame
    obtain ⟨hsame, hsame'⟩ := List.forall_mem_append.mp hsame
    rw [itemsLiterals?] at hliterals
    split at hliterals
    · rename_i l literals' hl hliterals'
      obtain rfl := Option.some.inj hliterals
      obtain ⟨hessence, hfaithful⟩ := essence_of_makes hoff hitem hcomplete.1 hn hsame hl
      obtain ⟨hessences, hfaithfuls⟩ :=
        essence_of_makesAll hoff hitems hcomplete.2 hrest happart hsame' hliterals'
      have hcons : l.cons literals' = l :: literals' := by
        apply cons_eq_cons
        · rintro content rfl
          exact hfaithful.1
        · rintro content next rest' rfl
          have hfirst := eq_text_of_essence hessence
          exact ne_text_of_essence hessences (fun next more => hnext content next more hfirst) next
            rest'
      rw [hcons, itemsEssence, hessence, hessences]
      exact ⟨rfl, hfaithful, hfaithfuls⟩
    · cases hliterals

end

end

/-! ## Templates -/

/-- What holds of all tokens of a source text holds of all that is listed of its parts. -/
theorem whole_of_tokenize {source : String} {tokens : List Token}
    (h : tokenize source = .ok tokens) :
    ∀ lexeme ∈ partsListing (Nesting.ofTokens tokens), lexeme.Whole := by
  rw [Nesting.listing_ofTokens, joinTexts_of_tokenize h]
  intro lexeme hlexeme
  obtain ⟨t, ht, rfl⟩ := List.mem_map.mp (List.mem_filter.mp hlexeme).1
  exact ⟨readable_of_tokenize h t ht, inert_of_tokenize h t ht⟩

namespace Template

/-- The markup of a template that keeps its blanks is parsed to that template again, up to what
markup does not say, if no texts stand side by side, no value has a double quote in it, and all
attributes are read back as such. -/
theorem essence_of_parse_markup (source : String) (items : List Item)
    (hitems : parse ⟨true, false⟩ source = .ok items) (text : String)
    (hmarkup : (Serializer.itemsMarkup items Memo.empty).result = .ok (some text))
    (happart : textsApart items = true ∧ ∀ e ∈ itemsElements items, textsApart e.content = true)
    (hquotes : ∀ e ∈ itemsElements items, ∀ a ∈ e.attributes,
      (a.value.getD []).any Item.hasQuote = false)
    (hnames : ∀ e ∈ itemsElements items, ∀ a ∈ e.attributes, staysPlain a.name = true) :
    ∃ items', parse ⟨true, false⟩ text = .ok items' ∧ itemsEssence items' = itemsEssence items := by
  rw [Serializer.result_itemsMarkup_parse hitems, itemsMarkup?_eq] at hmarkup
  obtain ⟨literals, hliterals, rfl⟩ := Option.map_eq_some_iff.mp (Except.ok.inj hmarkup)
  have hlegible := legible_of_parse hitems hliterals
  have hsame : ∀ e ∈ itemsElements items, e.staysSame = true := by
    intro e he
    rw [Element.staysSame, happart.2 e he, Bool.true_and]
    refine List.all_eq_true.mpr fun a ha => ?_
    rw [Attribute.staysSame, hnames e he a ha, hquotes e he a ha]
    rfl
  obtain ⟨tokens, built, htokens, hbuilt, hkept⟩ := parse_eq_ok_iff.mp hitems
  obtain rfl : built = items := hkept
  obtain ⟨hessence, hfaithful⟩ := essence_of_makesAll rfl (makesAll_of_buildAll _ hbuilt)
    (Nesting.complete_ofTokens tokens) (whole_of_tokenize htokens) happart.1 hsame hliterals
  obtain ⟨tokens', htokens', hparts⟩ :=
    exists_parts_of_separate hlegible (separate_of_literalsFaithful literals hfaithful)
  obtain ⟨items', hitems', hessence'⟩ :=
    @exists_buildAll_essence ⟨⟨true, false⟩, 0⟩ rfl literals _ 0 hparts hlegible hfaithful
  refine ⟨items', parse_eq_ok_iff.mpr ⟨tokens', items', htokens', hitems', rfl⟩, ?_⟩
  rw [hessence, hessence']

/-- An element that closes another one, a value that ends with a slash, and one that is empty. What
is left of all three is the same when the markup is read. -/
theorem essence_of_parse_siblings_markup :
    let source := "<LI A='b/' c=''>1 < 2<li>"
    let text := "<li a=b/ c>1 < 2</li><li></li>"
    ∃ items items', parse ⟨true, false⟩ source = .ok items ∧ parse ⟨true, false⟩ text = .ok items' ∧
      itemsEssence items' = itemsEssence items := by
  intro source text
  obtain ⟨items, hitems⟩ : ∃ items, parse ⟨true, false⟩ source = .ok items :=
    exists_of_isOk (by decide +kernel)
  have hwritten : (parse ⟨true, false⟩ source).toOption.bind itemsMarkup? = some text := by
    decide +kernel
  have hsame : (parse ⟨true, false⟩ source).toOption.all (fun items =>
      textsApart items && (itemsElements items).all Element.staysSame) = true := by
    decide +kernel
  rw [hitems] at hwritten hsame
  have hmarkup : (Serializer.itemsMarkup items Memo.empty).result = .ok (some text) := by
    rw [Serializer.result_itemsMarkup_parse hitems]
    exact congrArg _ hwritten
  obtain ⟨happart, helements⟩ := Bool.and_eq_true_iff.mp hsame
  have hcontent : ∀ e ∈ itemsElements items, textsApart e.content = true ∧
      ∀ a ∈ e.attributes, staysPlain a.name = true ∧
        (a.value.getD []).any Item.hasQuote = false := by
    intro e he
    obtain ⟨happart, hattributes⟩ := Bool.and_eq_true_iff.mp (List.all_eq_true.mp helements e he)
    refine ⟨happart, fun a ha => ?_⟩
    obtain ⟨hname, hquotes⟩ := Bool.and_eq_true_iff.mp (List.all_eq_true.mp hattributes a ha)
    exact ⟨hname, Bool.not_eq_true' _ ▸ hquotes⟩
  obtain ⟨items', hitems', hessence⟩ := essence_of_parse_markup source items hitems text hmarkup
    ⟨happart, fun e he => (hcontent e he).1⟩ (fun e he a ha => ((hcontent e he).2 a ha).2)
    fun e he a ha => ((hcontent e he).2 a ha).1
  exact ⟨items, items', hitems, hitems', hessence⟩

end Template

end MustacheMarkup
