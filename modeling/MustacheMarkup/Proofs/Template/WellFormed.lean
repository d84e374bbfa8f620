import MustacheMarkup.Proofs.Attribute.Name
import MustacheMarkup.Proofs.Template.Built
import MustacheMarkup.Proofs.Template.Faults
import MustacheMarkup.Proofs.Template.FinalNames
import MustacheMarkup.Proofs.Template.Texts
import MustacheMarkup.Proofs.Token.Normal

/-!
# Well-formed trees

What reads a tree relies on more than its types say, and checks none of it: which elements have
content, what may stand in it, which are components, and what directives and names of attributes
look like. `Element.WellFormed` says all of that of one element. It holds of every element of every
template that is built, from any tokens (`Template.wellFormed_of_ofTokens`), since it holds of every
element as it is put together. If the tokens are those of a source text, the fragments in opening
tags are plain besides, and no text is empty.
-/

set_option autoImplicit false

namespace MustacheMarkup

open Building Journal

/-! ## What opening tags say -/

/-- A directive has an occasion. Its arguments, if it has any, are known or depend on values, not
both. -/
structure Directive.WellFormed (d : Directive) : Prop where
  occasion : d.occasion ≠ ""
  arguments : d.arguments = none ∨ d.dynamicArguments = none

/-- What an element of this name, in lower case, may be: a component if the name says so, and an
element of the markup otherwise. The attributes of the latter have their final names. -/
inductive ElementKind.WellFormed (lowerName : String) : ElementKind → Prop where
  | component {name : String} {attributes : List Attribute}
      (hmark : "rv-".toList <+: lowerName.toList) :
      ElementKind.WellFormed lowerName (.component name attributes)
  | html {details : HtmlDetails} (hmark : ¬"rv-".toList <+: lowerName.toList)
      (hnames : ∀ a ∈ details.attributes, htmlAttributeName a.name = a.name)
      (hdirectives : ∀ d ∈ details.proxies ++ details.intro.toList ++ details.outro.toList,
        d.WellFormed) :
      ElementKind.WellFormed lowerName (.html details)

section

variable {fragment : FragmentBuilder}

/-- A directive that is built has an occasion, because one without is refused, and its arguments are
known or dynamic, because they are read in one of two ways. -/
theorem wellFormed_ofRaw (span : Span) (a : RawAttribute) :
    Ensures (Directive.ofRaw fragment span a) Directive.WellFormed := by
  obtain ⟨occasion, _ | tokens⟩ := a
  · exact ensures_fail _ _
  · unfold Directive.ofRaw
    dsimp only
    split
    · exact ensures_fail _ _
    · rename_i hoccasion
      have harguments : Ensures (Directive.arguments? fragment (splitAtColon tokens).2)
          fun arguments => arguments.1 = none ∨ arguments.2 = none := by
        unfold Directive.arguments?
        split
        · exact ensures_pure (.inl rfl)
        · split
          · exact ensures_pure (.inr rfl)
          · exact ensures_bind _ fun _ => ensures_pure (.inl rfl)
      refine ensures_bind _ fun name => harguments.bind fun arguments hone => ensures_pure ?_
      exact ⟨fun hempty => hoccasion (String.isEmpty_iff.mpr hempty), hone⟩

/-- The details that are built have final names and well formed directives. The mark of components
is excluded by the caller. -/
theorem wellFormed_detailsOf {lowerName : String} (hmark : ¬"rv-".toList <+: lowerName.toList)
    (name : String) (span : Span) (sorted : SortedAttributes) (plain : List RawAttribute) :
    Ensures (detailsOf fragment name span sorted plain) fun details =>
      (ElementKind.html details).WellFormed lowerName := by
  have hofHtml : ∀ a : RawAttribute, Ensures (Attribute.ofHtml fragment a) fun built =>
      htmlAttributeName built.name = built.name := by
    intro a index built hbuilt
    rw [ensures_ofHtml a index built hbuilt, htmlAttributeName_htmlAttributeName]
  unfold detailsOf
  refine (ensures_each fun a _ => hofHtml a).bind fun attributes hnames => ?_
  refine (ensures_each fun a _ => wellFormed_ofRaw span a).bind fun proxies hproxies => ?_
  refine (ensures_whenSome fun a _ => wellFormed_ofRaw span a).bind fun intro hintro => ?_
  refine (ensures_whenSome fun a _ => wellFormed_ofRaw span a).bind fun outro houtro => ?_
  refine ensures_bind _ fun decorator => ensures_pure (.html hmark hnames ?_)
  simp only [List.forall_mem_append, Option.mem_toList]
  exact ⟨⟨hproxies, hintro⟩, houtro⟩

/-- What an element is agrees with its name, which decides whether it is a component. -/
theorem wellFormed_elementKind (options : Options) (lowerName : String) (tag : Tag) (span : Span) :
    Ensures (elementKind options fragment lowerName tag span)
      (ElementKind.WellFormed lowerName) := by
  unfold elementKind
  split
  · rename_i hcomponent
    exact ensures_bind _ fun attributes =>
      ensures_pure (.component ((isComponent_iff lowerName).mp hcomponent))
  · rename_i hcomponent
    rw [isComponent_iff] at hcomponent
    rw [htmlDetails_eq]
    refine Ensures.map (P := fun details => (ElementKind.html details).WellFormed lowerName) ?_
      fun details hdetails => hdetails
    exact ensures_bind _ fun sorted => ensures_bind _ fun plain =>
      wellFormed_detailsOf hcomponent _ span sorted plain

end

/-! ## Elements -/

/-- An element that is well formed. It has at most one transition of each direction by its type. -/
structure Element.WellFormed (e : Element) : Prop where
  lowerName : e.lowerName = Text.lower e.rawName
  /-- whether the element is void is what the list of void elements says of its name -/
  isVoid : e.isVoid = true ↔ e.lowerName ∈ Vocabulary.voidElements
  /-- what closes the element is what the vocabulary says of its name -/
  closers : e.closers = Vocabulary.closers? e.lowerName
  kind : e.kind.WellFormed e.lowerName
  children : e.children = none ↔ e.isVoid = true ∨ e.selfClosing = true
  siblings : ∀ child, .element child ∈ e.content → child.lowerName ∉ e.closers.getD []

/-- What holds of an element as it is put together is what readers of the tree rely on. -/
theorem Element.IsBuilt.wellFormed {options : Options} {e : Element} (h : e.IsBuilt options) :
    e.WellFormed := by
  obtain ⟨tag, htag⟩ := h.putTogether
  obtain ⟨fragment, span, index, hkind⟩ := htag.kind
  refine ⟨by rw [htag.lowerName, htag.rawName], ?_, ?_, ?_, ?_, fun child hchild hmem => ?_⟩
  · rw [htag.isVoid, htag.lowerName, Vocabulary.isVoid, List.contains_iff_mem]
  · rw [htag.closers, htag.lowerName]
  · rw [htag.lowerName]
    exact wellFormed_elementKind options _ tag span index e.kind hkind
  · rw [← Option.not_isSome_iff_eq_none, htag.children, Bool.not_eq_true, Bool.not_eq_false',
      Bool.or_eq_true, or_comm]
  · have hcloses := h.staysOpen child hchild
    rw [Vocabulary.isAmong, List.contains_eq_mem, decide_eq_false_iff_not] at hcloses
    exact hcloses hmem

/-! ## Opening tags of source texts -/

/-- What may stand in a value in normal form is no tag and no empty text. -/
theorem Lexeme.NormalInValue.inValue {lexeme : Lexeme} (h : lexeme.NormalInValue) :
    lexeme.inValue = true ∧ lexeme ≠ .text "" := by
  cases h with
  | text hne _ => exact ⟨rfl, fun hempty => hne (Lexeme.text.inj hempty)⟩
  | mustache _ => exact ⟨rfl, by simp⟩

/-- A lexeme in normal form is no empty text. -/
theorem Lexeme.Normal.ne_empty {lexeme : Lexeme} (h : lexeme.Normal) : lexeme ≠ .text "" := by
  cases h with
  | text h => exact fun hempty => h.ne_empty (Lexeme.text.inj hempty)
  | _ => simp

/-- The fragments in an element that is made by a tag in normal form are plain. -/
theorem Element.MadeBy.plainFragments {settings : Settings} {tag : Tag} {e : Element}
    (h : e.MadeBy settings tag) (htag : tag.Normal) :
    ∀ inner ∈ e.fragments, PlainFragment inner := by
  obtain ⟨-, span, index, header, children, hheader, rfl⟩ := h
  obtain ⟨index', hkind⟩ := exists_kind_of_elementHeader hheader
  rw [Element.fragments_eq]
  refine turns_fragmentItems.elementKind settings.options _ ?_ span index' header.2 hkind
  intro a ha tokens htokens t ht
  exact ((htag.attributes a ha).value tokens htokens t ht).inValue

/-! ## Templates -/

/-- A mustache stands somewhere in items: in content or in a section, or in a fragment of an
element. -/
def HasMustache (items : List Item) (kind : MustacheKind) (reference : String) : Prop :=
  Mark.mustache kind reference ∈ itemsMarks items ∨
    ∃ e ∈ itemsElements items, ∃ inner ∈ e.fragments,
      Mark.mustache kind reference ∈ itemsMarks inner

/-- All mustaches in a list that is built stand for values that are inserted, those in fragments
too. -/
theorem Building.Built.inserts_of_hasMustache {settings : Settings} {items : List Item}
    (h : Built settings items) {kind : MustacheKind} {reference : String}
    (hmustache : HasMustache items kind reference) : kind.Inserts := by
  rcases hmustache with hmem | ⟨e, he, inner, hinner, hmem⟩
  · exact inserts_itemsMarks_iff.mpr h.inserts kind reference hmem
  · exact inserts_itemsMarks_iff.mpr ((h.isBuilt e he).inserts inner hinner) kind reference hmem

/-- Every element of a template is well formed, wherever it stands and whatever the tokens are, and
every mustache is escaped or not but never of another kind. If the tokens are those of a source
text, the fragments in the template have no elements, and no text is empty, neither in content nor
in a fragment. -/
theorem Template.wellFormed_of_ofTokens (settings : Settings) (tokens : List Token)
    (items : List Item) (h : (ofTokens settings tokens).result = .ok items) :
    (∀ e ∈ itemsElements items, e.WellFormed) ∧
      (∀ kind reference, HasMustache items kind reference →
        kind = .interpolation ∨ kind = .unescaped) ∧
      ∀ source, tokenize source = .ok tokens →
        Mark.text "" ∉ itemsMarks items ∧
          ∀ e ∈ itemsElements items, ∀ inner ∈ e.fragments,
            itemsElements inner = [] ∧ Mark.text "" ∉ itemsMarks inner := by
  have hbuilt := built_of_ofTokens h
  refine ⟨fun e he => (hbuilt.isBuilt e he).wellFormed,
    fun kind reference => hbuilt.inserts_of_hasMustache, fun source hsource => ?_⟩
  have hnormal : ∀ t ∈ tokens, t.lexeme.Normal :=
    forall_mem_of_scanAll (fun _ _ _ => normal_of_scanNext) hsource
  refine ⟨filled_of_ofTokens (fun t ht => (hnormal t ht).ne_empty) h, fun e he => ?_⟩
  have hmade := madeBy_of_ofTokens (readable_of_tokenize hsource) h
  obtain ⟨tag, htag, hby⟩ := exists_mem_of_forall₂ hmade he
  cases forall_mem_openingTags hnormal tag htag with
  | tag htagNormal => exact hby.plainFragments htagNormal

/-- Elements that are closed by siblings, by the ends of others or not at all, values that depend on
others, names in odd case, and texts that trimming drops. -/
def Template.unruly : String :=
  "<UL Class='a\x7b\x7bb\x7d\x7d'> <li>x <LI on-tap='\x7b\x7by\x7d\x7d:\x7b\x7b>z\x7d\x7d'>" ++
    "\x7b\x7b#s\x7d\x7d <rv-box A=':'/> \x7b\x7b/s\x7d\x7d<p intro='go:[1]'>" ++
    "<svg VIEWBOX='0 0'><br></ul> \x7b\x7b\x7bt\x7d\x7d\x7d"

/-- The theorem at a template in which all of this could go wrong: seven elements, in content, in a
section and beside fragments. -/
theorem Template.wellFormed_unruly :
    ∃ tokens items, tokenize unruly = .ok tokens ∧
      (ofTokens ⟨⟨false, true⟩, 0⟩ tokens).result = .ok items ∧
      (itemsElements items).length = 7 ∧ (∀ e ∈ itemsElements items, e.WellFormed) ∧
      (∀ kind reference, HasMustache items kind reference →
        kind = .interpolation ∨ kind = .unescaped) ∧
      Mark.text "" ∉ itemsMarks items ∧
      ∀ e ∈ itemsElements items, ∀ inner ∈ e.fragments,
        itemsElements inner = [] ∧ Mark.text "" ∉ itemsMarks inner := by
  have hcount : ((parse ⟨false, true⟩ unruly).toOption.any
      fun items => (itemsElements items).length == 7) = true := by
    decide +kernel
  cases hparse : parse ⟨false, true⟩ unruly with
  | error e =>
    rw [hparse] at hcount
    cases hcount
  | ok items =>
    rw [hparse] at hcount
    obtain ⟨tokens, htokens, hitems⟩ := exists_ofTokens_of_parse hparse
    obtain ⟨hwellFormed, hinserts, hplain⟩ :=
      wellFormed_of_ofTokens ⟨⟨false, true⟩, 0⟩ tokens items hitems
    exact ⟨tokens, items, htokens, hitems, beq_iff_eq.mp hcount, hwellFormed, hinserts,
      hplain _ htokens⟩

end MustacheMarkup
