import MustacheMarkup.Proofs.Attribute.Related
import MustacheMarkup.Proofs.Nesting.Alike
import MustacheMarkup.Proofs.Output.Canonical
import MustacheMarkup.Proofs.Template.Identities
import MustacheMarkup.Proofs.Template.Values
import MustacheMarkup.Proofs.Token.Recased

/-!
# Templates with tags in capital or small letters

Two token lists that are the same but for how tags are written, at the top or in the values of
attributes, make trees that are the same but for that. Builders of fragments do so with lighter
tokens first (`FragmentBuilder.PairsBelow`), and from there tags, nested parts and whole token lists
follow.
-/

set_option autoImplicit false

namespace MustacheMarkup

open Building Journal

/-- Two fragment builders make trees with one canonical form of tokens that are the same but for how
tags are written, if these weigh less than a bound. -/
def FragmentBuilder.PairsBelow (bound : Nat) (f g : FragmentBuilder) : Prop :=
  ∀ tokens tokens', Token.RecasedBelow bound tokens tokens' →
    PairsUpTo itemsCanonical (f tokens) (g tokens')

/-! ## Opening tags -/

namespace RawAttribute.RecasedBelow

variable {bound : Nat} {a a' : RawAttribute}

/-- Such attributes have one name, so they have one role. -/
theorem related (ha : a.RecasedBelow bound a') :
    a.Related (RawAttribute.RecasedBelow bound) (RawAttribute.RecasedBelow bound) a' :=
  ⟨congrArg Role.ofName ha.name, fun _ => ha, fun _ _ => ⟨rfl, ha.value⟩, fun _ => ha⟩

/-- Such attributes name one decorator. The first token of the value is the same text in both or a
text in neither, and then there is only a report. -/
theorem pairs_decoratorName (ha : a.RecasedBelow bound a') (span : Span) :
    Pairs (· = ·) (decoratorName span a) (decoratorName span a') := by
  obtain ⟨name, value⟩ := a
  obtain ⟨name', value'⟩ := a'
  obtain ⟨rfl, hvalue⟩ := ha
  cases hvalue with
  | none => exact pairs_refl _
  | some htokens =>
    obtain ⟨hrecased, -⟩ := htokens
    cases hrecased with
    | nil => exact pairs_refl _
    | cons ht hrest =>
      unfold decoratorName
      dsimp only
      rw [ht.text?_eq]
      exact pairs_refl _

end RawAttribute.RecasedBelow

namespace FragmentBuilder.PairsBelow

variable {bound : Nat} {f g : FragmentBuilder} (h : f.PairsBelow bound g)

include h

/-- Values that differ in the case of tags are built to fragments with one canonical form. Their
tags weigh less than the bound, which is what the induction goes by. -/
theorem pairs_value {a a' : RawAttribute} (ha : a.RecasedBelow bound a') :
    PairsUpTo fragmentCanonical (whenSome f a.value) (whenSome g a'.value) := by
  refine (pairsUpTo_whenSome h ha.value).imp fun value value' hvalue => ?_
  rw [fragmentCanonical_eq, fragmentCanonical_eq, hvalue]

/-- The same for attributes of the markup. -/
theorem pairs_ofHtml {a a' : RawAttribute} (ha : a.RecasedBelow bound a') :
    PairsUpTo Attribute.canonical (Attribute.ofHtml f a) (Attribute.ofHtml g a') := by
  refine (h.pairs_value ha).bind fun value value' hvalue => pairs_pure ?_
  rw [Attribute.canonical, Attribute.canonical, ha.name, hvalue]

/-- The same for attributes of components. -/
theorem pairs_ofComponent {a a' : RawAttribute} (ha : a.RecasedBelow bound a') :
    PairsUpTo Attribute.canonical (Attribute.ofComponent f a) (Attribute.ofComponent g a') := by
  refine (h.pairs_value ha).bind fun value value' hvalue => pairs_pure ?_
  rw [Attribute.canonical, Attribute.canonical, ha.name, hvalue]

/-- The same for the name of a directive: either it is one text on both sides or a fragment
on both. -/
theorem pairs_directiveName {tokens tokens' : List Token}
    (ht : Token.RecasedBelow bound tokens tokens') :
    PairsUpTo DirectiveName.canonical (DirectiveName.ofTokens f tokens)
      (DirectiveName.ofTokens g tokens') := by
  unfold DirectiveName.ofTokens
  rw [onlyText?_eq_of_recased ht.recased]
  split
  · exact pairs_pure rfl
  · refine (h _ _ ht).bind fun items items' hitems => pairs_pure ?_
    exact congrArg DirectiveName.dynamic hitems

/-- The same for the arguments of a directive. -/
theorem pairs_arguments {tokens tokens' : List Token}
    (ht : Token.RecasedBelow bound tokens tokens') :
    PairsUpTo (Prod.map id fragmentCanonical) (Directive.arguments? f tokens)
      (Directive.arguments? g tokens') := by
  unfold Directive.arguments?
  rw [onlyText?_eq_of_recased ht.recased, isEmpty_eq_of_recased ht.recased]
  split
  · exact pairs_pure rfl
  · split
    · exact pairs_pure rfl
    · refine (h _ _ ht).bind fun items items' hitems => pairs_pure ?_
      exact congrArg (fun items => (none, some items)) hitems

/-- The same for directives, whose tokens are cut at the same place: colons are in texts, and those
are equal. -/
theorem pairs_ofRaw (span : Span) {a a' : RawAttribute} (ha : a.RecasedBelow bound a') :
    PairsUpTo Directive.canonical (Directive.ofRaw f span a) (Directive.ofRaw g span a') := by
  obtain ⟨name, value⟩ := a
  obtain ⟨name', value'⟩ := a'
  obtain ⟨rfl, hvalue⟩ := ha
  cases hvalue with
  | none => exact pairs_fail _ _
  | some htokens =>
    unfold Directive.ofRaw
    dsimp only
    split
    · exact pairs_fail _ _
    · obtain ⟨hname, harguments⟩ := htokens.splitAtColon
      refine (h.pairs_directiveName hname).bind fun built built' hbuilt => ?_
      refine (h.pairs_arguments harguments).bind fun (known, dynamic) (known', dynamic') hsame => ?_
      rw [Prod.map_apply, Prod.map_apply, Prod.mk.injEq, id, id] at hsame
      obtain ⟨rfl, hdynamic⟩ := hsame
      refine pairs_pure ?_
      rw [Directive.canonical_eq, Directive.canonical_eq]
      dsimp only
      rw [hbuilt, hdynamic]

/-- The same for all details, which are made of related attributes: each of the five parts is built
from related ones, and the parts are put together in the same order. -/
theorem pairs_detailsOf (tag : String) (span : Span) {sorted sorted' : SortedAttributes}
    {plain plain' : List RawAttribute}
    (hsorted : sorted.Related (RawAttribute.RecasedBelow bound) (RawAttribute.RecasedBelow bound)
      sorted')
    (hplain : List.Forall₂ (RawAttribute.RecasedBelow bound) plain plain') :
    PairsUpTo (fun details => (ElementKind.html details).canonical)
      (detailsOf f tag span sorted plain) (detailsOf g tag span sorted' plain') := by
  have hdirective : ∀ a a' : RawAttribute, a.RecasedBelow bound a' →
      PairsUpTo Directive.canonical (Directive.ofRaw f span a) (Directive.ofRaw g span a') :=
    fun a a' ha => h.pairs_ofRaw span ha
  have hname : ∀ a a' : RawAttribute, a.RecasedBelow bound a' →
      PairsUpTo id (decoratorName span a) (decoratorName span a') :=
    fun a a' ha => ha.pairs_decoratorName span
  unfold detailsOf
  refine (pairsUpTo_each (fun a a' ha => h.pairs_ofHtml ha) hplain).bind
    fun attributes attributes' hattributes => ?_
  refine (pairsUpTo_each hdirective hsorted.proxies).bind fun proxies proxies' hproxies => ?_
  refine (pairsUpTo_whenSome hdirective hsorted.intro).bind fun intro intro' hintro => ?_
  refine (pairsUpTo_whenSome hdirective hsorted.outro).bind fun outro outro' houtro => ?_
  refine (pairsUpTo_whenSome hname hsorted.decorator).bind fun decorator decorator' hdecorator => ?_
  rw [Option.map_id, id, id] at hdecorator
  refine pairs_pure ?_
  simp only [ElementKind.canonical, attributesCanonical_eq, directivesCanonical_eq,
    transitionCanonical_eq, hattributes, hproxies, hintro, houtro, hdecorator]

/-- The same with the attributes sorted first. The roles are decided by names, and these do not
change. -/
theorem pairs_htmlDetails (options : Options) (lowerName : String) (span : Span)
    {attributes attributes' : List RawAttribute}
    (ha : List.Forall₂ (RawAttribute.RecasedBelow bound) attributes attributes') :
    PairsUpTo (fun details => (ElementKind.html details).canonical)
      (htmlDetails options f lowerName attributes span)
      (htmlDetails options g lowerName attributes' span) := by
  rw [htmlDetails_eq, htmlDetails_eq]
  have hsorted := SortedAttributes.sameEnd_ofList_of_related (ha.imp fun a a' ha => ha.related)
  refine (pairs_ofExcept (hsorted.mapError (·.at span))).bind fun sorted sorted' hsorted => ?_
  refine (pairs_kept _ (fun a a' ha => ?_) hsorted.plain).bind fun plain plain' hplain => ?_
  · rw [Options.keeps, Options.keeps, ha.name]
  · exact h.pairs_detailsOf _ span hsorted hplain

/-- What elements are does not depend on how the names of their tags are written. -/
theorem pairs_elementKind (options : Options) {tag tag' : Tag}
    (htag : tag.RecasedBelow bound tag') (span : Span) :
    PairsUpTo ElementKind.canonical (elementKind options f (Text.lower tag.name) tag span)
      (elementKind options g (Text.lower tag'.name) tag' span) := by
  unfold elementKind
  rw [htag.recased.nestsLike.lower]
  split
  · rename_i hcomponent
    rw [htag.recased.name_of_component hcomponent]
    refine (pairsUpTo_each (fun a a' ha => h.pairs_ofComponent ha) htag.attributes).bind
      fun attributes attributes' hattributes => pairs_pure ?_
    simp only [ElementKind.canonical, attributesCanonical_eq, hattributes]
  · exact (h.pairs_htmlDetails options _ span htag.attributes).map fun _ _ hdetails => hdetails

end FragmentBuilder.PairsBelow

/-! ## Nested parts -/

/-- An element is the same in its canonical form if its tag, what it says and its content are. -/
theorem Tag.Recased.canonical_element {tag tag' : Tag} (htag : tag.Recased tag')
    {header header' : NodeId × ElementKind} {children children' : Option (List Item)}
    (hheader : (header.1.index, header.2.canonical) = (header'.1.index, header'.2.canonical))
    (hchildren : fragmentCanonical children = fragmentCanonical children') :
    (tag.element header children).canonical = (tag'.element header' children').canonical := by
  obtain ⟨hindex, hkind⟩ := Prod.mk.inj hheader
  rw [Tag.element, Tag.element, Element.canonical, Element.canonical, htag.nestsLike.lower,
    htag.nestsLike.selfClosing, htag.doctype, hindex, hkind, hchildren]

section

variable {bound : Nat} {settings settings' : Settings}

/-- Elements are counted alike, and are alike but for the number of the run. -/
theorem pairs_elementHeader (hoptions : settings'.options = settings.options)
    (h : (fragmentItems settings).PairsBelow bound (fragmentItems settings')) {tag tag' : Tag}
    (htag : tag.RecasedBelow bound tag') (span : Span) :
    PairsUpTo (fun header => (header.1.index, header.2.canonical))
      (elementHeader settings tag span) (elementHeader settings' tag' span) := by
  unfold elementHeader
  rw [hoptions]
  refine (pairs_refl _).bind fun index index' hindex => ?_
  refine (pairs_refl _).bind fun _ _ _ => ?_
  refine (h.pairs_elementKind settings.options htag span).bind fun kind kind' hkind => ?_
  exact pairs_pure (Prod.ext hindex hkind)

/-- The canonical form of an item shows no more of its tag than the name in lower case. -/
theorem composes_canonical : Composes (Tag.RecasedBelow bound)
    (fun header => (header.1.index, header.2.canonical)) Item.canonical := by
  refine ⟨fun reference inverted items items' hitems => ?_,
    fun tag tag' header header' children children' htag hheader hchildren => ?_,
    fun items items' hitems => ?_⟩
  · rw [Item.canonical, Item.canonical, itemsCanonical_eq, itemsCanonical_eq, hitems]
  · refine congrArg Item.element (htag.recased.canonical_element hheader ?_)
    rw [fragmentCanonical_eq, fragmentCanonical_eq, itemsCanonical_eq_map, hchildren]
  · rw [← itemsCanonical_eq, ← itemsCanonical_eq] at hitems ⊢
    rw [itemsCanonical_trimBoundary, itemsCanonical_trimBoundary, hitems]

/-- Parts with tags in another case are built alike, if fragments below the bound are. The tags in
the tokens weigh no more than these. -/
theorem pairs_buildAll_recased (hoptions : settings'.options = settings.options)
    (h : (fragmentItems settings).PairsBelow bound (fragmentItems settings')) (keepBlanks : Bool)
    {tokens tokens' : List Token} (ht : List.Forall₂ Token.Recased tokens tokens')
    (hweight : Token.totalWeight tokens ≤ bound) :
    PairsUpTo itemsCanonical (buildAll settings keepBlanks (Nesting.ofTokens tokens))
      (buildAll settings' keepBlanks (Nesting.ofTokens tokens')) := by
  have hnests : ∀ tag tag' : Tag, tag.RecasedBelow bound tag' → tag.NestsLike tag' :=
    fun _ _ htag => htag.recased.nestsLike
  have hnested := Nesting.related_ofTokens hnests (related_of_recased ht hweight)
  rw [itemsCanonical_eq_map]
  exact pairs_buildAll_of_related composes_canonical hnests
    (fun _ _ span htag => pairs_elementHeader hoptions h htag span) keepBlanks _ _ hnested

end

/-! ## Fragments and templates -/

/-- Fragments are alike if their nested parts are built alike. On both sides the parts are those of
the machine, and blanks are kept in fragments. -/
theorem pairs_fragmentItems {settings settings' : Settings} {tokens tokens' : List Token}
    {R : List Item → List Item → Prop}
    (h : Pairs R (buildAll settings true (Nesting.ofTokens tokens))
      (buildAll settings' true (Nesting.ofTokens tokens'))) :
    Pairs R (fragmentItems settings tokens) (fragmentItems settings' tokens') := by
  intro index
  obtain ⟨hend, hstate⟩ := h index
  obtain ⟨hresult, hindex, -⟩ := like_items settings true tokens index
  obtain ⟨hresult', hindex', -⟩ := like_items settings' true tokens' index
  dsimp only at hresult hindex hresult' hindex'
  rw [← hindex, ← hindex'] at hstate
  unfold fragmentItems fragment
  dsimp only
  revert hend
  rw [← hresult, ← hresult']
  generalize (items settings .whole true ⟨tokens, index⟩).result = r
  generalize (items settings' .whole true ⟨tokens', index⟩).result = r'
  rintro (e | hitems)
  · exact ⟨.error e, rfl⟩
  · exact ⟨.ok hitems, hstate⟩

/-- Fragments of tokens that are the same but for how tags are written have one canonical form. -/
theorem pairsBelow_fragmentItems {settings settings' : Settings}
    (hoptions : settings'.options = settings.options) (bound : Nat) :
    (fragmentItems settings).PairsBelow bound (fragmentItems settings') := by
  induction bound with
  | zero => exact fun tokens tokens' h => absurd h.weight (Nat.not_lt_zero _)
  | succ bound ih =>
    -- The values in the tags of a fragment weigh less than the fragment.
    intro tokens tokens' h
    have hweight := Nat.le_of_lt_succ h.weight
    exact pairs_fragmentItems (pairs_buildAll_recased hoptions ih true h.recased hweight)

namespace Template

/-- How tags are written does not show in the canonical form of a template. -/
theorem canonical_ofTokens {settings settings' : Settings}
    (hoptions : settings'.options = settings.options) {tokens tokens' : List Token}
    (h : List.Forall₂ Token.Recased tokens tokens') :
    (ofTokens settings tokens).result.map itemsCanonical =
      (ofTokens settings' tokens').result.map itemsCanonical := by
  have hfragments := pairsBelow_fragmentItems hoptions (Token.totalWeight tokens)
  obtain ⟨hend, -⟩ := pairs_buildAll_recased hoptions hfragments
    settings.options.preserveWhitespace h (Nat.le_refl _) 0
  rw [ofTokens_result, ofTokens_result, hoptions]
  revert hend
  generalize (buildAll settings _ _ 0).result = r
  generalize (buildAll settings' _ _ 0).result = r'
  rintro (e | hitems)
  · rfl
  · refine congrArg Except.ok ?_
    split
    · exact hitems
    · rw [itemsCanonical_trimBoundary, itemsCanonical_trimBoundary, hitems]

/-- What is written of two templates with one canonical form is the same, with any memory that is
sound. A memory cannot show the difference, as it holds only what would be written. -/
theorem written_eq_of_canonical {settings settings' : Settings} {tokens tokens' : List Token}
    {items items' : List Item} (hitems : (ofTokens settings tokens).result = .ok items)
    (hitems' : (ofTokens settings' tokens').result = .ok items')
    (h : itemsCanonical items = itemsCanonical items') {memo memo' : Memo}
    (hmemo : memo.Sound {e | e ∈ itemsElements items})
    (hmemo' : memo'.Sound {e | e ∈ itemsElements items'}) :
    (Serializer.itemsMarkup items memo).result = (Serializer.itemsMarkup items' memo').result ∧
      ∀ inline, (Serializer.itemsForm inline items memo).result =
        (Serializer.itemsForm inline items' memo').result := by
  have hids := nodup_ids_of_ofTokens hitems
  have hids' := nodup_ids_of_ofTokens hitems'
  refine ⟨?_, fun inline => ?_⟩
  · rw [Serializer.result_itemsMarkup_of_sound hids hmemo,
      Serializer.result_itemsMarkup_of_sound hids' hmemo', ← itemsMarkup?_canonical items, h,
      itemsMarkup?_canonical]
  · rw [Serializer.result_itemsForm_of_sound hids hmemo,
      Serializer.result_itemsForm_of_sound hids' hmemo',
      ← itemsStructured_canonical inline items, h, itemsStructured_canonical]

/-- How tags are written, at the top or in values, does not matter under any options. Building fails
for one reason, or the trees are the same but for the names as they were written and the numbers of
the runs. Then they are compiled to the same, and a serializer that remembers nothing wrong of their
elements gives the same markup and the same structured form for both. -/
theorem case_of_tags_forgotten (options : Options) (run run' : Nat) (tokens tokens' : List Token)
    (h : List.Forall₂ Token.Recased tokens tokens') :
    (ofTokens ⟨options, run⟩ tokens).result.map itemsCanonical =
        (ofTokens ⟨options, run'⟩ tokens').result.map itemsCanonical ∧
      ∀ items items', (ofTokens ⟨options, run⟩ tokens).result = .ok items →
        (ofTokens ⟨options, run'⟩ tokens').result = .ok items' →
        (Serializer.compile items).result = (Serializer.compile items').result ∧
        ∀ memo memo' : Memo, memo.Sound {e | e ∈ itemsElements items} →
          memo'.Sound {e | e ∈ itemsElements items'} →
          (Serializer.itemsMarkup items memo).result =
              (Serializer.itemsMarkup items' memo').result ∧
            ∀ inline, (Serializer.itemsForm inline items memo).result =
              (Serializer.itemsForm inline items' memo').result := by
  have hcanonical := @canonical_ofTokens ⟨options, run⟩ ⟨options, run'⟩ rfl tokens tokens' h
  refine ⟨hcanonical, fun items items' hitems hitems' => ?_⟩
  rw [hitems, hitems'] at hcanonical
  have hsame : itemsCanonical items = itemsCanonical items' := Except.ok.inj hcanonical
  refine ⟨?_, fun memo memo' hmemo hmemo' =>
    written_eq_of_canonical hitems hitems' hsame hmemo hmemo'⟩
  obtain ⟨-, hforms⟩ := written_eq_of_canonical hitems hitems' hsame (Memo.sound_empty _)
    (Memo.sound_empty _)
  rw [Serializer.result_compile, Serializer.result_compile, hforms]

/-- A tag at no particular place. -/
def bareTag (name : String) (attributes : List RawAttribute) (closing : Bool) : Token :=
  ⟨.tag ⟨name, attributes, closing, false, false⟩, default⟩

/-- Tags without more to them are in another case if their names are and their attributes are. -/
theorem recased_bareTag {name name' : String} {attributes attributes' : List RawAttribute}
    (closing : Bool) (hlower : Text.lower name' = Text.lower name)
    (hcomponent : isComponent (Text.lower name) = false)
    (h : List.Forall₂ RawAttribute.Recased attributes attributes') :
    Token.Recased (bareTag name attributes closing) (bareTag name' attributes' closing) := by
  refine .tag (.intro _ _ _ hlower (fun hyes => ?_) h) _
  rw [hcomponent] at hyes
  cases hyes

/-- A list of two members, of which the second closes the first, with a picture in its title. -/
def shortList (list first second picture last : String) : List Token :=
  [bareTag list [⟨"title", some [⟨.text "a", default⟩, bareTag picture [] false]⟩] false,
    bareTag first [] false, ⟨.text "x", default⟩, bareTag second [] false, ⟨.text "y", default⟩,
    bareTag last [] true]

/-- A short list with its tags in two spellings, in two runs: everything that is written of it is
the same. -/
theorem case_forgotten_of_shortList :
    ∃ items items', (ofTokens ⟨{}, 0⟩ (shortList "UL" "Li" "li" "SVG" "Ul")).result = .ok items ∧
      (ofTokens ⟨{}, 1⟩ (shortList "ul" "li" "LI" "svg" "uL")).result = .ok items' ∧
      itemsCanonical items = itemsCanonical items' ∧
      (Serializer.compile items).result = (Serializer.compile items').result ∧
      (Serializer.itemsMarkup items Memo.empty).result =
        (Serializer.itemsMarkup items' Memo.empty).result := by
  have hvalue : Option.Rel (List.Forall₂ Token.Recased)
      (some [⟨.text "a", default⟩, bareTag "SVG" [] false])
      (some [⟨.text "a", default⟩, bareTag "svg" [] false]) :=
    .some (.cons (.text _ _) (.cons
      (recased_bareTag false (by decide +kernel) (by decide +kernel) .nil) .nil))
  have hrecased : List.Forall₂ Token.Recased (shortList "UL" "Li" "li" "SVG" "Ul")
      (shortList "ul" "li" "LI" "svg" "uL") := by
    refine .cons (recased_bareTag _ ?_ ?_ (.cons (.intro _ hvalue) .nil))
      (.cons (recased_bareTag _ ?_ ?_ .nil) (.cons (.text _ _)
        (.cons (recased_bareTag _ ?_ ?_ .nil) (.cons (.text _ _)
          (.cons (recased_bareTag _ ?_ ?_ .nil) .nil)))))
    all_goals decide +kernel
  obtain ⟨hcanonical, hwritten⟩ := case_of_tags_forgotten {} 0 1 _ _ hrecased
  obtain ⟨items, hitems⟩ : ∃ items,
      (ofTokens ⟨{}, 0⟩ (shortList "UL" "Li" "li" "SVG" "Ul")).result = .ok items :=
    exists_of_isOk (by decide +kernel)
  obtain ⟨items', hitems'⟩ : ∃ items,
      (ofTokens ⟨{}, 1⟩ (shortList "ul" "li" "LI" "svg" "uL")).result = .ok items :=
    exists_of_isOk (by decide +kernel)
  rw [hitems, hitems'] at hcanonical
  obtain ⟨hcompiled, hanswers⟩ := hwritten items items' hitems hitems'
  obtain ⟨hmarkup, -⟩ := hanswers _ _ (Memo.sound_empty _) (Memo.sound_empty _)
  exact ⟨items, items', hitems, hitems', Except.ok.inj hcanonical, hcompiled, hmarkup⟩

end Template

end MustacheMarkup
