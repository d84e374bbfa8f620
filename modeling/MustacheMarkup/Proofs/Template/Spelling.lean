import MustacheMarkup.Compile
import MustacheMarkup.Proofs.Attribute.Spelling
import MustacheMarkup.Proofs.Nesting.Alike
import MustacheMarkup.Proofs.Template.Values

/-!
# Templates with names that are spelled differently

Tokens that differ only in how attributes are named, and there only by names that are
interchangeable and the same in the tree, make one tree (`Template.ofTokens_alike`).
-/

set_option autoImplicit false

namespace MustacheMarkup

open Building Journal

/-! ## Tags -/

/-- Two tags are the same but for the names of attributes. In the tag of a component these are the
same too, and in others each stands for the same as before and becomes the same. -/
structure Tag.Alike (options : Options) (tag tag' : Tag) : Prop where
  outside : tag.SameOutside tag'
  attributes : List.Forall₂ (RawAttribute.Alike options) tag.attributes tag'.attributes
  component : isComponent (Text.lower tag.name) = true → tag'.attributes = tag.attributes

variable {options : Options}

/-- Attributes that are alike are both kept or both dropped. -/
theorem RawAttribute.Alike.keeps_eq {a a' : RawAttribute} (h : a.Alike options a') :
    options.keeps a' = options.keeps a := by
  unfold Options.keeps
  cases hoption : options.sanitizeEventAttributes with
  | false => rfl
  | true => rw [h.names.sanitizing hoption]

/-! ## Building -/

/-- Attributes that are alike are built to the same attributes, one by one. -/
theorem each_ofHtml_eq (fragment : FragmentBuilder) {plain plain' : List RawAttribute}
    (h : List.Forall₂ (RawAttribute.Alike options) plain plain') :
    each (Attribute.ofHtml fragment) plain' = each (Attribute.ofHtml fragment) plain := by
  induction h with
  | nil => rfl
  | cons ha _ ih =>
    rw [each, each, ih, Attribute.ofHtml, Attribute.ofHtml, ha.value, ha.final]

/-- Details of attributes that are alike are the same, or are refused alike. The roles are the same,
so they are sorted in the same way. -/
theorem pairs_htmlDetails (fragment : FragmentBuilder) (lowerName : String) (span : Span)
    {attributes attributes' : List RawAttribute}
    (h : List.Forall₂ (RawAttribute.Alike options) attributes attributes') :
    Pairs (· = ·) (htmlDetails options fragment lowerName attributes span)
      (htmlDetails options fragment lowerName attributes' span) := by
  rw [htmlDetails_eq, htmlDetails_eq]
  refine Pairs.bind (R := SortedAttributes.Alike options) ?_ fun sorted sorted' hsorted => ?_
  · exact pairs_ofExcept ((SortedAttributes.sameEnd_ofList h).mapError (·.at span))
  refine (pairs_kept _ (fun _ _ ha => ha.keeps_eq) hsorted.plain).bind fun plain plain' hplain => ?_
  unfold detailsOf
  rw [each_ofHtml_eq fragment hplain, hsorted.proxies, hsorted.intro, hsorted.outro,
    hsorted.decorator]
  exact pairs_refl _

/-- Tags that are alike make elements of the same kind. -/
theorem Tag.Alike.pairs_elementKind {tag tag' : Tag} (h : tag.Alike options tag')
    (fragment : FragmentBuilder) (span : Span) :
    Pairs (· = ·) (elementKind options fragment (Text.lower tag.name) tag span)
      (elementKind options fragment (Text.lower tag.name) tag' span) := by
  unfold elementKind
  split
  · rename_i hcomponent
    rw [h.component hcomponent, h.outside.name]
    exact pairs_refl _
  · exact (pairs_htmlDetails fragment _ span h.attributes).map fun details details' hdetails =>
      congrArg ElementKind.html hdetails

/-- Tags that differ behind their names only make the same elements, given what their attributes
say. -/
theorem Tag.SameOutside.element_eq {tag tag' : Tag} (h : tag.SameOutside tag')
    (header : NodeId × ElementKind) (children : Option (List Item)) :
    tag'.element header children = tag.element header children := by
  rw [Tag.element, Tag.element, h.name, h.doctype, h.selfClosing]

section

variable {settings : Settings}

/-- Tags that are alike say the same, or fail alike. -/
theorem Tag.Alike.pairs_elementHeader {tag tag' : Tag} (h : tag.Alike settings.options tag')
    (span : Span) :
    Pairs (· = ·) (elementHeader settings tag span) (elementHeader settings tag' span) := by
  unfold elementHeader
  rw [h.outside.name]
  refine (pairs_refl _).bind fun index index' hindex => ?_
  refine (pairs_refl _).bind fun _ _ _ => ?_
  refine (h.pairs_elementKind _ span).bind fun kind kind' hkinds => ?_
  exact pairs_pure (by rw [hindex, hkinds])

end

/-- All of an item is seen. -/
theorem composes_id : Composes (Tag.Alike options) id (id : Item → Item) := by
  refine ⟨fun reference inverted items items' hitems => ?_,
    fun tag tag' header header' children children' htag hheader hchildren => ?_,
    fun items items' hitems => ?_⟩
  · rw [List.map_id, List.map_id] at hitems
    rw [hitems]
  · rw [List.map_id_fun, Option.map_id, id, id] at hchildren
    obtain rfl : header = header' := hheader
    rw [hchildren, htag.outside.element_eq]
  · rw [List.map_id, List.map_id] at hitems
    rw [hitems]

/-! ## Templates -/

/-- Tokens with tags that are alike make one tree, or none because of one error. -/
theorem Template.result_ofTokens_alike {settings : Settings} {tokens tokens' : List Token}
    (h : List.Forall₂ (Token.Related (Tag.Alike settings.options)) tokens tokens') :
    (ofTokens settings tokens).result = (ofTokens settings tokens').result := by
  have hnested := Nesting.related_ofTokens (fun _ _ htag => htag.outside.nestsLike) h
  obtain ⟨hend, -⟩ := pairs_buildAll_of_related composes_id (fun _ _ htag => htag.outside.nestsLike)
    (fun _ _ span htag => htag.pairs_elementHeader span)
    settings.options.preserveWhitespace _ _ hnested 0
  simp only [List.map_id] at hend
  rw [ofTokens_result, ofTokens_result, hend.eq]

end MustacheMarkup
