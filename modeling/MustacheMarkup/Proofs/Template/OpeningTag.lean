import MustacheMarkup.Proofs.Attribute.Sorted
import MustacheMarkup.Proofs.Journal.Congruence
import MustacheMarkup.Proofs.Token.Weight
import MustacheMarkup.Template.Build

/-!
# What an opening tag says

Everything about an element but its content is built from its opening tag, with a function that
builds fragments. The equations here cut that into its parts: the plain attributes that are kept,
and the details made of sorted attributes. The function is only used on values of the tag's
attributes and on parts of them, so it may be replaced by one that does the same on tokens that
weigh less than the tag (`elementKind_congr`).
-/

set_option autoImplicit false

namespace MustacheMarkup

open Journal

/-! ## What a fragment builder is used for -/

/-- Two fragment builders do the same with tokens that weigh less than a bound. -/
def FragmentBuilder.AgreeBelow (bound : Nat) (f g : FragmentBuilder) : Prop :=
  ∀ tokens, Token.totalWeight tokens < bound → f tokens = g tokens

section

variable {bound : Nat} {f g : FragmentBuilder}

/-- Two ways to build fragments that agree on smaller values agree on the value of an attribute. -/
theorem whenSome_fragment_congr (h : f.AgreeBelow bound g) {a : RawAttribute}
    (ha : a.valueWeight < bound) : whenSome f a.value = whenSome g a.value :=
  whenSome_congr fun tokens htokens => by
    rw [Option.mem_def] at htokens
    exact h tokens (by simpa [RawAttribute.valueWeight, htokens] using ha)

/-- They agree on an attribute of the markup. -/
theorem ofHtml_congr (h : f.AgreeBelow bound g) {a : RawAttribute} (ha : a.valueWeight < bound) :
    Attribute.ofHtml f a = Attribute.ofHtml g a := by
  rw [Attribute.ofHtml, Attribute.ofHtml, whenSome_fragment_congr h ha]

/-- They agree on an attribute of a component. -/
theorem ofComponent_congr (h : f.AgreeBelow bound g) {a : RawAttribute}
    (ha : a.valueWeight < bound) : Attribute.ofComponent f a = Attribute.ofComponent g a := by
  rw [Attribute.ofComponent, Attribute.ofComponent, whenSome_fragment_congr h ha]

/-- A directive builds two fragments at most, both of parts of its value. -/
theorem ofRaw_congr (h : f.AgreeBelow bound g) (span : Span) {a : RawAttribute}
    (ha : a.valueWeight < bound) : Directive.ofRaw f span a = Directive.ofRaw g span a := by
  obtain ⟨name, _ | tokens⟩ := a
  · rfl
  · have hparts := totalWeight_splitAtColon_le tokens
    simp only [RawAttribute.valueWeight, Option.map_some, Option.getD_some] at ha
    have hname : f (splitAtColon tokens).1 = g (splitAtColon tokens).1 := h _ (by omega)
    have harguments : f (splitAtColon tokens).2 = g (splitAtColon tokens).2 := h _ (by omega)
    simp only [Directive.ofRaw, DirectiveName.ofTokens, Directive.arguments?, hname, harguments]

end

namespace Building

/-- To drop event attributes never fails and gives no identity. It keeps the others in order. -/
theorem sanitize_apply (tag : String) (attributes : List RawAttribute) (index : Nat) :
    (sanitize tag attributes index).result =
        .ok (attributes.filter fun a => !Vocabulary.isEventHandler a.name) ∧
      (sanitize tag attributes index).state = index := by
  induction attributes with
  | nil => exact ⟨rfl, rfl⟩
  | cons a rest ih =>
    obtain ⟨hresult, hstate⟩ := ih
    rw [sanitize]
    split
    · rename_i hevent
      rw [List.filter_cons_of_neg (by simp [hevent])]
      exact ⟨hresult, hstate⟩
    · rename_i hevent
      rw [List.filter_cons_of_pos (by simp [hevent])]
      rw [bind_apply]
      rcases hs : sanitize tag rest index with ⟨_ | kept, index', log⟩
      · rw [hs] at hresult
        cases hresult
      · rw [hs] at hresult hstate
        cases hresult
        exact ⟨rfl, hstate⟩

/-- The plain attributes that are kept. -/
def kept (options : Options) (tag : String) (plain : List RawAttribute) :
    Numbered (List RawAttribute) :=
  if options.sanitizeEventAttributes then sanitize tag plain else pure plain

/-- The attributes that are kept are those that a plain list would keep, and no element is counted
for that. -/
theorem kept_apply (options : Options) (tag : String) (plain : List RawAttribute) (index : Nat) :
    (kept options tag plain index).result =
        .ok (if options.sanitizeEventAttributes then
          plain.filter fun a => !Vocabulary.isEventHandler a.name else plain) ∧
      (kept options tag plain index).state = index := by
  unfold kept
  split
  · exact sanitize_apply tag plain index
  · exact ⟨rfl, rfl⟩

/-- What is kept of plain attributes was there. -/
theorem mem_of_mem_kept {options : Options} {tag : String} {plain attributes : List RawAttribute}
    {index : Nat} (h : (kept options tag plain index).result = .ok attributes) {a : RawAttribute}
    (ha : a ∈ attributes) : a ∈ plain := by
  rw [(kept_apply _ _ _ _).1] at h
  cases h
  split at ha
  · exact (List.mem_filter.mp ha).1
  · exact ha

/-- What an element has besides its content, from its sorted attributes and those it keeps. -/
def detailsOf (fragment : FragmentBuilder) (tag : String) (span : Span)
    (sorted : SortedAttributes) (plain : List RawAttribute) : Numbered HtmlDetails := do
  let attributes ← each (Attribute.ofHtml fragment) plain
  let proxies ← each (Directive.ofRaw fragment span) sorted.proxies
  let intro ← whenSome (Directive.ofRaw fragment span) sorted.intro
  let outro ← whenSome (Directive.ofRaw fragment span) sorted.outro
  let decorator ← whenSome (decoratorName span) sorted.decorator
  return ⟨tag, attributes, proxies, intro, outro, decorator.join⟩

/-- The name that a tag is written with. -/
def writtenName (lowerName : String) : String :=
  (Vocabulary.svgElement? lowerName).getD lowerName

/-- What the details are made of: the attributes are sorted, some of the plain ones are kept, and
then all are built. Later proofs take these steps apart here. -/
theorem htmlDetails_eq (options : Options) (fragment : FragmentBuilder) (lowerName : String)
    (attributes : List RawAttribute) (span : Span) :
    htmlDetails options fragment lowerName attributes span =
      (ofExcept ((SortedAttributes.ofList attributes).mapError (·.at span)) >>= fun sorted =>
        kept options (writtenName lowerName) sorted.plain >>=
          detailsOf fragment (writtenName lowerName) span sorted) := by
  unfold htmlDetails kept
  split <;> rfl

/-- A list that could be sorted was sorted, whatever place its faults would have had. -/
theorem ofList_eq_of_mapError {attributes : List RawAttribute} {span : Span}
    {sorted : SortedAttributes}
    (h : (SortedAttributes.ofList attributes).mapError (·.at span) = .ok sorted) :
    SortedAttributes.ofList attributes = .ok sorted := by
  cases hr : SortedAttributes.ofList attributes with
  | error fault =>
    rw [hr] at h
    cases h
  | ok sorted' =>
    rw [hr] at h
    cases h
    rfl

/-- What an element has besides its content depends on the fragment builder only through the values
of its attributes. -/
theorem htmlDetails_congr {bound : Nat} {f g : FragmentBuilder} (h : f.AgreeBelow bound g)
    (options : Options) (lowerName : String) {attributes : List RawAttribute} (span : Span)
    (hattributes : ∀ a ∈ attributes, a.valueWeight < bound) :
    htmlDetails options f lowerName attributes span =
      htmlDetails options g lowerName attributes span := by
  rw [htmlDetails_eq, htmlDetails_eq]
  refine ofExcept_bind_congr fun sorted hsorted => funext fun index => ?_
  have hall := SortedAttributes.all_ofList (P := fun a => a.valueWeight < bound)
    (Q := fun a => a.valueWeight < bound) hattributes (fun a ha _ => hattributes a ha)
    (ofList_eq_of_mapError hsorted)
  refine bind_congr_at fun plain hplain => ?_
  unfold detailsOf
  rw [each_congr fun a ha => ofHtml_congr h (hall.plain a (mem_of_mem_kept hplain ha)),
    each_congr fun a ha => ofRaw_congr h span (hall.proxies a ha),
    whenSome_congr fun a ha => ofRaw_congr h span (hall.intro a ha),
    whenSome_congr fun a ha => ofRaw_congr h span (hall.outro a ha)]

/-- Two ways to build fragments that agree on what is smaller than a tag agree on what its element
is. -/
theorem elementKind_congr {bound : Nat} {f g : FragmentBuilder} (h : f.AgreeBelow bound g)
    (options : Options) (lowerName : String) (tag : Tag) (span : Span)
    (htag : Token.weight ⟨.tag tag, span⟩ ≤ bound) :
    elementKind options f lowerName tag span = elementKind options g lowerName tag span := by
  have hvalues : ∀ a ∈ tag.attributes, a.valueWeight < bound := fun a ha =>
    Nat.lt_of_lt_of_le (RawAttribute.valueWeight_lt_of_mem ha) htag
  unfold elementKind
  split
  · rw [each_congr fun a ha => ofComponent_congr h (hvalues a ha)]
  · rw [htmlDetails_congr h options lowerName span hvalues]

end Building

end MustacheMarkup
