import MustacheMarkup.Proofs.Attribute.Faults
import MustacheMarkup.Proofs.Journal.Fails
import MustacheMarkup.Proofs.Nesting.Listing
import MustacheMarkup.Proofs.Template.Values
import MustacheMarkup.Proofs.Token.Layout

/-!
# A template is refused for its first illegal tag

A tag is illegal if it opens an element of the markup with attributes that are refused. Each opening
tag is built once, in the order of the tokens, and building anything else fails for nothing. So a
template that can be read is refused if and only if one of its tags is illegal, for the fault of the
first such tag and at the place where that starts.
-/

set_option autoImplicit false

namespace MustacheMarkup

open Building Journal

/-! ## What a tag is refused for -/

/-- The fault that an opening tag is refused for. -/
def Tag.fault? (tag : Tag) : Option ParseFault :=
  if isComponent (Text.lower tag.name) then none else attributesFault? tag.attributes

/-- The error that an opening tag is refused with, at the place where it stands. -/
def openingError? (opening : Tag × Span) : Option ParseError :=
  opening.1.fault?.map (·.at opening.2)

/-- Values hold no tags, so to build a fragment never fails. -/
theorem failsWith_fragment {settings : Settings} {tokens : List Token}
    (h : ∀ t ∈ tokens, t.lexeme.inValue = true) :
    FailsWith none (fragmentItems settings tokens) := by
  intro index
  obtain ⟨items, -, hyields⟩ := exists_fragment h
  rw [(hyields settings index).result rfl]
  rfl

/-- The value of an attribute never fails. -/
theorem failsWith_value {settings : Settings} {a : RawAttribute} (h : a.Readable) :
    FailsWith none (whenSome (fragmentItems settings) a.value) := by
  have hvalue : FailsWith (a.value.bind fun _ => none)
      (whenSome (fragmentItems settings) a.value) :=
    failsWith_whenSome fun tokens htokens => failsWith_fragment (h tokens htokens)
  rwa [Option.bind_fun_none] at hvalue

/-- The name of a directive never fails. -/
theorem failsWith_directiveName {settings : Settings} {tokens : List Token}
    (h : ∀ t ∈ tokens, t.lexeme.inValue = true) :
    FailsWith none (DirectiveName.ofTokens (fragmentItems settings) tokens) := by
  unfold DirectiveName.ofTokens
  split
  · exact failsWith_pure _
  · exact (failsWith_fragment h).none_bind fun _ => failsWith_pure _

/-- The arguments of a directive never fail. -/
theorem failsWith_arguments {settings : Settings} {tokens : List Token}
    (h : ∀ t ∈ tokens, t.lexeme.inValue = true) :
    FailsWith none (Directive.arguments? (fragmentItems settings) tokens) := by
  unfold Directive.arguments?
  split
  · exact failsWith_pure _
  · split
    · exact failsWith_pure _
    · exact (failsWith_fragment h).none_bind fun _ => failsWith_pure _

/-- A directive is refused for its own fault, whatever its value is made of. -/
theorem failsWith_directive (settings : Settings) (span : Span) {a : RawAttribute}
    (h : a.Readable) : FailsWith (a.directiveFault?.map (·.at span))
      (Directive.ofRaw (fragmentItems settings) span a) := by
  obtain ⟨name, _ | tokens⟩ := a
  · exact failsWith_fail _
  · obtain ⟨hname, harguments⟩ := inValue_splitAtColon (h tokens rfl)
    unfold Directive.ofRaw RawAttribute.directiveFault?
    by_cases hempty : name = ""
    · subst hempty
      exact failsWith_fail _
    · have hisEmpty : ¬name.isEmpty = true := by simpa using hempty
      simp only [hisEmpty, hempty, reduceCtorEq, or_self, if_false]
      refine (failsWith_directiveName hname).none_bind fun _ => ?_
      exact (failsWith_arguments harguments).none_bind fun _ => failsWith_pure _

/-- A decorator fails if it has no value, at the place of its tag. -/
theorem failsWith_decorator (span : Span) (a : RawAttribute) :
    FailsWith (a.decoratorFault?.map (·.at span)) (decoratorName span a) := by
  unfold decoratorName
  obtain ⟨name, _ | _ | ⟨t, rest⟩⟩ := a
  · exact failsWith_fail _
  · exact failsWith_fail _
  · have hnone : RawAttribute.decoratorFault? ⟨name, some (t :: rest)⟩ = none :=
      RawAttribute.decoratorFault?_eq_none_iff.mpr (by simp)
    rw [hnone]
    dsimp only
    split
    · exact failsWith_pure _
    · exact (failsWith_note _).none_bind fun _ => failsWith_pure _

/-! ## Opening tags -/

/-- Behaviour is refused for the first fault of the sorted attributes: proxies in their order, then
the intro, the outro and the decorator. The fragments of their values cannot fail. -/
theorem failsWith_behaviourOf {settings : Settings} {sorted : SortedAttributes}
    (h : sorted.All RawAttribute.Readable RawAttribute.Readable) (tag : String) (span : Span) :
    FailsWith (sorted.fault?.map (·.at span))
      (behaviourOf (fragmentItems settings) tag span sorted) := by
  have hproxies := failsWith_each fun a ha =>
    failsWith_directive settings span (h.proxies a ha)
  have hintro := failsWith_whenSome fun a ha =>
    failsWith_directive settings span (h.intro a ha)
  have houtro := failsWith_whenSome fun a ha =>
    failsWith_directive settings span (h.outro a ha)
  have hdecorator := failsWith_whenSome (o := sorted.decorator) fun a _ =>
    failsWith_decorator span a
  have hfault : sorted.fault?.map (·.at span) =
      (sorted.proxies.findSome? fun a => a.directiveFault?.map (·.at span)).or
        ((sorted.intro.bind fun a => a.directiveFault?.map (·.at span)).or
          ((sorted.outro.bind fun a => a.directiveFault?.map (·.at span)).or
            (sorted.decorator.bind fun a => a.decoratorFault?.map (·.at span)))) := by
    rw [SortedAttributes.fault?, Option.map_or, Option.map_or, Option.map_or, List.map_findSome?,
      Option.map_bind, Option.map_bind, Option.map_bind]
    rfl
  rw [hfault]
  refine hproxies.bind fun proxies => hintro.bind fun intro => houtro.bind fun outro => ?_
  exact hdecorator.bind_none fun _ => failsWith_pure _

/-- An attribute of a component never fails. -/
theorem RawAttribute.Readable.failsWith_ofComponent {a : RawAttribute} (h : a.Readable)
    (settings : Settings) : FailsWith none (Attribute.ofComponent (fragmentItems settings) a) :=
  (failsWith_value h).none_bind fun _ => failsWith_pure _

/-- An attribute of the markup never fails. -/
theorem RawAttribute.Readable.failsWith_ofHtml {a : RawAttribute} (h : a.Readable)
    (settings : Settings) : FailsWith none (Attribute.ofHtml (fragmentItems settings) a) :=
  (failsWith_value h).none_bind fun _ => failsWith_pure _

/-- The details of an element are refused for the fault of its attributes, whatever plain ones are
kept. -/
theorem failsWith_htmlDetails {settings : Settings} {attributes : List RawAttribute}
    (h : ∀ a ∈ attributes, a.Readable) (lowerName : String) (span : Span) :
    FailsWith ((attributesFault? attributes).map (·.at span))
      (htmlDetails settings.options (fragmentItems settings) lowerName attributes span) := by
  rw [htmlDetails_eq]
  unfold attributesFault?
  cases hsorted : SortedAttributes.ofList attributes with
  | error fault => exact failsWith_fail (fault.at span)
  | ok sorted =>
    have hall : sorted.All RawAttribute.Readable RawAttribute.Readable :=
      SortedAttributes.all_ofList h (fun a ha _ => h a ha) hsorted
    show FailsWith _ (kept settings.options (writtenName lowerName) sorted.plain >>=
      detailsOf (fragmentItems settings) (writtenName lowerName) span sorted)
    have hkept : FailsWith none
        (kept settings.options (writtenName lowerName) sorted.plain) := by
      intro index
      rw [(kept_apply _ _ _ index).1]
      rfl
    refine hkept.bind_of_ok fun index plain hplain => ?_
    have hsub : ∀ a ∈ plain, a.Readable := by
      rw [(kept_apply _ _ _ index).1] at hplain
      cases hplain
      split
      · exact fun a ha => hall.plain a (List.mem_filter.mp ha).1
      · exact hall.plain
    rw [detailsOf_eq]
    have hattributes := failsWith_each_none fun a ha =>
      (hsub a ha).failsWith_ofHtml settings
    refine hattributes.none_bind fun built => ?_
    exact (failsWith_behaviourOf hall _ span).bind_none fun _ => failsWith_pure _

/-- What a tag gives to its element is refused for the fault of the tag. -/
theorem Tag.Readable.failsWith_elementHeader {tag : Tag} (h : tag.Readable) (settings : Settings)
    (span : Span) : FailsWith (openingError? (tag, span)) (elementHeader settings tag span) := by
  have hkind : FailsWith (openingError? (tag, span)) (elementKind settings.options
      (fragmentItems settings) (Text.lower tag.name) tag span) := by
    unfold openingError? fault? elementKind
    split
    · have hattributes := failsWith_each_none fun a ha =>
        (h a ha).failsWith_ofComponent settings
      exact hattributes.none_bind fun _ => failsWith_pure _
    · exact (failsWith_htmlDetails h _ span).map ElementKind.html
  unfold elementHeader
  have hget : FailsWith none (Journal.get : Numbered Nat) := fun _ => rfl
  have hmodify : FailsWith none (Journal.modify (· + 1) : Numbered Unit) := fun _ => rfl
  refine hget.none_bind fun index => hmodify.none_bind fun _ => ?_
  exact hkind.bind_none fun _ => failsWith_pure _

/-! ## Parts -/

section

variable {settings : Settings}

mutual

/-- A part is refused for the first of its opening tags that is. -/
theorem failsWith_build (keepBlanks : Bool) : ∀ n : Nested,
    (∀ opening ∈ n.openings, opening.1.Readable) →
      FailsWith (n.openings.findSome? openingError?) (n.build settings keepBlanks)
  | .text _, _ | .mustache _ _, _ | .inclusion _, _ | .comment _, _ => failsWith_pure _
  | .block reference inverted content, h =>
    (failsWith_buildAll keepBlanks content h).bind_none fun _ => failsWith_pure _
  | .element tag span none, h => by
    have hheader := (h _ List.mem_cons_self).failsWith_elementHeader settings span
    rw [Nested.openings, List.findSome?_singleton]
    exact hheader.bind_none fun _ => failsWith_pure _
  | .element tag span (some content), h => by
    obtain ⟨htag, hinside⟩ := List.forall_mem_cons.mp h
    have hheader := htag.failsWith_elementHeader settings span
    have hcontent := failsWith_buildAll (tag.keepsBlanks keepBlanks) content hinside
    rw [Nested.openings, findSome?_cons_eq_or]
    refine hheader.bind fun _ => hcontent.bind_none fun _ => failsWith_pure _

/-- Parts are refused for the first of their opening tags that is. -/
theorem failsWith_buildAll (keepBlanks : Bool) : ∀ parts : List Nested,
    (∀ opening ∈ partsOpenings parts, opening.1.Readable) →
      FailsWith ((partsOpenings parts).findSome? openingError?) (buildAll settings keepBlanks parts)
  | [], _ => failsWith_pure _
  | n :: rest, h => by
    obtain ⟨hn, hrest⟩ := List.forall_mem_append.mp h
    rw [partsOpenings, List.findSome?_append]
    refine (failsWith_build keepBlanks n hn).bind fun item => ?_
    exact (failsWith_buildAll keepBlanks rest hrest).bind_none fun _ => failsWith_pure _

end

end

/-! ## Tokens -/

/-- A tag is illegal if it opens an element of the markup and its attributes are refused: two of
them name the same transition, or one lacks what it needs. -/
structure Tag.Illegal (tag : Tag) : Prop where
  opening : tag.closing = false
  markup : ¬"rv-".toList <+: (Text.lower tag.name).toList
  refused : Clash tag.attributes ∨ Misdirected tag.attributes

/-- A token is illegal if it is an illegal tag. -/
def Token.Illegal (t : Token) : Prop :=
  ∃ tag, t.lexeme = .tag tag ∧ tag.Illegal

/-- The error that a token is refused with. -/
def Token.error? (t : Token) : Option ParseError :=
  t.opening?.bind openingError?

/-- A name is that of a component exactly if it starts with the mark. -/
theorem isComponent_iff (name : String) :
    isComponent name = true ↔ "rv-".toList <+: name.toList :=
  List.isPrefixOf_iff_prefix

/-- An illegal tag is refused for a fault whose kind tells a clash from the rest. -/
theorem Tag.Illegal.exists_fault {tag : Tag} (h : tag.Illegal) :
    ∃ fault, tag.fault? = some fault ∧ (Clash tag.attributes → fault.kind = .structural) ∧
      (¬Clash tag.attributes → fault.kind = .directive) := by
  have hmarkup : ¬isComponent (Text.lower tag.name) = true := by
    rw [isComponent_iff]
    exact h.markup
  unfold fault?
  rw [if_neg hmarkup]
  obtain ⟨hclash, fault, hfault, hkind⟩ | ⟨hclash, -, fault, hfault, hkind⟩ |
    ⟨hclash, hlacks, -⟩ := attributesFault?_cases tag.attributes
  · exact ⟨fault, hfault, fun _ => hkind, fun hnot => absurd hclash hnot⟩
  · exact ⟨fault, hfault, fun hyes => absurd hyes hclash, fun _ => hkind⟩
  · exact absurd h.refused (not_or.mpr ⟨hclash, hlacks⟩)

/-- An opening tag with a fault is illegal. -/
theorem Tag.illegal_of_fault? {tag : Tag} (hopening : tag.closing = false) {fault : ParseFault}
    (h : tag.fault? = some fault) : tag.Illegal := by
  unfold fault? at h
  split at h
  · cases h
  · rename_i hmarkup
    rw [isComponent_iff] at hmarkup
    refine ⟨hopening, hmarkup, ?_⟩
    obtain ⟨hclash, -⟩ | ⟨-, hlacks, -⟩ | ⟨-, -, hnone⟩ := attributesFault?_cases tag.attributes
    · exact .inl hclash
    · exact .inr hlacks
    · rw [hnone] at h
      cases h

/-- An opening of a token is its tag and where it stands. A closing tag is none. -/
theorem Token.opening?_eq_some_iff {t : Token} {tag : Tag} {span : Span} :
    t.opening? = some (tag, span) ↔ t = ⟨.tag tag, span⟩ ∧ tag.closing = false := by
  obtain ⟨lexeme, span'⟩ := t
  unfold opening?
  cases lexeme with
  | tag tag' =>
    by_cases hclosing : tag'.closing = true
    · simp only [hclosing, if_true, reduceCtorEq, false_iff, not_and]
      rintro h
      cases h
      simp [hclosing]
    · simp only [hclosing, Bool.false_eq_true, if_false, Option.some_inj]
      constructor
      · rintro h
        cases h
        exact ⟨rfl, Bool.eq_false_iff.mpr hclosing⟩
      · rintro ⟨h, -⟩
        cases h
        rfl
  | _ => simp

/-- The error at an illegal tag is its fault, at the place of the tag. -/
theorem Tag.Illegal.error?_eq {tag : Tag} (h : tag.Illegal) (span : Span) :
    Token.error? ⟨.tag tag, span⟩ = tag.fault?.map (·.at span) := by
  rw [Token.error?, Token.opening?_eq_some_iff.mpr ⟨rfl, h.opening⟩]
  rfl

/-- A token is refused if it is illegal. The definition on the right is spelled out in terms of the
tag, the one on the left computes the error. -/
theorem Token.error?_eq_none_iff (t : Token) : t.error? = none ↔ ¬t.Illegal := by
  constructor
  · rintro hnone ⟨tag, htag, hillegal⟩
    obtain ⟨lexeme, span⟩ := t
    obtain rfl : lexeme = .tag tag := htag
    obtain ⟨fault, hfault, -⟩ := hillegal.exists_fault
    rw [hillegal.error?_eq, hfault] at hnone
    cases hnone
  · intro hlegal
    cases herror : t.error? with
    | none => rfl
    | some e =>
      obtain ⟨⟨tag, span⟩, hopening, hfault⟩ := Option.bind_eq_some_iff.mp herror
      obtain ⟨fault, hfault, -⟩ := Option.map_eq_some_iff.mp hfault
      obtain ⟨rfl, hclosing⟩ := Token.opening?_eq_some_iff.mp hopening
      exact absurd ⟨tag, rfl, Tag.illegal_of_fault? hclosing hfault⟩ hlegal

/-- Whether a token is illegal can be computed. -/
instance (t : Token) : Decidable t.Illegal :=
  decidable_of_iff (t.error?.isSome = true) (by
    rw [Option.isSome_iff_ne_none, ne_eq, Token.error?_eq_none_iff, Classical.not_not])

/-! ## Templates -/

namespace Template

/-- The first error among the openings is the first one among the tokens. -/
theorem findSome?_openingError? (tokens : List Token) :
    (tokens.filterMap Token.opening?).findSome? openingError? =
      tokens.findSome? Token.error? := by
  induction tokens with
  | nil => rfl
  | cons t rest ih =>
    rw [List.filterMap_cons, findSome?_cons_eq_or Token.error?, ← ih, Token.error?]
    cases t.opening? with
    | none => rfl
    | some opening => exact findSome?_cons_eq_or openingError? opening _

/-- A template is refused with the error of the first of its tokens that is. -/
theorem error?_ofTokens (settings : Settings) {tokens : List Token}
    (h : ∀ t ∈ tokens, t.lexeme.Readable) :
    error? (ofTokens settings tokens).result = tokens.findSome? Token.error? := by
  have hopenings : ∀ opening ∈ partsOpenings (Nesting.ofTokens tokens), opening.1.Readable := by
    rintro ⟨tag, span⟩ hopening
    rw [Nesting.openings_ofTokens] at hopening
    obtain ⟨t, ht, htag⟩ := List.mem_filterMap.mp hopening
    obtain ⟨rfl, -⟩ := Token.opening?_eq_some_iff.mp htag
    exact h _ ht
  rw [ofTokens_result, error?_map, failsWith_buildAll _ _ hopenings 0, Nesting.openings_ofTokens,
    findSome?_openingError?]

/-- A source text has the error of its first illegal tag, if there is one. -/
theorem error?_ofSource (settings : Settings) {source : String} {tokens : List Token}
    (htokens : tokenize source = .ok tokens) :
    error? (ofSource settings source).result = tokens.findSome? Token.error? := by
  rw [← error?_ofTokens settings (readable_of_tokenize htokens), ofSource, htokens]

/-- The first token that is illegal decides. -/
theorem findSome?_error?_of_first {before after : List Token} {t : Token}
    (hbefore : ∀ t ∈ before, ¬t.Illegal) {e : ParseError} (he : t.error? = some e) :
    (before ++ t :: after).findSome? Token.error? = some e := by
  have hnone : before.findSome? Token.error? = none :=
    List.findSome?_eq_none_iff.mpr fun u hu => (Token.error?_eq_none_iff u).mpr (hbefore u hu)
  rw [List.findSome?_append, hnone, Option.none_or, findSome?_cons_eq_or, he, Option.some_or]

/-- A source text that can be read is refused if one of its tags is illegal, and for
nothing else. -/
theorem refused_iff (settings : Settings) {source : String} {tokens : List Token}
    (htokens : tokenize source = .ok tokens) :
    (∃ e, (ofSource settings source).result = .error e) ↔ ∃ t ∈ tokens, t.Illegal := by
  simp only [← error?_eq_some_iff, error?_ofSource settings htokens]
  constructor
  · rintro ⟨e, he⟩
    obtain ⟨t, ht, hte⟩ := List.exists_of_findSome?_eq_some he
    refine ⟨t, ht, Classical.byContradiction fun hlegal => ?_⟩
    rw [(Token.error?_eq_none_iff t).mpr hlegal] at hte
    cases hte
  · rintro ⟨t, ht, hillegal⟩
    apply Option.ne_none_iff_exists'.mp
    intro hnone
    have hlegal := List.findSome?_eq_none_iff.mp hnone t ht
    exact (Token.error?_eq_none_iff t).mp hlegal hillegal

/-- A tag of a source text starts with a bracket, whose line and column are those of its token. So
an error that is reported at the place of the token points there. -/
theorem bracket_of_mem {source : String} {tokens : List Token}
    (htokens : tokenize source = .ok tokens) {tag : Tag} {span : Span}
    (h : (⟨.tag tag, span⟩ : Token) ∈ tokens) :
    source.toList[span.start]? = some '<' ∧
      span.line = lineBehind (source.toList.take span.start) ∧
      span.column = columnBehind (source.toList.take span.start) := by
  obtain ⟨rest, hrest⟩ := (stands_of_tokenize htokens _ h tag rfl).opening
  have hplaced := (covers_of_tokenize htokens).placed _ h
  unfold Token.PlacedIn at hplaced
  rw [Nat.zero_add] at hplaced
  refine ⟨?_, hplaced⟩
  rw [← List.head?_drop, ← hrest]
  rfl

/-- A source text that can be read is refused if and only if one of its tags is illegal. The error
is that of the first such tag: it is reported where that starts, it is structural if two attributes
of the tag name the same transition and otherwise one of a directive, and it is what the tag alone
is refused with. -/
theorem refused_for_first_illegal (settings : Settings) (source : String) (tokens : List Token)
    (htokens : tokenize source = .ok tokens) :
    ((∃ e, (ofSource settings source).result = .error e) ↔ ∃ t ∈ tokens, t.Illegal) ∧
      ∀ (before : List Token) (tag : Tag) (span : Span) (after : List Token),
        tokens = before ++ ⟨.tag tag, span⟩ :: after → (∀ t ∈ before, ¬t.Illegal) → tag.Illegal →
          ∃ e : ParseError, (ofSource settings source).result = .error e ∧
            source.toList[span.start]? = some '<' ∧
            e.line = lineBehind (source.toList.take span.start) ∧
            e.column = columnBehind (source.toList.take span.start) ∧
            (Clash tag.attributes → e.kind = .structural) ∧
            (¬Clash tag.attributes → e.kind = .directive) ∧
            (ofTokens settings [⟨.tag tag, span⟩]).result = .error e := by
  refine ⟨refused_iff settings htokens, ?_⟩
  rintro before tag span after rfl hbefore hillegal
  have hmem : (⟨.tag tag, span⟩ : Token) ∈ before ++ ⟨.tag tag, span⟩ :: after := by simp
  obtain ⟨fault, hfault, hclash, hdirective⟩ := hillegal.exists_fault
  have htag : Token.error? ⟨.tag tag, span⟩ = some (fault.at span) := by
    rw [hillegal.error?_eq, hfault]
    rfl
  obtain ⟨hbracket, hline, hcolumn⟩ := bracket_of_mem htokens hmem
  refine ⟨fault.at span, ?_, hbracket, hline, hcolumn, hclash, hdirective, ?_⟩
  · rw [← error?_eq_some_iff, error?_ofSource settings htokens,
      findSome?_error?_of_first hbefore htag]
  · have hreadable : ∀ t ∈ [(⟨.tag tag, span⟩ : Token)], t.lexeme.Readable :=
      List.forall_mem_singleton.mpr (readable_of_tokenize htokens _ hmem)
    rw [← error?_eq_some_iff, error?_ofTokens settings hreadable]
    exact findSome?_error?_of_first (List.forall_mem_nil _) htag

/-- A component, a closing tag that closes nothing, a text, a tag that names a transition twice and
passes on an event without a name, a mustache that closes nothing, and a tag with a decorator
without value. -/
def twoIllegalSource : String :=
  "<rv-a intro intro></b>\n <p intro=x intro-outro=y on-=z>\x7b\x7b/s\x7d\x7d<q decorator>"

/-- The tokens of that. -/
def twoIllegal : List Token :=
  [⟨.tag ⟨"rv-a", [⟨"intro", none⟩, ⟨"intro", none⟩], false, false, false⟩, ⟨0, 18, 1, 1⟩⟩,
    ⟨.tag ⟨"b", [], true, false, false⟩, ⟨18, 22, 1, 19⟩⟩, ⟨.text "\n ", ⟨22, 24, 1, 23⟩⟩,
    ⟨.tag ⟨"p", [⟨"intro", some [⟨.text "x", ⟨0, 1, 2, 11⟩⟩]⟩,
      ⟨"intro-outro", some [⟨.text "y", ⟨0, 1, 2, 25⟩⟩]⟩,
      ⟨"on-", some [⟨.text "z", ⟨0, 1, 2, 31⟩⟩]⟩], false, false, false⟩, ⟨24, 55, 2, 2⟩⟩,
    ⟨.mustache .closing "s", ⟨55, 61, 2, 33⟩⟩,
    ⟨.tag ⟨"q", [⟨"decorator", none⟩], false, false, false⟩, ⟨61, 74, 2, 39⟩⟩]

/-- Two illegal tags, with a legal one before them and in a section: the error is that of
the first. -/
theorem twoIllegal_refused_for_first :
    tokenize twoIllegalSource = .ok twoIllegal ∧
      twoIllegal.map (fun t => decide t.Illegal) = [false, false, false, true, false, true] ∧
      ∃ e : ParseError, (ofSource ⟨⟨false, true⟩, 0⟩ twoIllegalSource).result = .error e ∧
        e.line = 2 ∧ e.column = 2 ∧ e.kind = .structural := by
  have htokens : tokenize twoIllegalSource = .ok twoIllegal := by with_unfolding_all rfl
  obtain ⟨-, hfirst⟩ :=
    refused_for_first_illegal ⟨⟨false, true⟩, 0⟩ twoIllegalSource twoIllegal htokens
  obtain ⟨e, he, -, hline, hcolumn, hclash, -, -⟩ := hfirst (twoIllegal.take 3) _ _
    (twoIllegal.drop 4) rfl (by decide +kernel) ⟨rfl, by decide +kernel, .inl (.inl (by decide))⟩
  exact ⟨htokens, by decide +kernel, e, he, hline, hcolumn, hclash (.inl (by decide))⟩

end Template

end MustacheMarkup
