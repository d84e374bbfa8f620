import MustacheMarkup.Proofs.Output.Legible
import MustacheMarkup.Proofs.Output.Stable
import MustacheMarkup.Proofs.Template.Identities

/-!
# Markup that is parsed and written again

Markup comes back if it can be parsed and what it is parsed to has that markup again. The markup of
forms that are legible and separate comes back if and only if the forms are stable
(`comesBack_iff`).
-/

set_option autoImplicit false

namespace MustacheMarkup

open Journal Output

/-- A text that can be parsed, to items whose markup is the text again. -/
def ComesBack (options : Options) (text : String) : Prop :=
  ∃ items, Template.parse options text = .ok items ∧
    (Serializer.itemsMarkup items Memo.empty).result = .ok (some text)

/-- A text comes back exactly if its items have it as their markup, whatever serializer
writes it. -/
theorem comesBack_iff_itemsMarkup? {options : Options} {text : String} :
    ComesBack options text ↔ ∃ items, Template.parse options text = .ok items ∧
      itemsMarkup? items = some text := by
  constructor
  · rintro ⟨items, hitems, hmarkup⟩
    rw [Serializer.result_itemsMarkup_parse hitems] at hmarkup
    exact ⟨items, hitems, Except.ok.inj hmarkup⟩
  · rintro ⟨items, hitems, hmarkup⟩
    refine ⟨items, hitems, ?_⟩
    rw [Serializer.result_itemsMarkup_parse hitems, hmarkup]

section

variable {literals : List Literal}

/-- The markup of forms is read as tokens that nest as the forms do, with nothing left over. -/
theorem exists_parts_of_separate (h : literalsLegible literals)
    (hseparate : literalsSeparate literals = true) :
    ∃ tokens, tokenize (literalsMarkup literals) = .ok tokens ∧
      List.Forall₂ Literal.ReadAs literals (Nesting.ofTokens tokens) := by
  obtain ⟨tokens, later, parts, hreads, hlater, hparts, hnest⟩ := reads_literalsMarkup literals
    (Source.ofString (literalsMarkup literals)) [] h hseparate (List.append_nil _).symm rfl
  have htokens : tokenize (literalsMarkup literals) = .ok tokens := by
    unfold tokenize
    rw [hreads, Source.tokens, scanAll_of_rest_eq_nil hlater, Except.map, List.append_nil]
  refine ⟨tokens, htokens, ?_⟩
  have hrun : tokens.foldl Nesting.step Nesting.empty = ⟨parts, []⟩ :=
    hnest Nesting.empty fun l _ => by cases l <;> rfl
  rw [Nesting.ofTokens, Nesting.run, joinTexts_of_tokenize htokens, hrun]
  exact hparts

variable {options : Options} (hoff : options.sanitizeEventAttributes = false)

include hoff

/-- The second markup of forms, if there is one. It is that of the forms as they are read again,
trimmed unless blanks are kept, so it can be compared with the first one. -/
theorem markup_of_parse_markup (h : literalsLegible literals)
    (hseparate : literalsSeparate literals = true) {items : List Item}
    (hitems : Template.parse options (literalsMarkup literals) = .ok items) {text : String}
    (htext : itemsMarkup? items = some text) :
    text = literalsMarkup (trimLiterals options.preserveWhitespace
      (literalsReread options.preserveWhitespace literals)) := by
  obtain ⟨tokens, built, htokens, hbuilt, rfl⟩ := Template.parse_eq_ok_iff.mp hitems
  obtain ⟨tokens', htokens', hparts⟩ := exists_parts_of_separate h hseparate
  rw [htokens] at htokens'
  obtain rfl := Except.ok.inj htokens'
  have hrenders := renders_of_makesAll hoff literals hparts h (makesAll_of_buildAll _ hbuilt)
  exact itemsMarkup?_of_renders (renders_trimBoundary hrenders _) htext

/-- Forms without behaviour have a second markup. -/
theorem exists_parse_markup_of_plain (h : literalsLegible literals)
    (hseparate : literalsSeparate literals = true) (hplain : literalsPlain literals = true) :
    ∃ items, Template.parse options (literalsMarkup literals) = .ok items ∧
      (itemsMarkup? items).isSome = true := by
  obtain ⟨tokens, htokens, hparts⟩ := exists_parts_of_separate h hseparate
  obtain ⟨built, hbuilt, hsome⟩ := @exists_buildAll_of_plain ⟨options, 0⟩ hoff literals _
    options.preserveWhitespace 0 hparts h hplain
  refine ⟨_, Template.parse_eq_ok_iff.mpr ⟨tokens, built, htokens, hbuilt, rfl⟩, ?_⟩
  refine isSome_itemsMarkup?_iff.mpr ?_
  split
  · exact hsome
  · exact forall_mem_trimBoundary (fun _ _ => rfl) hsome

/-- The markup of forms comes back if and only if the forms are stable. -/
theorem comesBack_iff (h : literalsLegible literals)
    (hseparate : literalsSeparate literals = true) :
    ComesBack options (literalsMarkup literals) ↔
      contentStable options.preserveWhitespace literals = true := by
  have hrewrites := rewrites_contentReread options.preserveWhitespace literals h
  rw [comesBack_iff_itemsMarkup?]
  constructor
  · rintro ⟨items, hitems, hmarkup⟩
    rw [← hrewrites.eq_iff, ← markup_of_parse_markup hoff h hseparate hitems hmarkup]
  · intro hstable
    have heq := String.toList_inj.mp (hrewrites.eq_iff.mpr hstable)
    have hplain := plain_of_literalsStable literals (Bool.and_eq_true_iff.mp hstable).1
    obtain ⟨items, hitems, hsome⟩ := exists_parse_markup_of_plain hoff h hseparate hplain
    obtain ⟨text, htext⟩ := Option.isSome_iff_exists.mp hsome
    refine ⟨items, hitems, ?_⟩
    rw [htext, markup_of_parse_markup hoff h hseparate hitems htext, heq]

end

/-! ## Templates -/

namespace Template

/-- The markup of a template, with its blanks or without, comes back if and only if what is written
of the template is stable, provided that nothing is made by writing it side by side. -/
theorem markup_comesBack_iff {keepBlanks : Bool} {source : String} {items : List Item}
    (hitems : parse ⟨keepBlanks, false⟩ source = .ok items) {text : String}
    (hmarkup : (Serializer.itemsMarkup items Memo.empty).result = .ok (some text)) :
    ∃ literals, itemsLiterals? items = some literals ∧ literalsMarkup literals = text ∧
      (literalsSeparate literals = true →
        (ComesBack ⟨keepBlanks, false⟩ text ↔ contentStable keepBlanks literals = true)) := by
  rw [Serializer.result_itemsMarkup_parse hitems, itemsMarkup?_eq] at hmarkup
  obtain ⟨literals, hliterals, rfl⟩ := Option.map_eq_some_iff.mp (Except.ok.inj hmarkup)
  refine ⟨literals, hliterals, rfl, fun hseparate => ?_⟩
  have hlegible := legible_of_parse hitems hliterals
  exact comesBack_iff rfl hlegible hseparate

/-- An attribute in capital letters, which is written in small ones, and blanks that are dropped.
What is written has nothing in it that is read in another way, and nothing that is lost again. -/
theorem collapsed_markup_comesBack :
    let text := "<p title=\"a b\">x y</p>"
    ∃ items literals, parse {} "<P TITLE='a b'> x  y </P>" = .ok items ∧
      itemsLiterals? items = some literals ∧ literalsMarkup literals = text ∧
      literalsSeparate literals = true ∧ contentStable false literals = true ∧
      ComesBack {} text := by
  intro text
  have hfound : ((parse {} "<P TITLE='a b'> x  y </P>").toOption.bind itemsLiterals?).any
      (fun literals => literalsMarkup literals == text && literalsSeparate literals &&
        contentStable false literals) = true := by decide +kernel
  cases hitems : parse {} "<P TITLE='a b'> x  y </P>" with
  | error e =>
    rw [hitems] at hfound
    cases hfound
  | ok items =>
    rw [hitems] at hfound
    obtain ⟨literals, hwritten, hall⟩ := (Option.any_eq_true _ _).mp hfound
    have hliterals : itemsLiterals? items = some literals := hwritten
    rw [Bool.and_eq_true, Bool.and_eq_true, beq_iff_eq] at hall
    obtain ⟨⟨htext, hseparate⟩, hstable⟩ := hall
    have hmarkup : (Serializer.itemsMarkup items Memo.empty).result = .ok (some text) := by
      rw [Serializer.result_itemsMarkup_parse hitems, itemsMarkup?_eq, hliterals, Option.map_some,
        htext]
    obtain ⟨literals', hliterals', -, hiff⟩ := markup_comesBack_iff hitems hmarkup
    obtain rfl : literals = literals' := Option.some.inj (hliterals.symm.trans hliterals')
    exact ⟨items, literals, rfl, hliterals, htext, hseparate, hstable,
      (hiff hseparate).mpr hstable⟩

/-- A template whose markup is parsed to items with another markup. -/
theorem exists_not_comesBack {source text : String} (again : String)
    (hfirst : (parse {} source).toOption.bind itemsMarkup? = some text)
    (hsecond : (parse {} text).toOption.bind itemsMarkup? = some again) (hne : text ≠ again) :
    ∃ items, parse {} source = .ok items ∧
      (Serializer.itemsMarkup items Memo.empty).result = .ok (some text) ∧ ¬ComesBack {} text := by
  cases hitems : parse {} source with
  | error e =>
    rw [hitems] at hfirst
    cases hfirst
  | ok items =>
    rw [hitems] at hfirst
    refine ⟨items, rfl, ?_, fun hback => ?_⟩
    · rw [Serializer.result_itemsMarkup_parse hitems]
      exact congrArg _ hfirst
    · obtain ⟨items', hitems', hmarkup⟩ := comesBack_iff_itemsMarkup?.mp hback
      rw [hitems'] at hsecond
      exact hne (Option.some.inj (hmarkup.symm.trans hsecond))

/-- A value that is nothing but a double quote is written between quotes for it. What is written for
the double quote is read as it stands, and then the value has no need of quotes. -/
theorem quote_markup_not_comesBack :
    let text := "<p a=\"&quot;\"></p>"
    ∃ items, parse {} "<p a='\"'></p>" = .ok items ∧
      (Serializer.itemsMarkup items Memo.empty).result = .ok (some text) ∧ ¬ComesBack {} text :=
  exists_not_comesBack "<p a=&quot;></p>" (by decide +kernel) (by decide +kernel)
    (by decide)

/-- Texts on both sides of a remark are written side by side, and together they are a tag. So the
markup does not come back where the forms are not separate. -/
theorem merged_markup_not_comesBack :
    let text := "a<b>"
    ∃ items, parse {} "a<\x7b\x7b!x\x7d\x7db>" = .ok items ∧
      (Serializer.itemsMarkup items Memo.empty).result = .ok (some text) ∧ ¬ComesBack {} text :=
  exists_not_comesBack "a<b></b>" (by decide +kernel) (by decide +kernel) (by decide)

end Template

end MustacheMarkup
