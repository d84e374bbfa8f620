import MustacheMarkup.Proofs.Nesting.Machine
import MustacheMarkup.Proofs.Token.Reading

/-!
# Runs of text

A run of text is read as far as it goes: it ends where the text ends or where something else starts.
So no two texts stand side by side among the tokens of a source text, nor among those of a value,
and nothing starts inside a text. In a value that still holds if the mustaches between the texts are
left out, since a text before a mustache does not end with a brace.
-/

set_option autoImplicit false

namespace MustacheMarkup

/-- A run of characters ends where it is stopped or where nothing is left, and is not stopped
before. -/
theorem takeUntil_spec (stops : List Char → Bool) (s : List Char) :
    ∃ rest, s = takeUntil stops s ++ rest ∧ (rest = [] ∨ stops rest = true) ∧
      ∀ t, t ≠ [] → t <:+ takeUntil stops s → stops (t ++ rest) = false := by
  induction s with
  | nil => exact ⟨[], rfl, Or.inl rfl, fun t ht hsuffix => absurd (List.suffix_nil.mp hsuffix) ht⟩
  | cons c s ih =>
    obtain ⟨rest, hs, hrest, hstops⟩ := ih
    rw [takeUntil]
    split
    · rename_i hc
      refine ⟨c :: s, rfl, Or.inr hc, fun t ht hsuffix => ?_⟩
      exact absurd (List.suffix_nil.mp hsuffix) ht
    · rename_i hc
      refine ⟨rest, by rw [List.cons_append, ← hs], hrest, fun t ht hsuffix => ?_⟩
      rcases List.suffix_cons_iff.mp hsuffix with rfl | hsuffix
      · rw [List.cons_append, ← hs]
        exact Bool.not_eq_true _ ▸ hc
      · exact hstops t ht hsuffix

/-- What a run of text that was read is, and what follows it. -/
structure IsRun (stops : List Char → Bool) (src : Source) (content : String) (later : Source) :
    Prop where
  rest_eq : src.rest = content.toList ++ later.rest
  ne_empty : content ≠ ""
  /-- nothing starts inside it -/
  inside : ∀ t, t ≠ [] → t <:+ content.toList → stops (t ++ later.rest) = false
  behind : later.rest = [] ∨ stops later.rest = true

/-- A text that is read is a run: it starts with a character that does not stop it and goes on to
the first place that does. -/
theorem isRun_scanText {stops : List Char → Bool} {src later : Source} {content : String}
    (hs : src.rest ≠ []) (hstart : stops src.rest = false)
    (h : scanText stops src = (.text content, later)) : IsRun stops src content later := by
  obtain ⟨c, s, hcs⟩ := List.exists_cons_of_ne_nil hs
  obtain ⟨rest, hs', hrest, hstops⟩ := takeUntil_spec stops s
  unfold scanText at h
  dsimp only at h
  rw [hcs, List.take_succ_cons, List.take_zero, List.drop_succ_cons, List.drop_zero,
    List.singleton_append] at h
  obtain ⟨hcontent, hlater⟩ := Prod.mk.inj h
  obtain rfl := Lexeme.text.inj hcontent
  have hsrc : src.rest = (c :: takeUntil stops s) ++ rest := by
    rw [hcs, List.cons_append, ← hs']
  have hlater' : later.rest = rest := by rw [← hlater, rest_advance_append hsrc]
  rw [← hlater'] at hsrc hrest hstops
  refine ⟨?_, ?_, ?_, hrest⟩
  · rw [String.toList_ofList]
    exact hsrc
  · intro hempty
    have hnil := String.toList_eq_nil_iff.mpr hempty
    rw [String.toList_ofList] at hnil
    cases hnil
  · intro t ht hsuffix
    rw [String.toList_ofList] at hsuffix
    rcases List.suffix_cons_iff.mp hsuffix with rfl | hsuffix
    · rw [← hsrc]
      exact hstart
    · exact hstops t ht hsuffix

/-- A text in a value is a run of text. -/
theorem isRun_of_scanInValue {src later : Source} {content : String} (hs : src.rest ≠ [])
    (h : scanInValue src = .ok (.text content, later)) :
    startsMustache src.rest = false ∧ IsRun startsMustache src content later := by
  obtain ⟨-, h⟩ | ⟨hstart, h⟩ := scanInValue_cases h
  · obtain ⟨kind, reference, hmustache⟩ := exists_of_scanMustache h
    cases hmustache
  · exact ⟨hstart, isRun_scanText hs hstart (Except.ok.inj h)⟩

/-- A text outside tags is a run of text. -/
theorem isRun_of_scanNext {src later : Source} {content : String} (hs : src.rest ≠ [])
    (h : scanNext src = .ok (.text content, later)) :
    endsText src.rest = false ∧ IsRun endsText src content later := by
  obtain ⟨-, h⟩ | ⟨-, h⟩ | ⟨-, h⟩ | ⟨hstart, h⟩ := scanNext_cases h
  · obtain ⟨kind, reference, hmustache⟩ := exists_of_scanMustache h
    cases hmustache
  · obtain ⟨comment, -, hcomment, -⟩ := scanComment_eq_ok_iff.mp h
    cases hcomment
  · obtain ⟨tag, unterminated, named, htag, -⟩ := exists_of_scanTag h
    cases htag
  · exact ⟨hstart, isRun_scanText hs hstart (Except.ok.inj h)⟩

/-! ## Texts side by side -/

section

variable {scan : Source → Except ScanError (Lexeme × Source)}
  {shrinks : ∀ {src lexeme later}, src.rest ≠ [] → scan src = .ok (lexeme, later) →
    later.rest.length < src.rest.length}

/-- Where every text is a run of text, no two of them stand side by side: behind a run something
starts that is no text. -/
theorem joinTexts_of_scanAll {stops : List Char → Bool}
    (hscan : ∀ src content later, src.rest ≠ [] → scan src = .ok (.text content, later) →
      stops src.rest = false ∧ IsRun stops src content later) {src : Source} {tokens : List Token}
    (h : scanAll scan shrinks src = .ok tokens) : Nesting.joinTexts tokens = tokens := by
  refine scanAll_induction (motive := fun _ tokens => Nesting.joinTexts tokens = tokens)
    (fun _ _ => rfl) ?_ h
  intro src lexeme later rest hs hnext hlater ih
  rw [Nesting.joinTexts, ih]
  split
  · rename_i content content' span more htext
    -- Two texts: the first is a run, so the second starts with something else.
    obtain rfl : lexeme = .text content := by
      cases lexeme with
      | text content' =>
        cases htext
        rfl
      | _ => cases htext
    have hbehind := (hscan src content later hs hnext).2.behind
    by_cases hs' : later.rest = []
    · rw [scanAll_of_rest_eq_nil hs'] at hlater
      cases hlater
    · obtain ⟨lexeme', later', rest', hnext', -, hrest'⟩ := exists_of_scanAll hs' hlater
      cases hrest'
      have hstart := (hscan later content' later' hs' hnext').1
      rw [hbehind.resolve_left hs'] at hstart
      cases hstart
  · rfl

end

/-- Neighbouring texts are read as one in the first place, so there are none to put together. -/
theorem joinTexts_of_tokenize {source : String} {tokens : List Token}
    (h : tokenize source = .ok tokens) : Nesting.joinTexts tokens = tokens :=
  joinTexts_of_scanAll (fun _ _ _ => isRun_of_scanNext) h

/-! ## The texts of a template -/

/-- What ends a run of text does so with more behind it. -/
theorem endsText_of_append {s : List Char} (rest : List Char) (h : endsText s = true) :
    endsText (s ++ rest) = true := by
  have hstarts : ∀ mark : List Char, mark.isPrefixOf s = true →
      mark.isPrefixOf (s ++ rest) = true := fun mark hmark =>
    List.isPrefixOf_iff_prefix.mpr
      ((List.isPrefixOf_iff_prefix.mp hmark).trans (List.prefix_append s rest))
  rw [endsText, Bool.or_eq_true, Bool.or_eq_true] at h ⊢
  rcases h with (hmustache | hcomment) | htag
  · exact Or.inl (Or.inl (hstarts _ hmustache))
  · exact Or.inl (Or.inr (hstarts _ hcomment))
  · obtain ⟨mark, c, more, hmark, hc, rfl⟩ := startsTag_iff.mp htag
    refine Or.inr (startsTag_iff.mpr ⟨mark, c, more ++ rest, hmark, hc, ?_⟩)
    rw [List.cons_append, List.append_assoc, List.cons_append]

/-- If nothing ends a run at any place in some characters, they are inert. -/
theorem inert_of_suffixes {s : List Char} (h : ∀ t, t ≠ [] → t <:+ s → endsText t = false) :
    inert s = true := by
  induction s with
  | nil => rfl
  | cons c s ih =>
    have hhead := h (c :: s) (List.cons_ne_nil c s) List.suffix_rfl
    have htail := ih fun t ht hsuffix => h t ht (hsuffix.trans (List.suffix_cons c s))
    rw [inert, hhead, htail]
    rfl

/-- In a run of text nothing starts, whatever follows the run. -/
theorem IsRun.inert {src later : Source} {content : String}
    (h : IsRun endsText src content later) : inert content.toList = true := by
  refine inert_of_suffixes fun t ht hsuffix => ?_
  have hinside := h.inside t ht hsuffix
  rw [Bool.eq_false_iff] at hinside ⊢
  exact fun hends => hinside (endsText_of_append later.rest hends)

/-- The texts of a source text are not empty, and nothing starts in them. -/
theorem inert_of_tokenize {source : String} {tokens : List Token}
    (h : tokenize source = .ok tokens) : ∀ t ∈ tokens, ∀ content, t.lexeme = .text content →
      content ≠ "" ∧ inert content.toList = true :=
  forall_mem_of_scanAll (P := fun lexeme => ∀ content, lexeme = .text content →
      content ≠ "" ∧ inert content.toList = true)
    (fun _ _ _ hs hscan content hcontent => by
      rw [hcontent] at hscan
      obtain ⟨-, hrun⟩ := isRun_of_scanNext hs hscan
      exact ⟨hrun.ne_empty, hrun.inert⟩) h

/-! ## The texts of a value -/

/-- The characters of all literal texts among tokens. -/
def textChars (tokens : List Token) : List Char :=
  tokens.flatMap fun t => (t.text?.getD "").toList

/-- Two stretches without mustaches have none together, if none starts in the first one where the
second one follows. -/
theorem braceless_append {s rest : List Char}
    (hs : ∀ t, t ≠ [] → t <:+ s → startsMustache (t ++ rest) = false)
    (hrest : braceless rest = true) : braceless (s ++ rest) = true := by
  induction s with
  | nil => exact hrest
  | cons c s ih =>
    have hstart := hs (c :: s) (List.cons_ne_nil c s) List.suffix_rfl
    have htail := ih fun t ht hsuffix => hs t ht (hsuffix.trans (List.suffix_cons c s))
    rw [List.cons_append] at hstart ⊢
    rw [braceless, hstart, htail]
    rfl

/-- A brace that ends a text before a mustache would belong to the mustache. -/
theorem startsMustache_of_behind {t rest rest' : List Char} (ht : t ≠ [])
    (h : startsMustache (t ++ rest) = false) (hrest : startsMustache rest = true) :
    startsMustache (t ++ rest') = false := by
  match t, ht with
  | [c], _ =>
    obtain ⟨tail, rfl⟩ := List.isPrefixOf_iff_prefix.mp hrest
    have hc : ('{' == c) = false := by
      simpa [startsMustache, List.isPrefixOf] using h
    simp [startsMustache, List.isPrefixOf, hc]
  | c :: d :: t, _ => simpa [startsMustache, List.isPrefixOf] using h

/-- No mustache starts in the texts of a value, not even where mustaches between them are
left out. -/
theorem braceless_of_scanValue {p : Position} {value : List Char} {tokens : List Token}
    (h : scanValue p value = .ok tokens) : braceless (textChars tokens) = true := by
  refine scanAll_induction (motive := fun _ tokens => braceless (textChars tokens) = true)
    (fun _ _ => rfl) ?_ h
  intro src lexeme later rest hs hnext hlater hrest
  cases lexeme with
  | text content =>
    obtain ⟨-, hrun⟩ := isRun_of_scanInValue hs hnext
    refine braceless_append (fun t ht hsuffix => ?_) hrest
    rcases hrun.behind with hnil | hmustache
    · have hinside := hrun.inside t ht hsuffix
      rw [scanAll_of_rest_eq_nil hnil] at hlater
      cases hlater
      rw [hnil] at hinside
      exact hinside
    · exact startsMustache_of_behind ht (hrun.inside t ht hsuffix) hmustache
  | _ => exact hrest

end MustacheMarkup
