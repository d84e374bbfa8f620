import MustacheMarkup.Proofs.Token.Values

/-!
# Reading what stands at the start

Each piece of a template is read as itself if it stands at the start of what is left, whatever
follows it, as long as that does not go on with the piece. The statements are about the characters
that are left only, so the place where a piece stands does not matter.
-/

set_option autoImplicit false

namespace MustacheMarkup

/-! ## Runs of characters -/

/-- A run of characters is taken whole if nothing in it stops and something stops behind it, or
nothing is left. -/
theorem takeUntil_append {stops : List Char → Bool} {s rest : List Char}
    (hs : ∀ t, t ≠ [] → t <:+ s → stops (t ++ rest) = false)
    (hrest : rest = [] ∨ stops rest = true) : takeUntil stops (s ++ rest) = s := by
  induction s with
  | nil =>
    cases rest with
    | nil => rfl
    | cons c rest =>
      obtain h | h := hrest
      · cases h
      · rw [List.nil_append, takeUntil, if_pos h]
  | cons c s ih =>
    have hc : stops (c :: (s ++ rest)) = false :=
      hs (c :: s) (List.cons_ne_nil c s) List.suffix_rfl
    have htail := ih fun t ht htail => hs t ht (htail.trans (List.suffix_cons c s))
    rw [List.cons_append, takeUntil, hc, if_neg Bool.false_ne_true, htail]

/-- A run of text is read up to where it ends. -/
theorem scanText_append {stops : List Char → Bool} {src : Source} {s rest : List Char}
    (hsrc : src.rest = s ++ rest) (hne : s ≠ [])
    (hs : ∀ t, t ≠ [] → t <:+ s → stops (t ++ rest) = false)
    (hrest : rest = [] ∨ stops rest = true) :
    scanText stops src = (.text (String.ofList s), src.advance s.length) := by
  obtain ⟨c, s, rfl⟩ := List.exists_cons_of_ne_nil hne
  have htail : takeUntil stops (s ++ rest) = s :=
    takeUntil_append (fun t ht htail => hs t ht (htail.trans (List.suffix_cons c s))) hrest
  unfold scanText
  dsimp only
  rw [hsrc, List.cons_append, List.take_succ_cons, List.drop_succ_cons, List.take_zero,
    List.drop_zero, htail, List.singleton_append]

/-! ## Blanks -/

/-- There is nothing to skip before a character that is no blank. -/
theorem skipBlanks_of_rest {src : Source} {c : Char} {rest : List Char}
    (h : src.rest = c :: rest) (hc : Text.isBlank c = false) : src.skipBlanks = src := by
  unfold Source.skipBlanks
  rw [h, List.takeWhile_cons_of_neg (by simp [hc])]
  rfl

/-- There is nothing to skip where nothing is left. -/
theorem skipBlanks_of_rest_eq_nil {src : Source} (h : src.rest = []) : src.skipBlanks = src := by
  unfold Source.skipBlanks
  rw [h]
  rfl

/-- To skip blanks twice is to skip them once. -/
theorem skipBlanks_skipBlanks (src : Source) : src.skipBlanks.skipBlanks = src.skipBlanks := by
  cases hrest : src.skipBlanks.rest with
  | nil => exact skipBlanks_of_rest_eq_nil hrest
  | cons c rest =>
    exact skipBlanks_of_rest hrest (isBlank_of_rest_skipBlanks hrest)

/-! ## Mustaches in values -/

/-- Nowhere in the characters does a mustache start. -/
def braceless : List Char → Bool
  | [] => true
  | c :: rest => !startsMustache (c :: rest) && braceless rest

/-- What starts no mustache starts none with more behind it, unless that is another brace. -/
theorem startsMustache_append {s rest : List Char} (hs : startsMustache s = false) (hne : s ≠ [])
    (hrest : rest.head? ≠ some '{') : startsMustache (s ++ rest) = false := by
  obtain ⟨c, s, rfl⟩ := List.exists_cons_of_ne_nil hne
  cases s with
  | nil =>
    cases rest with
    | nil => exact hs
    | cons d rest =>
      have hd : ('{' == d) = false := by
        rw [beq_eq_false_iff_ne]
        rintro rfl
        exact hrest rfl
      simp [startsMustache, List.isPrefixOf, hd]
  | cons d s =>
    simpa [startsMustache, List.isPrefixOf] using hs

/-- Where no mustache starts anywhere, none starts at any later place. -/
theorem startsMustache_of_suffix {s t : List Char} (hs : braceless s = true) (ht : t <:+ s) :
    startsMustache t = false := by
  induction s with
  | nil =>
    obtain rfl := List.suffix_nil.mp ht
    rfl
  | cons c s ih =>
    rw [braceless, Bool.and_eq_true, Bool.not_eq_true'] at hs
    rcases List.suffix_cons_iff.mp ht with rfl | ht
    · exact hs.1
    · exact ih hs.2 ht

/-- A value in which no mustache starts is one text, unless it is empty. The text goes from its
first character to its last. -/
theorem scanValue_braceless {p : Position} {value : List Char} (hne : value ≠ [])
    (h : braceless value = true) :
    ∃ span, scanValue p value = .ok [⟨.text (String.ofList value), span⟩] := by
  have hscan : ∀ src : Source, src.rest = value →
      scanInValue src = .ok (.text (String.ofList value), src.advance value.length) := by
    intro src hsrc
    have hstart : startsMustache src.rest = false := by
      rw [hsrc]
      exact startsMustache_of_suffix h List.suffix_rfl
    rw [scanInValue_eq_scanText hstart, @scanText_append startsMustache src value []
      (by rw [hsrc, List.append_nil]) hne ?_ (Or.inl rfl)]
    intro t _ ht
    rw [List.append_nil]
    exact startsMustache_of_suffix h ht
  unfold scanValue
  have hlater : ((⟨⟨0, p.line, p.column⟩, value⟩ : Source).advance value.length).rest = [] :=
    rest_advance_append (List.append_nil value).symm
  rw [scanAll_of_scan hne (hscan _ rfl), scanAll_of_rest_eq_nil hlater]
  exact ⟨_, rfl⟩

/-- What stands between two quotes is read as a value, if none of them stands in it. Then reading
goes on behind the second quote. -/
theorem scanQuoted_of_rest {src : Source} {quote : Char} {value more : List Char}
    {tokens : List Token} (hsrc : src.rest = quote :: (value ++ quote :: more))
    (hquote : quote ∉ value) (h : scanValue (src.advance 1).position value = .ok tokens) :
    ∃ later, scanQuoted quote src = .ok (tokens, later) ∧ later.rest = more := by
  have hinner : (src.advance 1).rest = value ++ quote :: more := by
    rw [Source.rest_advance, hsrc]
    rfl
  have htake : (src.advance 1).rest.takeWhile (· != quote) = value := by
    rw [hinner, List.takeWhile_append_of_pos, List.takeWhile_cons_of_neg (by simp),
      List.append_nil]
    rintro c hc
    exact bne_iff_ne.mpr fun heq => hquote (heq ▸ hc)
  refine ⟨(src.advance 1).advance (value.length + 1), ?_, ?_⟩
  · refine scanQuoted_eq_ok_iff.mpr ⟨?_, ?_, ?_⟩
    · rw [htake, hinner, List.length_append, List.length_cons]
      omega
    · rw [htake]
      exact h
    · rw [htake]
  · rw [Source.rest_advance, hinner, ← List.drop_drop, List.drop_left]
    rfl

/-- What stands before the end of a value without quotes is read as a value. -/
theorem scanUnquoted_of_rest {src : Source} {value more : List Char} {tokens : List Token}
    (hsrc : src.rest = value ++ more) (hlength : unquotedLength src.rest = .ok value.length)
    (h : scanValue src.position value = .ok tokens) :
    scanUnquoted src = .ok (tokens, src.advance value.length) := by
  refine scanUnquoted_eq_ok_iff.mpr ⟨value.length, hlength, ?_, rfl⟩
  rw [hsrc, List.take_left]
  exact h

/-- What ends a value without quotes. -/
def endsValue : List Char → Bool
  | [] => true
  | c :: _ => Text.isBlank c || c == '>'

/-- What ends a value is no brace. -/
theorem head?_ne_brace_of_endsValue {rest : List Char} (h : endsValue rest = true) :
    rest.head? ≠ some '{' := by
  cases rest with
  | nil => simp
  | cons c rest =>
    rintro hc
    obtain rfl : c = '{' := by simpa using hc
    revert h
    simp only [endsValue]
    decide

/-- A value without quotes is as long as it was written, if no mustache starts in it and no
character ends it. -/
theorem unquotedLength_append {value rest : List Char}
    (hvalue : ∀ c ∈ value, Text.isBlank c = false ∧ c ≠ '>') (h : braceless value = true)
    (hrest : endsValue rest = true) : unquotedLength (value ++ rest) = .ok value.length := by
  induction value with
  | nil =>
    cases rest with
    | nil =>
      rw [List.nil_append, unquotedLength]
      rfl
    | cons c rest =>
      rw [endsValue] at hrest
      rw [List.nil_append, unquotedLength, if_pos hrest]
      rfl
  | cons c value ih =>
    obtain ⟨⟨hblank, hne⟩, hvalue⟩ := List.forall_mem_cons.mp hvalue
    have hends : ¬(Text.isBlank c || c == '>') = true := by simp [hblank, hne]
    have hstart : startsMustache (c :: value ++ rest) = false :=
      startsMustache_append (startsMustache_of_suffix h List.suffix_rfl) (List.cons_ne_nil c value)
        (head?_ne_brace_of_endsValue hrest)
    rw [braceless, Bool.and_eq_true] at h
    rw [List.cons_append] at hstart
    rw [List.cons_append, unquotedLength, if_neg hends, hstart, if_neg Bool.false_ne_true,
      ih hvalue h.2]
    rfl

/-! ## Delimiters -/

/-- What has something before a delimiter is at least as long as the delimiter. -/
theorem length_le_of_before? {delimiter s content : List Char}
    (h : before? delimiter s = some content) : delimiter.length ≤ s.length := by
  induction s generalizing content with
  | nil => cases h
  | cons c s ih =>
    rw [before?] at h
    split at h
    · rename_i hstart
      exact (List.isPrefixOf_iff_prefix.mp hstart).length_le
    · obtain ⟨content', hcontent', -⟩ := Option.map_eq_some_iff.mp h
      have hle := ih hcontent'
      rw [List.length_cons]
      omega

/-- The first occurrence of a delimiter does not depend on what stands behind it. The converse does
not hold: more characters may bring a first one. -/
theorem before?_append {delimiter s content : List Char} (h : before? delimiter s = some content)
    (rest : List Char) : before? delimiter (s ++ rest) = some content := by
  induction s generalizing content with
  | nil => cases h
  | cons c s ih =>
    rw [before?] at h
    rw [List.cons_append, before?]
    split at h
    · rename_i hstart
      have hprefix : delimiter <+: c :: (s ++ rest) :=
        (List.isPrefixOf_iff_prefix.mp hstart).trans (List.prefix_append (c :: s) rest)
      rw [if_pos (List.isPrefixOf_iff_prefix.mpr hprefix), h]
    · rename_i hstart
      obtain ⟨content', hcontent', hcontent⟩ := Option.map_eq_some_iff.mp h
      have hlength : delimiter.length ≤ (c :: s).length :=
        Nat.le_trans (length_le_of_before? hcontent') (Nat.le_succ s.length)
      have hnot : ¬delimiter.isPrefixOf (c :: (s ++ rest)) = true := by
        intro hprefix
        refine hstart (List.isPrefixOf_iff_prefix.mpr ?_)
        exact List.prefix_of_prefix_length_le (List.isPrefixOf_iff_prefix.mp hprefix)
          (List.prefix_append (c :: s) rest) hlength
      rw [if_neg hnot, ih hcontent', Option.map_some, hcontent]

/-- What stands before a delimiter stands first, and the delimiter behind it. -/
theorem prefix_of_before? {delimiter s content : List Char}
    (h : before? delimiter s = some content) : content ++ delimiter <+: s := by
  induction s generalizing content with
  | nil => cases h
  | cons c s ih =>
    rw [before?] at h
    split at h
    · rename_i hstart
      cases h
      exact List.isPrefixOf_iff_prefix.mp hstart
    · obtain ⟨content', hcontent', rfl⟩ := Option.map_eq_some_iff.mp h
      exact List.cons_prefix_cons.mpr ⟨rfl, ih hcontent'⟩

/-- What stands before the first occurrence of a delimiter does not hold it, or there would have
been an earlier one. -/
theorem not_infix_of_before? {delimiter s content : List Char} (hne : delimiter ≠ [])
    (h : before? delimiter s = some content) : ¬delimiter <:+: content := by
  induction s generalizing content with
  | nil => cases h
  | cons c s ih =>
    have hprefix := prefix_of_before? h
    rw [before?] at h
    split at h
    · cases h
      exact fun hinfix => hne (List.infix_nil.mp hinfix)
    · rename_i hstart
      obtain ⟨content', hcontent', rfl⟩ := Option.map_eq_some_iff.mp h
      intro hinfix
      rcases List.infix_cons_iff.mp hinfix with hhere | hlater
      · have hcontent : c :: content' <+: c :: s := (List.prefix_append _ delimiter).trans hprefix
        exact hstart (List.isPrefixOf_iff_prefix.mpr (hhere.trans hcontent))
      · exact ih hcontent' hlater

/-- A delimiter that is not found does not occur. -/
theorem not_infix_of_before?_eq_none {delimiter s : List Char} (hne : delimiter ≠ [])
    (h : before? delimiter s = none) : ¬delimiter <:+: s := by
  induction s with
  | nil => exact fun hinfix => hne (List.infix_nil.mp hinfix)
  | cons c s ih =>
    rw [before?] at h
    split at h
    · cases h
    · rename_i hstart
      intro hinfix
      rcases List.infix_cons_iff.mp hinfix with hhere | hlater
      · exact hstart (List.isPrefixOf_iff_prefix.mpr hhere)
      · exact ih (Option.map_eq_none_iff.mp h) hlater

/-- What was found before a delimiter is found again if only the delimiter follows it. -/
theorem before?_self {delimiter s content : List Char} (h : before? delimiter s = some content)
    (hne : delimiter ≠ []) : before? delimiter (content ++ delimiter) = some content := by
  induction s generalizing content with
  | nil => cases h
  | cons c s ih =>
    have hprefix := prefix_of_before? h
    rw [before?] at h
    split at h
    · cases h
      obtain ⟨d, delimiter, rfl⟩ := List.exists_cons_of_ne_nil hne
      rw [List.nil_append, before?, if_pos (List.isPrefixOf_iff_prefix.mpr List.prefix_rfl)]
    · rename_i hstart
      obtain ⟨content', hcontent', rfl⟩ := Option.map_eq_some_iff.mp h
      have hnot : ¬delimiter.isPrefixOf (c :: (content' ++ delimiter)) = true := fun hdelimiter =>
        hstart (List.isPrefixOf_iff_prefix.mpr
          ((List.isPrefixOf_iff_prefix.mp hdelimiter).trans hprefix))
      rw [List.cons_append, before?, if_neg hnot, ih hcontent', Option.map_some]

/-! ## Comments and text -/

/-- Whether a comment with this content ends with its content. -/
def closesComment (content : String) : Prop :=
  before? ['-', '-', '>'] (content.toList ++ ['-', '-', '>']) = some content.toList

/-- A comment that ends with its content is read as it was written, whatever follows. The condition
leaves out contents that would end the comment earlier. -/
theorem scanNext_comment {src : Source} {content : String} {rest : List Char}
    (hsrc : src.rest = ("<!--" ++ content ++ "-->").toList ++ rest)
    (hcontent : closesComment content) :
    ∃ later, scanNext src = .ok (.comment content, later) ∧ later.rest = rest := by
  have hopen : "<!--".toList = ['<', '!', '-', '-'] := by decide
  have hclose : "-->".toList = ['-', '-', '>'] := by decide
  rw [String.toList_append, String.toList_append, hopen, hclose] at hsrc
  have hdrop : src.rest.drop 4 = content.toList ++ ['-', '-', '>'] ++ rest := by
    rw [hsrc]
    simp
  have hbefore := before?_append hcontent rest
  have hcomment : startsComment src.rest = true := by
    rw [hsrc]
    rfl
  refine ⟨src.advance (content.toList.length + 7), ?_, ?_⟩
  · rw [scanNext_eq_scanComment hcomment]
    refine scanComment_eq_ok_iff.mpr ⟨content.toList, ?_, ?_, rfl⟩
    · rw [hdrop, hbefore]
    · rw [String.ofList_toList]
  · have hadd : content.toList.length + 7 = 4 + (content.toList.length + 3) := by omega
    rw [Source.rest_advance, hadd, ← List.drop_drop, hdrop]
    simp

/-- Nowhere in the characters does something start that ends a run of text. -/
def inert : List Char → Bool
  | [] => true
  | c :: rest => !endsText (c :: rest) && inert rest

/-- In inert characters nothing starts that would end a run of text. -/
theorem endsText_of_suffix {s t : List Char} (hs : inert s = true) (ht : t <:+ s)
    (hne : t ≠ []) : endsText t = false := by
  induction s with
  | nil => exact absurd (List.suffix_nil.mp ht) hne
  | cons c s ih =>
    rw [inert, Bool.and_eq_true, Bool.not_eq_true'] at hs
    rcases List.suffix_cons_iff.mp ht with rfl | ht
    · exact hs.1
    · exact ih hs.2 ht

/-- What starts no tag starts none with more behind it, unless that is a letter, a slash or an
exclamation mark. -/
theorem startsTag_append {s rest : List Char} (hs : startsTag s = false) (hne : s ≠ [])
    (hrest : ∀ c ∈ rest.head?, c.isAlpha = false ∧ c ≠ '/' ∧ c ≠ '!') :
    startsTag (s ++ rest) = false := by
  rw [Bool.eq_false_iff] at hs ⊢
  intro h
  refine hs ?_
  rw [startsTag_iff] at h ⊢
  obtain ⟨mark, c, tail, hmark, hc, heq⟩ := h
  have hhead : ∀ d ∈ mark ++ [c], rest.head? ≠ some d := by
    intro d hd hrest'
    obtain ⟨halpha, hslash, hbang⟩ := hrest d hrest'
    simp only [List.mem_cons, List.not_mem_nil, or_false] at hmark
    obtain rfl | rfl | rfl := hmark <;> simp at hd <;> grind
  obtain ⟨a, s, rfl⟩ := List.exists_cons_of_ne_nil hne
  rw [List.cons_append, List.cons.injEq] at heq
  obtain ⟨rfl, htail⟩ := heq
  refine ⟨mark, c, ?_⟩
  -- The letter is among the first characters, since what follows them starts with none of these.
  rcases List.append_eq_append_iff.mp htail with ⟨t, hmark', hrest'⟩ | ⟨t, hs, hc'⟩
  · cases t with
    | nil =>
      exact absurd (by rw [hrest']; rfl) (hhead c (by simp))
    | cons d t =>
      exact absurd (by rw [hrest']; rfl) (hhead d (by simp [hmark']))
  · cases t with
    | nil =>
      exact absurd (by rw [List.nil_append] at hc'; rw [← hc']; rfl) (hhead c (by simp))
    | cons d t =>
      obtain ⟨rfl, -⟩ := List.cons.inj hc'
      exact ⟨t, hmark, hc, by rw [hs]⟩

/-- What starts no comment starts none with more behind it, unless that could go on with one. All
but the first character of a comment's mark are excluded there. -/
theorem startsComment_append {s rest : List Char} (hs : startsComment s = false) (hne : s ≠ [])
    (hrest : rest.head? ≠ some '!' ∧ rest.head? ≠ some '-') :
    startsComment (s ++ rest) = false := by
  cases rest with
  | nil =>
    rw [List.append_nil]
    exact hs
  | cons r rest =>
    have hmark : ('!' == r) = false := by
      rw [beq_eq_false_iff_ne]
      rintro rfl
      exact hrest.1 rfl
    have hhyphen : ('-' == r) = false := by
      rw [beq_eq_false_iff_ne]
      rintro rfl
      exact hrest.2 rfl
    match s, hne with
    | [a], _ => simp [startsComment, List.isPrefixOf, hmark]
    | [a, b], _ => simp [startsComment, List.isPrefixOf, hhyphen]
    | [a, b, c], _ => simp [startsComment, List.isPrefixOf, hhyphen]
    | a :: b :: c :: d :: s, _ => simpa [startsComment, List.isPrefixOf] using hs

/-- What can stand behind a run of text: nothing, or a comment or tag. -/
def endsRun : List Char → Bool
  | [] => true
  | c :: rest => c == '<' && endsText (c :: rest)

/-- What ends no run of text ends none with more behind it, if a comment or a tag follows, because
these start with a bracket and not with a brace. -/
theorem endsText_append {s rest : List Char} (hs : endsText s = false) (hne : s ≠ [])
    (hrest : endsRun rest = true) : endsText (s ++ rest) = false := by
  have hhead : ∀ c ∈ rest.head?, c = '<' := by
    intro c hc
    cases rest with
    | nil => cases hc
    | cons d rest =>
      cases hc
      rw [endsRun, Bool.and_eq_true] at hrest
      exact beq_iff_eq.mp hrest.1
  have hnone : ∀ d, d ≠ '<' → rest.head? ≠ some d := fun d hd h => hd (hhead d h)
  simp only [endsText, Bool.or_eq_false_iff] at hs ⊢
  obtain ⟨⟨hmustache, hcomment⟩, htag⟩ := hs
  refine ⟨⟨startsMustache_append hmustache hne (hnone _ (by decide)), ?_⟩, ?_⟩
  · exact startsComment_append hcomment hne ⟨hnone _ (by decide), hnone _ (by decide)⟩
  · refine startsTag_append htag hne fun c hc => ?_
    rw [hhead c hc]
    decide

/-- A run of text in which nothing starts is read as itself. What follows has to end it, or it would
be longer. -/
theorem scanNext_text {src : Source} {content : String} {rest : List Char}
    (hsrc : src.rest = content.toList ++ rest) (hne : content ≠ "")
    (hinert : inert content.toList = true) (hrest : endsRun rest = true) :
    ∃ later, scanNext src = .ok (.text content, later) ∧ later.rest = rest := by
  have hne' : content.toList ≠ [] := fun h => hne (String.toList_eq_nil_iff.mp h)
  have hends : ∀ t, t ≠ [] → t <:+ content.toList → endsText (t ++ rest) = false :=
    fun t ht hsuffix => endsText_append (endsText_of_suffix hinert hsuffix ht) ht hrest
  have hstart : endsText src.rest = false := by
    rw [hsrc]
    exact hends content.toList hne' List.suffix_rfl
  have hstop : rest = [] ∨ endsText rest = true := by
    cases rest with
    | nil => exact Or.inl rfl
    | cons c rest =>
      rw [endsRun, Bool.and_eq_true] at hrest
      exact Or.inr hrest.2
  refine ⟨src.advance content.toList.length, ?_, rest_advance_append hsrc⟩
  rw [scanNext_eq_scanText hstart, scanText_append hsrc hne' hends hstop, String.ofList_toList]

end MustacheMarkup
