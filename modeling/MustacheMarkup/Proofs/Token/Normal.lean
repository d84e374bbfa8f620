import Mathlib.Data.List.Chain
import MustacheMarkup.Proofs.Attribute.Name
import MustacheMarkup.Proofs.Journal.Success
import MustacheMarkup.Proofs.Text.BlankEnds
import MustacheMarkup.Proofs.Token.Excerpt

/-!
# Tokens in normal form

A run of text goes on until something else starts, and everything else goes on until its own
delimiter comes. So tokens that are read are in normal form (`normal_of_tokenize`): no text could
have been split or joined with another one, and nothing holds the delimiter that ends it. The two
tests that this rests on are written apart from each other, what ends a run of text and what the
next token is; `IsRun` says that they agree, outside tags and in values.
-/

set_option autoImplicit false

namespace MustacheMarkup

/-! ## Normal forms -/

/-- No two texts stand side by side. -/
def TextsApart (tokens : List Token) : Prop :=
  tokens.IsChain fun t t' => t.text? = none ∨ t'.text? = none

/-- The braces that end a mustache. -/
def MustacheKind.closingBraces : MustacheKind → List Char
  | .unescaped => ['}', '}', '}']
  | _ => ['}', '}']

/-- A mustache that has no blanks at the ends, no braces that would have ended it, and no character
at its start that would have chosen another kind. -/
structure MustacheKind.Normal (kind : MustacheKind) (reference : String) : Prop where
  starts : Text.startsBlank reference = false
  ends : Text.endsBlank reference = false
  closing : ¬kind.closingBraces <:+: reference.toList
  sigil : kind = .interpolation → ∀ c ∈ reference.toList.head?, c ∉ ['#', '^', '/', '>', '!']

/-- What a value is made of: literal texts in which no mustache starts, and mustaches. -/
inductive Lexeme.NormalInValue : Lexeme → Prop where
  | text {content : String} (hne : content ≠ "") (hmustache : ¬['{', '{'] <:+: content.toList) :
      Lexeme.NormalInValue (.text content)
  | mustache {kind : MustacheKind} {reference : String} (h : kind.Normal reference) :
      Lexeme.NormalInValue (.mustache kind reference)

/-- An attribute whose name is one of the characters that no name can hold, or has none of them. -/
structure RawAttribute.Normal (a : RawAttribute) : Prop where
  name : a.name ∈ ["=", "\"", "'"] ∨ a.name ≠ "" ∧
    ∀ c ∈ a.name.toList, Text.isBlank c = false ∧ c ∉ ['=', '/', '>', '"', '\'']
  apart : ∀ tokens ∈ a.value, TextsApart tokens
  value : ∀ tokens ∈ a.value, ∀ t ∈ tokens, t.lexeme.NormalInValue

/-- A tag whose name starts with a letter and ends before anything that would end it. -/
structure Tag.Normal (tag : Tag) : Prop where
  letter : ∃ c ∈ tag.name.toList.head?, c.isAlpha = true
  name : ∀ c ∈ tag.name.toList, Text.isBlank c = false ∧ c ∉ ['/', '>']
  marks : ¬(tag.closing = true ∧ tag.doctype = true)
  attributes : ∀ a ∈ tag.attributes, a.Normal

/-- A literal text outside tags in which nothing else starts. -/
structure TextNormal (content : String) : Prop where
  ne_empty : content ≠ ""
  mustache : ¬['{', '{'] <:+: content.toList
  comment : ¬['<', '!', '-', '-'] <:+: content.toList
  tag : ∀ mark ∈ [[], ['/'], ['!']], ∀ c, c.isAlpha = true →
    ¬ '<' :: (mark ++ [c]) <:+: content.toList

/-- What a template is made of. -/
inductive Lexeme.Normal : Lexeme → Prop where
  | text {content : String} (h : TextNormal content) : Lexeme.Normal (.text content)
  | comment {content : String} (h : ¬['-', '-', '>'] <:+: content.toList) :
      Lexeme.Normal (.comment content)
  | mustache {kind : MustacheKind} {reference : String} (h : kind.Normal reference) :
      Lexeme.Normal (.mustache kind reference)
  | tag {tag : Tag} (h : tag.Normal) : Lexeme.Normal (.tag tag)

/-! ## Texts side by side -/

/-- To put neighbouring texts together makes no token more. So where it changes nothing in number,
no two texts were neighbours. -/
theorem length_joinTexts_le (tokens : List Token) :
    (Nesting.joinTexts tokens).length ≤ tokens.length := by
  induction tokens with
  | nil => exact Nat.le_refl _
  | cons t rest ih =>
    rw [Nesting.joinTexts]
    split
    · rename_i hjoined
      rw [hjoined, List.length_cons] at ih
      simp only [List.length_cons]
      omega
    · simp only [List.length_cons]
      omega

/-- Where no texts are put together, none stand side by side. To put texts together would make one
of two, and that has fewer tokens. -/
theorem textsApart_of_joinTexts {tokens : List Token} (h : Nesting.joinTexts tokens = tokens) :
    TextsApart tokens := by
  induction tokens with
  | nil => exact List.IsChain.nil
  | cons t rest ih =>
    have hlength := length_joinTexts_le rest
    rw [Nesting.joinTexts] at h
    split at h
    · -- Two texts put together would have left one token fewer.
      rename_i hjoined
      rw [hjoined, List.length_cons] at hlength
      have hfewer := congrArg List.length h
      simp only [List.length_cons] at hfewer
      omega
    · rename_i hapart
      have hrest : Nesting.joinTexts rest = rest := (List.cons.inj h).2
      refine List.isChain_cons.mpr ⟨fun t' ht' => ?_, ih hrest⟩
      obtain ⟨more, rfl⟩ := List.head?_eq_some_iff.mp ht'
      cases htext : t.text? with
      | none => exact .inl rfl
      | some content =>
        obtain ⟨lexeme, span⟩ := t'
        cases lexeme with
        | text content' => exact (hapart content content' span more htext hrest).elim
        | _ => exact .inr rfl

/-! ## Texts -/

/-- Nothing that ends a run of text occurs in it. -/
theorem IsRun.not_infix {stops : List Char → Bool} {src later : Source} {content : String}
    (h : IsRun stops src content later) {mark : List Char} (hne : mark ≠ [])
    (hmark : ∀ rest, stops (mark ++ rest) = true) : ¬mark <:+: content.toList := by
  rintro ⟨before, behind, hcontent⟩
  have hsuffix : mark ++ behind <:+ content.toList :=
    ⟨before, by rw [← hcontent, List.append_assoc]⟩
  have hinside := h.inside (mark ++ behind) (by simp [hne]) hsuffix
  rw [List.append_assoc, hmark] at hinside
  cases hinside

/-- Two braces start a mustache, whatever follows. -/
theorem startsMustache_braces (rest : List Char) : startsMustache (['{', '{'] ++ rest) = true := by
  simp [startsMustache, List.isPrefixOf]

/-- A run of text outside of tags is in normal form: it stopped before anything that would have
ended it. -/
theorem textNormal_of_isRun {src later : Source} {content : String}
    (h : IsRun endsText src content later) : TextNormal content where
  ne_empty := h.ne_empty
  mustache := h.not_infix (by simp) fun rest => by
    rw [endsText, startsMustache_braces]
    rfl
  comment := h.not_infix (by simp) fun rest => by
    simp [endsText, startsComment, List.isPrefixOf]
  tag := by
    intro mark hmark c hc
    refine h.not_infix (by simp) fun rest => ?_
    have htag : startsTag ('<' :: (mark ++ [c]) ++ rest) = true :=
      startsTag_iff.mpr ⟨mark, c, rest, hmark, hc, by simp⟩
    rw [endsText, htag, Bool.or_true]

/-! ## Mustaches -/

/-- A mustache is normal if its reference was stripped of blanks and stood in its braces. -/
theorem MustacheKind.normal_of_stripped {kind : MustacheKind} {s content : List Char}
    (hclosing : ¬kind.closingBraces <:+: content) (hs : s <:+: content)
    (hsigil : kind = .interpolation →
      ∀ c ∈ (Text.stripBlanks s).head?, c ∉ ['#', '^', '/', '>', '!']) :
    kind.Normal (String.ofList (Text.stripBlanks s)) where
  starts := Text.startsBlank_stripBlanks s
  ends := Text.endsBlank_stripBlanks s
  closing := by
    rw [String.toList_ofList]
    exact fun hinside => hclosing (hinside.trans ((Text.infix_stripBlanks s).trans hs))
  sigil := by
    rw [String.toList_ofList]
    exact hsigil

/-- The characters that choose a kind of mustache do so. -/
theorem ofSigil?_ne_none {c : Char} (h : c ∈ ['#', '^', '/', '>', '!']) :
    MustacheKind.ofSigil? c ≠ none := by
  simp only [List.mem_cons, List.not_mem_nil, or_false] at h
  rcases h with rfl | rfl | rfl | rfl | rfl <;> simp [MustacheKind.ofSigil?]

/-- A mustache whose kind was chosen by a character ends with two braces, and is
no interpolation. -/
theorem closingBraces_of_ofSigil? {c : Char} {kind : MustacheKind}
    (h : MustacheKind.ofSigil? c = some kind) :
    kind.closingBraces = ['}', '}'] ∧ kind ≠ .interpolation := by
  unfold MustacheKind.ofSigil? at h
  split at h <;> cases h <;> exact ⟨rfl, by simp⟩

/-- What stands between braces without two closing ones in it is a mustache in normal form: its kind
is what its first character says, and its reference has no blanks at its ends. -/
theorem normal_ofMustache {content : List Char} (h : ¬['}', '}'] <:+: content) :
    ∃ kind reference, Lexeme.ofMustache content = .mustache kind reference ∧
      kind.Normal reference := by
  have hstripped : Text.stripBlanks content <:+: content := Text.infix_stripBlanks content
  unfold Lexeme.ofMustache
  split
  · exact ⟨_, _, rfl, rfl, rfl, by simp [MustacheKind.closingBraces], by simp⟩
  · rename_i c rest hcontent
    rw [hcontent] at hstripped
    split
    · rename_i kind hkind
      obtain ⟨hbraces, hother⟩ := closingBraces_of_ofSigil? hkind
      have hrest : rest <:+: content := (List.suffix_cons c rest).isInfix.trans hstripped
      refine ⟨kind, _, rfl, MustacheKind.normal_of_stripped ?_ hrest ?_⟩
      · rw [hbraces]
        exact h
      · exact fun hkind' => absurd hkind' hother
    · rename_i hnone
      refine ⟨.interpolation, _, rfl, ?_⟩
      rw [← hcontent]
      refine MustacheKind.normal_of_stripped h List.infix_rfl fun _ d hd => ?_
      rw [hcontent, List.head?_cons, Option.mem_some] at hd
      rw [← hd]
      exact fun hmem => ofSigil?_ne_none hmem hnone

/-- A mustache that is read is in normal form, with two braces or with three. -/
theorem normal_of_scanMustache {src later : Source} {lexeme : Lexeme}
    (h : scanMustache src = .ok (lexeme, later)) :
    ∃ kind reference, lexeme = .mustache kind reference ∧ kind.Normal reference := by
  obtain ⟨content, -, hcontent, rfl, -⟩ | ⟨content, -, hcontent, rfl, -⟩ :=
    scanMustache_eq_ok_iff.mp h
  · refine ⟨.unescaped, _, rfl, MustacheKind.normal_of_stripped ?_ List.infix_rfl (by simp)⟩
    exact not_infix_of_before? (List.cons_ne_nil _ _) hcontent
  · exact normal_ofMustache (not_infix_of_before? (by simp) hcontent)

/-! ## Values -/

/-- What is read in a value is in normal form. -/
theorem normalInValue_of_scanInValue {src later : Source} {lexeme : Lexeme} (hs : src.rest ≠ [])
    (h : scanInValue src = .ok (lexeme, later)) : lexeme.NormalInValue := by
  have hread := h
  obtain ⟨-, h⟩ | ⟨-, h⟩ := scanInValue_cases h
  · obtain ⟨kind, reference, rfl, hnormal⟩ := normal_of_scanMustache h
    exact .mustache hnormal
  · obtain ⟨hlexeme, -⟩ := Prod.mk.inj (Except.ok.inj h)
    rw [← hlexeme] at hread ⊢
    obtain ⟨-, hrun⟩ := isRun_of_scanInValue hs hread
    exact .text hrun.ne_empty (hrun.not_infix (by simp) startsMustache_braces)

/-! ## Tags -/

/-- An attribute is in normal form if its name can be read and its value is. -/
theorem RawAttribute.normal_of_readable {a : RawAttribute} (hname : ReadableName a.name)
    (hvalue : ∀ tokens ∈ a.value, TextsApart tokens ∧ ∀ t ∈ tokens, t.lexeme.NormalInValue) :
    a.Normal := by
  refine ⟨?_, fun tokens htokens => (hvalue tokens htokens).1,
    fun tokens htokens => (hvalue tokens htokens).2⟩
  obtain ⟨hne, hchars⟩ | hname | hname | hname := hname
  · refine .inr ⟨hne, fun c hc => ?_⟩
    simpa [isAttributeNameChar, and_assoc] using hchars c hc
  · simp [hname]
  · simp [hname]
  · simp [hname]

/-- The attributes of a tag are in normal form. -/
theorem normal_of_scanAttributes {unterminated : ScanError} {src later : Source}
    {attributes : List RawAttribute} {selfClosing : Bool}
    (h : scanAttributes unterminated src = .ok (attributes, selfClosing, later)) :
    ∀ a ∈ attributes, a.Normal := by
  refine forall_mem_of_scanAttributes (fun _ _ _ a _ hsrc hblank hbracket hslash hscan => ?_) h
  refine RawAttribute.normal_of_readable
    (readableName_of_scanAttribute hsrc hblank hbracket hslash hscan) ?_
  refine forall_mem_value_of_scanAttribute (fun _ _ tokens hvalue => ⟨?_, ?_⟩) hscan
  · exact textsApart_of_joinTexts (joinTexts_of_scanAll (fun _ _ _ => isRun_of_scanInValue) hvalue)
  · exact forall_mem_of_scanAll (fun _ _ _ => normalInValue_of_scanInValue) hvalue

/-- A tag is in normal form: its name starts with a letter, because nothing else would have started
a tag. -/
theorem normal_of_scanTag {src later : Source} {lexeme : Lexeme}
    (hstart : startsTag src.rest = true) (h : scanTag src = .ok (lexeme, later)) :
    lexeme.Normal := by
  obtain ⟨mark, c, rest, hmark, hc, hrest⟩ := startsTag_iff.mp hstart
  have hnamed : (src.advance (mark.length + 1)).rest = c :: rest :=
    rest_advance_append (s := '<' :: mark) hrest
  obtain ⟨attributes, selfClosing, hattributes, rfl⟩ :=
    exists_attributes_of_scanTag hmark hc hrest h
  refine .tag ⟨⟨c, ?_, hc⟩, fun d hd => ?_, ?_, normal_of_scanAttributes hattributes⟩
  · rw [String.toList_ofList, hnamed, List.takeWhile_cons_of_pos (isTagNameChar_letter hc)]
    rfl
  · rw [String.toList_ofList] at hd
    simpa [isTagNameChar, and_assoc] using List.mem_takeWhile_imp hd
  · simp only [List.mem_cons, List.not_mem_nil, or_false] at hmark
    rcases hmark with rfl | rfl | rfl <;> simp

/-! ## Files -/

/-- Whatever is read next is in normal form. -/
theorem normal_of_scanNext {src later : Source} {lexeme : Lexeme} (hs : src.rest ≠ [])
    (h : scanNext src = .ok (lexeme, later)) : lexeme.Normal := by
  have hread := h
  obtain ⟨-, h⟩ | ⟨-, h⟩ | ⟨hstart, h⟩ | ⟨-, h⟩ := scanNext_cases h
  · obtain ⟨kind, reference, rfl, hnormal⟩ := normal_of_scanMustache h
    exact .mustache hnormal
  · obtain ⟨content, hcontent, rfl, -⟩ := scanComment_eq_ok_iff.mp h
    refine .comment ?_
    rw [String.toList_ofList]
    exact not_infix_of_before? (by simp) hcontent
  · exact normal_of_scanTag hstart h
  · obtain ⟨hlexeme, -⟩ := Prod.mk.inj (Except.ok.inj h)
    rw [← hlexeme] at hread ⊢
    obtain ⟨-, hrun⟩ := isRun_of_scanNext hs hread
    exact .text (textNormal_of_isRun hrun)

/-- The tokens of a file are in normal form, and so are those of the values in it: no two texts
stand side by side, and no token holds what would have ended it. -/
theorem normal_of_tokenize (source : String) (tokens : List Token)
    (h : tokenize source = .ok tokens) :
    TextsApart tokens ∧ ∀ t ∈ tokens, t.lexeme.Normal :=
  ⟨textsApart_of_joinTexts (joinTexts_of_tokenize h),
    forall_mem_of_scanAll (fun _ _ _ => normal_of_scanNext) h⟩

/-- Beginnings of tags, braces and hyphens that end nothing, and quotes in the wrong places. -/
def nearMisses : String :=
  "1 <2\x7b\x7b\x7b a\x7d\x7d \x7d\x7d\x7d<!-- - ->-->\x7b<p \"='<q>\x7b\x7b c \x7d\x7d'/>"

/-- The theorem at a text full of what almost ends something. -/
theorem normal_of_nearMisses :
    ∃ tokens, tokenize nearMisses = .ok tokens ∧ tokens.length = 5 ∧ TextsApart tokens ∧
      ∀ t ∈ tokens, t.lexeme.Normal := by
  obtain ⟨tokens, htokens⟩ : ∃ tokens, tokenize nearMisses = .ok tokens :=
    Journal.exists_of_isOk (by decide +kernel)
  have hlength : (tokenize nearMisses).toOption.any (·.length == 5) = true := by decide +kernel
  rw [htokens] at hlength
  exact ⟨tokens, htokens, beq_iff_eq.mp hlength, normal_of_tokenize _ tokens htokens⟩

end MustacheMarkup
