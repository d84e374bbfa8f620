import MustacheMarkup.Proofs.Token.Outcomes

/-!
# What values of attributes hold

The value of an attribute that was read from a source text holds literal texts and mustaches, but no
tags and no comments. So nothing in it becomes an element.
-/

set_option autoImplicit false

namespace MustacheMarkup

section

variable {scan : Source → Except ScanError (Lexeme × Source)}
  {shrinks : ∀ {src lexeme later}, src.rest ≠ [] → scan src = .ok (lexeme, later) →
    later.rest.length < src.rest.length}

/-- Nothing is scanned of nothing. -/
theorem scanAll_of_rest_eq_nil {src : Source} (hs : src.rest = []) :
    scanAll scan shrinks src = .ok [] := by
  rw [scanAll, dif_pos hs]

/-- A token is read, and then those behind it. -/
theorem scanAll_of_scan {src later : Source} {lexeme : Lexeme} (hs : src.rest ≠ [])
    (h : scan src = .ok (lexeme, later)) :
    scanAll scan shrinks src =
      (scanAll scan shrinks later).map (⟨lexeme, src.spanTo later⟩ :: ·) := by
  rw [scanAll, dif_neg hs]
  split
  · rename_i e he
    rw [h] at he
    cases he
  · rename_i lexeme' later' h'
    rw [h] at h'
    cases h'
    cases scanAll scan shrinks later <;> rfl

/-- If the first step fails, so do all steps together. -/
theorem scanAll_of_error {src : Source} {e : ScanError} (hs : src.rest ≠ [])
    (h : scan src = .error e) : scanAll scan shrinks src = .error e := by
  rw [scanAll, dif_neg hs]
  split
  · rename_i e' he
    rw [h] at he
    cases he
    rfl
  · rename_i h'
    rw [h] at h'
    cases h'

/-- The first of the tokens, and those behind it. So a proof about all tokens needs to know one step
of reading and how to go on. -/
theorem exists_of_scanAll {src : Source} {tokens : List Token} (hs : src.rest ≠ [])
    (h : scanAll scan shrinks src = .ok tokens) :
    ∃ lexeme later rest, scan src = .ok (lexeme, later) ∧ scanAll scan shrinks later = .ok rest ∧
      tokens = ⟨lexeme, src.spanTo later⟩ :: rest := by
  cases hnext : scan src with
  | error e =>
    rw [scanAll_of_error hs hnext] at h
    cases h
  | ok next =>
    obtain ⟨lexeme, later⟩ := next
    rw [scanAll_of_scan hs hnext] at h
    cases hlater : scanAll scan shrinks later with
    | error e =>
      rw [hlater] at h
      cases h
    | ok rest =>
      rw [hlater] at h
      cases h
      exact ⟨lexeme, later, rest, rfl, hlater, rfl⟩

/-- Induction on how tokens were read: what holds where nothing is left, and holds with one more
token in front, holds of all tokens that are read. -/
theorem scanAll_induction {motive : Source → List Token → Prop}
    (nil : ∀ src, src.rest = [] → motive src [])
    (cons : ∀ src lexeme later rest, src.rest ≠ [] → scan src = .ok (lexeme, later) →
      scanAll scan shrinks later = .ok rest → motive later rest →
      motive src (⟨lexeme, src.spanTo later⟩ :: rest))
    {src : Source} {tokens : List Token} (h : scanAll scan shrinks src = .ok tokens) :
    motive src tokens := by
  induction hlength : src.rest.length using Nat.strongRecOn generalizing src tokens with
  | ind n ih =>
    by_cases hs : src.rest = []
    · rw [scanAll_of_rest_eq_nil hs] at h
      cases h
      exact nil src hs
    · obtain ⟨lexeme, later, rest, hnext, hlater, rfl⟩ := exists_of_scanAll hs h
      have hshrinks := shrinks hs hnext
      rw [hlength] at hshrinks
      exact cons src lexeme later rest hs hnext hlater (ih _ hshrinks hlater rfl)

/-- Induction on how reading failed: what holds where a token cannot be read, and holds before each
token that is read, holds where reading started. -/
theorem scanAll_error_induction {motive : Source → ScanError → Prop}
    (here : ∀ src e, src.rest ≠ [] → scan src = .error e → motive src e)
    (before : ∀ src lexeme later e, src.rest ≠ [] → scan src = .ok (lexeme, later) →
      motive later e → motive src e)
    {src : Source} {e : ScanError} (h : scanAll scan shrinks src = .error e) : motive src e := by
  induction hlength : src.rest.length using Nat.strongRecOn generalizing src with
  | ind n ih =>
    by_cases hs : src.rest = []
    · rw [scanAll_of_rest_eq_nil hs] at h
      cases h
    · cases hnext : scan src with
      | error e' =>
        rw [scanAll_of_error hs hnext] at h
        cases h
        exact here src e hs hnext
      | ok next =>
        obtain ⟨lexeme, later⟩ := next
        have hshrinks := shrinks hs hnext
        rw [hlength] at hshrinks
        rw [scanAll_of_scan hs hnext] at h
        cases hlater : scanAll scan shrinks later with
        | error e' =>
          rw [hlater] at h
          cases h
          exact before src lexeme later e hs hnext (ih _ hshrinks hlater rfl)
        | ok rest =>
          rw [hlater] at h
          cases h

/-- What holds of every lexeme that can be read holds of all tokens. -/
theorem forall_mem_of_scanAll {P : Lexeme → Prop}
    (hscan : ∀ src lexeme later, src.rest ≠ [] → scan src = .ok (lexeme, later) → P lexeme)
    {src : Source} {tokens : List Token} (h : scanAll scan shrinks src = .ok tokens) :
    ∀ t ∈ tokens, P t.lexeme := by
  refine scanAll_induction (motive := fun _ tokens => ∀ t ∈ tokens, P t.lexeme) ?_ ?_ h
  · exact fun _ _ => List.forall_mem_nil _
  · intro src lexeme later rest hs hnext _ ih
    exact List.forall_mem_cons.mpr ⟨hscan src lexeme later hs hnext, ih⟩

end

/-! ## Values -/

/-- Whether a lexeme can stand in the value of an attribute. -/
def Lexeme.inValue : Lexeme → Bool
  | .text _ => true
  | .mustache _ _ => true
  | _ => false

/-- What stands between braces is always a mustache. -/
theorem exists_eq_ofMustache (content : List Char) :
    ∃ kind reference, Lexeme.ofMustache content = .mustache kind reference := by
  unfold Lexeme.ofMustache
  split
  · exact ⟨_, _, rfl⟩
  · split
    · exact ⟨_, _, rfl⟩
    · exact ⟨_, _, rfl⟩

/-- What is read as a mustache is one. -/
theorem exists_of_scanMustache {src later : Source} {lexeme : Lexeme}
    (h : scanMustache src = .ok (lexeme, later)) :
    ∃ kind reference, lexeme = .mustache kind reference := by
  obtain ⟨content, -, -, rfl, -⟩ | ⟨content, -, -, rfl, -⟩ := scanMustache_eq_ok_iff.mp h
  · exact ⟨_, _, rfl⟩
  · exact exists_eq_ofMustache content

/-- A mustache may stand in a value. -/
theorem inValue_of_scanMustache {src later : Source} {lexeme : Lexeme}
    (h : scanMustache src = .ok (lexeme, later)) : lexeme.inValue = true := by
  obtain ⟨kind, reference, rfl⟩ := exists_of_scanMustache h
  rfl

/-- What is read in a value may stand in one. -/
theorem inValue_of_scanInValue {src later : Source} {lexeme : Lexeme}
    (h : scanInValue src = .ok (lexeme, later)) : lexeme.inValue = true := by
  obtain ⟨-, h⟩ | ⟨-, h⟩ := scanInValue_cases h
  · exact inValue_of_scanMustache h
  · cases h
    rfl

/-- All tokens of a value may stand in it. -/
theorem inValue_of_scanValue {p : Position} {value : List Char} {tokens : List Token}
    (h : scanValue p value = .ok tokens) : ∀ t ∈ tokens, t.lexeme.inValue = true :=
  forall_mem_of_scanAll (P := fun lexeme => lexeme.inValue = true)
    (fun _ _ _ _ => inValue_of_scanInValue) h

/-- The value of an attribute is read as one, whatever quotes it has. -/
theorem exists_of_scanAttributeValue {src later : Source} {tokens : List Token}
    (h : scanAttributeValue src = .ok (tokens, later)) :
    ∃ p value, scanValue p value = .ok tokens := by
  obtain ⟨quote, rest, -, -, h⟩ | ⟨-, h⟩ := scanAttributeValue_cases h
  · obtain ⟨-, hvalue, -⟩ := scanQuoted_eq_ok_iff.mp h
    exact ⟨_, _, hvalue⟩
  · obtain ⟨n, -, hvalue, -⟩ := scanUnquoted_eq_ok_iff.mp h
    exact ⟨_, _, hvalue⟩

/-- What holds of every value that can be read holds of the value of an attribute. -/
theorem forall_mem_value_of_scanAttribute {P : List Token → Prop}
    (hvalue : ∀ p value tokens, scanValue p value = .ok tokens → P tokens) {src later : Source}
    {a : RawAttribute} (h : scanAttribute src = .ok (a, later)) : ∀ tokens ∈ a.value, P tokens := by
  intro tokens htokens
  obtain ⟨rest, tokens', -, hscan, rfl⟩ | ⟨-, rfl, -⟩ := scanAttribute_eq_ok_iff.mp h
  · obtain rfl := Option.some.inj htokens
    obtain ⟨p, value, hscan⟩ := exists_of_scanAttributeValue hscan
    exact hvalue p value _ hscan
  · cases htokens

/-! ## Blanks -/

/-- Behind some characters stands what stood behind them. -/
theorem rest_advance_append {src : Source} {s rest : List Char} (h : src.rest = s ++ rest) :
    (src.advance s.length).rest = rest := by
  rw [Source.rest_advance, h, List.drop_left]

/-- To skip blanks leaves what is behind them. -/
theorem rest_skipBlanks (src : Source) :
    src.skipBlanks.rest = src.rest.dropWhile Text.isBlank := by
  have happend : src.rest.takeWhile Text.isBlank ++ src.rest.dropWhile Text.isBlank = src.rest :=
    List.takeWhile_append_dropWhile
  unfold Source.skipBlanks
  exact rest_advance_append happend.symm

/-- What follows the blanks that come next starts with no blank. -/
theorem isBlank_of_rest_skipBlanks {src : Source} {c : Char} {rest : List Char}
    (h : src.skipBlanks.rest = c :: rest) : Text.isBlank c = false := by
  have hdrop : src.rest.dropWhile Text.isBlank = c :: rest := by rw [← rest_skipBlanks, h]
  have hhead := List.head_dropWhile_not Text.isBlank (by simp [hdrop] : src.rest.dropWhile _ ≠ [])
  simpa [hdrop] using hhead

/-! ## Attributes and tags -/

/-- The attribute has a value that can be read in a tag, or none. -/
def RawAttribute.Readable (a : RawAttribute) : Prop :=
  ∀ tokens ∈ a.value, ∀ t ∈ tokens, t.lexeme.inValue = true

/-- All attributes of the tag have values that can be read in a tag. -/
def Tag.Readable (tag : Tag) : Prop :=
  ∀ a ∈ tag.attributes, a.Readable

/-- An attribute that is read is readable. -/
theorem readable_of_scanAttribute {src later : Source} {a : RawAttribute}
    (h : scanAttribute src = .ok (a, later)) : a.Readable :=
  forall_mem_value_of_scanAttribute (fun _ _ _ => inValue_of_scanValue) h

/-- What holds of every attribute that can be read where a tag does not end holds of all attributes
of a tag. -/
theorem forall_mem_of_scanAttributes {P : RawAttribute → Prop}
    (hscan : ∀ src c rest a later, src.rest = c :: rest → Text.isBlank c = false → c ≠ '>' →
      c ≠ '/' → scanAttribute src = .ok (a, later) → P a)
    {unterminated : ScanError} {src later : Source} {attributes : List RawAttribute}
    {selfClosing : Bool}
    (h : scanAttributes unterminated src = .ok (attributes, selfClosing, later)) :
    ∀ a ∈ attributes, P a := by
  fun_induction scanAttributes unterminated src generalizing attributes selfClosing later with
  | case1 => cases h
  | case2 =>
    cases h
    intro a ha
    cases ha
  | case3 =>
    cases h
    intro a ha
    cases ha
  | case4 _ _ _ _ _ ih => exact ih h
  | case5 => cases h
  | case6 => cases h
  | case7 src =>
    rename_i hbracket _ hslash hsrc _ _ hattribute _ _ _ _ hrest ih
    cases h
    intro a ha
    rcases List.mem_cons.mp ha with rfl | ha
    · exact hscan _ _ _ _ _ hsrc (isBlank_of_rest_skipBlanks hsrc) hbracket hslash hattribute
    · exact ih hrest a ha

/-- The attributes that are read are readable. -/
theorem readable_of_scanAttributes {unterminated : ScanError} {src later : Source}
    {attributes : List RawAttribute} {selfClosing : Bool}
    (h : scanAttributes unterminated src = .ok (attributes, selfClosing, later)) :
    ∀ a ∈ attributes, a.Readable :=
  forall_mem_of_scanAttributes (fun _ _ _ _ _ _ _ _ _ => readable_of_scanAttribute) h

/-- The values in a tag, if the lexeme is one, can be read in a tag. -/
def Lexeme.Readable : Lexeme → Prop
  | .tag t => t.Readable
  | _ => True

/-- Whatever is read next is readable. -/
theorem readable_of_scanNext {src later : Source} {lexeme : Lexeme}
    (h : scanNext src = .ok (lexeme, later)) : lexeme.Readable := by
  obtain ⟨-, h⟩ | ⟨-, h⟩ | ⟨-, h⟩ | ⟨-, h⟩ := scanNext_cases h
  · obtain ⟨kind, reference, rfl⟩ := exists_of_scanMustache h
    trivial
  · obtain ⟨content, -, rfl, -⟩ := scanComment_eq_ok_iff.mp h
    trivial
  · obtain ⟨tag, unterminated, named, rfl, hattributes⟩ := exists_of_scanTag h
    exact readable_of_scanAttributes hattributes
  · cases h
    trivial

/-- The values of attributes in a source text hold literal texts and mustaches only. -/
theorem readable_of_tokenize {source : String} {tokens : List Token}
    (h : tokenize source = .ok tokens) : ∀ t ∈ tokens, t.lexeme.Readable :=
  forall_mem_of_scanAll (fun _ _ _ _ => readable_of_scanNext) h

end MustacheMarkup
