import MustacheMarkup.Proofs.Token.Reading

/-!
# Reading from another place

Whether something can be read, and if not, what is wrong, depends on the characters that are left
and not on the place they stand at. The place only tells where tokens stand and where a fault is
reported. So two sources that have the same characters left are read alike, token by token
(`alike_scanNext`): both readings fail in the same way, or both leave the same characters.
-/

set_option autoImplicit false

namespace MustacheMarkup

open Source

/-- Two readings fail in the same way, or both come to something that leaves the same. -/
inductive Alike {α : Type} (left : α → List Char) :
    Except ScanError α → Except ScanError α → Prop where
  | error {e e' : ScanError} (h : e.fault = e'.fault) : Alike left (.error e) (.error e')
  | ok {a a' : α} (h : left a = left a') : Alike left (.ok a) (.ok a')

namespace Alike

variable {α : Type} {left : α → List Char} {r r' : Except ScanError α}

/-- The two ways in which readings can be alike. -/
theorem error_or_ok (h : Alike left r r') :
    (∃ e e', r = .error e ∧ r' = .error e' ∧ e.fault = e'.fault) ∨
      ∃ a a', r = .ok a ∧ r' = .ok a' ∧ left a = left a' := by
  cases h with
  | error h => exact .inl ⟨_, _, rfl, rfl, h⟩
  | ok h => exact .inr ⟨_, _, rfl, rfl, h⟩

/-- What is made of two readings leaves the same if what it is made of does. -/
theorem map {β : Type} {left' : β → List Char} {f f' : α → β} (h : Alike left r r')
    (hf : ∀ a a', left a = left a' → left' (f a) = left' (f' a')) :
    Alike left' (r.map f) (r'.map f') := by
  cases h with
  | error h => exact .error h
  | ok h => exact .ok (hf _ _ h)

end Alike

/-- To skip blanks leaves the same where the same was left. -/
theorem rest_skipBlanks_congr {src src' : Source} (h : src.rest = src'.rest) :
    src.skipBlanks.rest = src'.skipBlanks.rest := by
  rw [rest_skipBlanks, rest_skipBlanks, h]

/-- To go on leaves the same where the same was left. -/
theorem rest_advance_congr {src src' : Source} (h : src.rest = src'.rest) (n : Nat) :
    (src.advance n).rest = (src'.advance n).rest := by
  rw [rest_advance, rest_advance, h]

/-! ## Tokens one after another -/

section

variable {scan : Source → Except ScanError (Lexeme × Source)}
  {shrinks : ∀ {src lexeme later}, src.rest ≠ [] → scan src = .ok (lexeme, later) →
    later.rest.length < src.rest.length}

/-- If one step reads alike wherever the same characters are left, so do all steps. The induction is
over what is left. -/
theorem alike_scanAll
    (hscan : ∀ src src', src.rest = src'.rest → Alike (·.2.rest) (scan src) (scan src'))
    {src src' : Source} (h : src.rest = src'.rest) :
    Alike (fun _ => []) (scanAll scan shrinks src) (scanAll scan shrinks src') := by
  induction hlength : src.rest.length using Nat.strongRecOn generalizing src src' with
  | ind n ih =>
    by_cases hs : src.rest = []
    · rw [scanAll_of_rest_eq_nil hs, scanAll_of_rest_eq_nil (h.symm.trans hs)]
      exact .ok rfl
    · have hs' : src'.rest ≠ [] := h ▸ hs
      obtain ⟨e, e', he, he', hfault⟩ | ⟨next, next', hnext, hnext', hlater⟩ :=
        (hscan src src' h).error_or_ok
      · rw [scanAll_of_error hs he, scanAll_of_error hs' he']
        exact .error hfault
      · have hshrinks := shrinks hs hnext
        rw [scanAll_of_scan hs hnext, scanAll_of_scan hs' hnext']
        exact (ih _ (hlength ▸ hshrinks) hlater rfl).map fun _ _ _ => rfl

end

variable {src src' : Source}

/-- Mustaches are read alike: the braces that end one do not depend on places. -/
theorem alike_scanMustache (h : src.rest = src'.rest) :
    Alike (·.2.rest) (scanMustache src) (scanMustache src') := by
  unfold scanMustache
  rw [h]
  split
  · split
    · exact .error rfl
    · exact .ok (rest_advance_congr h _)
  · split
    · exact .error rfl
    · exact .ok (rest_advance_congr h _)

/-- Comments are read alike. -/
theorem alike_scanComment (h : src.rest = src'.rest) :
    Alike (·.2.rest) (scanComment src) (scanComment src') := by
  unfold scanComment
  rw [h]
  split
  · exact .error rfl
  · exact .ok (rest_advance_congr h _)

/-- Runs of text are read alike, whatever stops them. -/
theorem alike_scanText (stops : List Char → Bool) (h : src.rest = src'.rest) :
    Alike (·.2.rest) (.ok (scanText stops src)) (.ok (scanText stops src')) := by
  unfold scanText
  rw [h]
  exact .ok (rest_advance_congr h _)

/-! ## Values -/

/-- What stands in a value is read alike, a mustache or a text. -/
theorem alike_scanInValue (src src' : Source) (h : src.rest = src'.rest) :
    Alike (·.2.rest) (scanInValue src) (scanInValue src') := by
  unfold scanInValue
  rw [h]
  split
  · exact alike_scanMustache h
  · exact alike_scanText startsMustache h

/-- Values are read alike wherever they start, since the places in a value count from that start. -/
theorem alike_scanValue (p p' : Position) (value : List Char) :
    Alike (fun _ => []) (scanValue p value) (scanValue p' value) :=
  alike_scanAll alike_scanInValue rfl

/-- Values between quotes are read alike. -/
theorem alike_scanQuoted (quote : Char) (h : src.rest = src'.rest) :
    Alike (·.2.rest) (scanQuoted quote src) (scanQuoted quote src') := by
  have hinner := rest_advance_congr h 1
  unfold scanQuoted
  dsimp only
  rw [hinner]
  split
  · obtain ⟨e, e', he, he', hfault⟩ | ⟨tokens, tokens', hok, hok', -⟩ :=
      (alike_scanValue (src.advance 1).position (src'.advance 1).position
        ((src'.advance 1).rest.takeWhile (· != quote))).error_or_ok
    · rw [he, he']
      exact .error hfault
    · rw [hok, hok']
      exact .ok (rest_advance_congr hinner _)
  · exact .error rfl

/-- Values without quotes are read alike. -/
theorem alike_scanUnquoted (h : src.rest = src'.rest) :
    Alike (·.2.rest) (scanUnquoted src) (scanUnquoted src') := by
  unfold scanUnquoted
  rw [h]
  split
  · exact .error rfl
  · rename_i n _
    obtain ⟨e, e', he, he', hfault⟩ | ⟨tokens, tokens', hok, hok', -⟩ :=
      (alike_scanValue src.position src'.position (src'.rest.take n)).error_or_ok
    · rw [he, he']
      exact .error hfault
    · rw [hok, hok']
      exact .ok (rest_advance_congr h n)

/-- The values of attributes are read alike, with quotes or without. -/
theorem alike_scanAttributeValue (h : src.rest = src'.rest) :
    Alike (·.2.rest) (scanAttributeValue src) (scanAttributeValue src') := by
  unfold scanAttributeValue
  rw [h]
  split
  · exact alike_scanQuoted '"' h
  · exact alike_scanQuoted '\'' h
  · exact alike_scanUnquoted h

/-! ## Tags -/

/-- Attributes are read alike: the name, the equals sign and the value. Each is read from what the
one before left, which is alike in turn. -/
theorem alike_scanAttribute (h : src.rest = src'.rest) :
    Alike (·.2.rest) (scanAttribute src) (scanAttribute src') := by
  have hnamed := rest_skipBlanks_congr
    (rest_advance_congr h (attributeName src'.rest).length)
  unfold scanAttribute
  dsimp only
  rw [h, hnamed]
  split
  · obtain ⟨e, e', he, he', hfault⟩ | ⟨value, value', hok, hok', hleft⟩ :=
      (alike_scanAttributeValue
        (rest_skipBlanks_congr (rest_advance_congr hnamed 1))).error_or_ok
    · rw [he, he']
      exact .error hfault
    · rw [hok, hok']
      exact .ok hleft
  · exact .ok hnamed

/-- The attributes of a tag are read alike if a tag that does not end is the same fault. The
induction follows the reading: an end, a slash that is passed, or one more attribute. -/
theorem alike_scanAttributes {unterminated unterminated' : ScanError}
    (hfault : unterminated.fault = unterminated'.fault) (h : src.rest = src'.rest) :
    Alike (·.2.2.rest) (scanAttributes unterminated src) (scanAttributes unterminated' src') := by
  induction hlength : src.rest.length using Nat.strongRecOn generalizing src src' with
  | ind n ih =>
    have hskipped := rest_skipBlanks_congr h
    have hle := length_rest_skipBlanks_le src
    cases hrest : src.skipBlanks.rest with
    | nil =>
      rw [scanAttributes_of_nil hrest, scanAttributes_of_nil (hskipped.symm.trans hrest)]
      exact .error hfault
    | cons c rest =>
      have hrest' := hskipped.symm.trans hrest
      rw [hrest, List.length_cons] at hle
      by_cases hbracket : c = '>'
      · subst hbracket
        rw [scanAttributes_of_bracket hrest, scanAttributes_of_bracket hrest']
        exact .ok (rest_advance_congr hskipped 1)
      · by_cases hslash : c = '/'
        · subst hslash
          by_cases hclosed : ∃ more, rest = '>' :: more
          · obtain ⟨more, rfl⟩ := hclosed
            rw [scanAttributes_of_slash hrest, scanAttributes_of_slash hrest']
            exact .ok (rest_advance_congr hskipped 2)
          · have hlone : ∀ more, rest ≠ '>' :: more := fun more heq => hclosed ⟨more, heq⟩
            rw [scanAttributes_of_loneSlash hrest hlone, scanAttributes_of_loneSlash hrest' hlone]
            refine ih _ ?_ (rest_advance_congr hskipped 1) rfl
            rw [rest_advance, hrest, List.length_drop, List.length_cons]
            omega
        · rw [scanAttributes_eq_bind hrest hbracket hslash,
            scanAttributes_eq_bind hrest' hbracket hslash]
          obtain ⟨e, e', he, he', hfault'⟩ | ⟨first, first', hok, hok', hleft⟩ :=
            (alike_scanAttribute hskipped).error_or_ok
          · rw [he, he']
            exact .error hfault'
          · have hshrinks := length_rest_scanAttribute_lt (hrest ▸ List.cons_ne_nil c rest) hok
            rw [hrest, List.length_cons] at hshrinks
            rw [hok, hok']
            refine Alike.map (ih _ ?_ hleft rfl) fun _ _ hmore => hmore
            omega

/-- A tag is read alike wherever it stands: only the places in it and the place of a fault tell one
from the other. -/
theorem alike_scanTag (h : src.rest = src'.rest) :
    Alike (·.2.rest) (scanTag src) (scanTag src') := by
  unfold scanTag
  rw [h]
  split
  rename_i closing doctype width _
  have hnamed := rest_advance_congr h width
  dsimp only
  rw [hnamed]
  generalize (src'.advance width).rest.takeWhile isTagNameChar = name
  have hfault : ((ScanFault.unterminatedTag (String.ofList name)).at src.position).fault =
      ((ScanFault.unterminatedTag (String.ofList name)).at src'.position).fault := rfl
  obtain ⟨e, e', he, he', hfault⟩ | ⟨more, more', hok, hok', hleft⟩ :=
    (alike_scanAttributes hfault (rest_advance_congr hnamed name.length)).error_or_ok
  · rw [he, he']
    exact .error hfault
  · rw [hok, hok']
    exact .ok hleft

/-! ## Files -/

/-- The next token is read alike, or not read alike, from wherever the same characters are left. -/
theorem alike_scanNext (h : src.rest = src'.rest) :
    Alike (·.2.rest) (scanNext src) (scanNext src') := by
  unfold scanNext
  rw [h]
  split
  · exact alike_scanMustache h
  · split
    · exact alike_scanComment h
    · split
      · exact alike_scanTag h
      · exact alike_scanText endsText h

end MustacheMarkup
