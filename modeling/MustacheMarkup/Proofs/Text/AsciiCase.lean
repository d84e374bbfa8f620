import MustacheMarkup.Proofs.Text.SmallLetters
import MustacheMarkup.Vocabulary

/-!
# Lower case and the case of ASCII letters

The lower-case form of a text is the same whatever the case of its ASCII letters is
(`lower_eq_of_sameAscii`). This takes more than a look at each character: how a capital sigma is
written depends on the letters around it. But no class of characters that counts there tells an
ASCII capital letter from its small one.
-/

set_option autoImplicit false

namespace MustacheMarkup.Text

/-- Only ASCII letters change when they are put in lower case one by one. -/
theorem toLower_eq_self {c : Char} (h : ¬c.toNat < 0x80) : c.toLower = c := by
  unfold Char.toLower
  rw [dif_neg]
  rintro ⟨-, hlast⟩
  have hle : c.toNat ≤ 'Z'.toNat := UInt32.le_iff_toNat_le.mp hlast
  exact h (Nat.lt_of_le_of_lt hle (by decide))

/-- What is no ASCII letter does not change. -/
theorem toLower_eq_self_of_not_isAlpha {c : Char} (h : c.isAlpha = false) : c.toLower = c := by
  by_cases hc : c.toNat < 0x80
  · exact forall_ascii (P := fun c => c.isAlpha = false → c.toLower = c) (by decide) hc h
  · exact toLower_eq_self hc

/-- What tells no ASCII letter from its small letter tells no character from it. -/
theorem apply_toLower {α : Type} {f : Char → α}
    (h : ∀ n : Fin 0x80, f (Char.ofNat n).toLower = f (Char.ofNat n)) (c : Char) :
    f c.toLower = f c := by
  by_cases hc : c.toNat < 0x80
  · exact forall_ascii (P := fun c => f c.toLower = f c) h hc
  · rw [toLower_eq_self hc]

/-- Ranges beyond ASCII hold no ASCII characters. -/
theorem memRanges_ascii (rs : List Range) {c : Char} (hc : c.toNat < 0x80) :
    memRanges rs c = memRanges (rs.filter (·.first < 0x80)) c := by
  unfold memRanges
  rw [List.any_filter]
  refine congrArg rs.any (funext fun r => ?_)
  by_cases hr : r.first < 0x80
  · rw [decide_eq_true hr, Bool.true_and]
  · have hmisses : ¬r.first ≤ c.toNat := by omega
    rw [decide_eq_false hr, Bool.false_and, Range.holds, decide_eq_false hmisses, Bool.false_and]

/-- To look up a character in ranges gives the same for an ASCII letter in lower case, if it does so
for each of the first 128 characters. -/
theorem memRanges_toLower {rs : List Range}
    (h : ∀ n : Fin 0x80, memRanges (rs.filter (·.first < 0x80)) (Char.ofNat n).toLower =
      memRanges (rs.filter (·.first < 0x80)) (Char.ofNat n)) (c : Char) :
    memRanges rs c.toLower = memRanges rs c := by
  by_cases hc : c.toNat < 0x80
  · have hlower : c.toLower.toNat < 0x80 :=
      forall_ascii (P := fun c => c.toLower.toNat < 0x80) (by decide) hc
    rw [memRanges_ascii rs hc, memRanges_ascii rs hlower]
    exact apply_toLower (f := memRanges (rs.filter (·.first < 0x80))) h c
  · rw [toLower_eq_self hc]

/-- The ASCII characters that casing skips. -/
theorem ascii_skippedRanges : skippedRanges.filter (·.first < 0x80) =
    [⟨0x27, 0x27⟩, ⟨0x2E, 0x2E⟩, ⟨0x3A, 0x3A⟩, ⟨0x5E, 0x5E⟩, ⟨0x60, 0x60⟩] := by
  decide +kernel

/-- The ASCII characters with a case are the letters. -/
theorem ascii_casedRanges : casedRanges.filter (·.first < 0x80) =
    [⟨0x41, 0x5A⟩, ⟨0x61, 0x7A⟩] := by
  decide +kernel

/-- Whether casing skips a character does not depend on the case of an ASCII letter. -/
theorem isSkipped_toLower (c : Char) : isSkipped c.toLower = isSkipped c :=
  memRanges_toLower (by rw [ascii_skippedRanges]; decide) c

/-- Whether a character has a case does not depend on the case of an ASCII letter. -/
theorem isCased_toLower (c : Char) : isCased c.toLower = isCased c :=
  memRanges_toLower (by rw [ascii_casedRanges]; decide) c

/-- The small letter is the same for an ASCII letter of either case. -/
theorem lowerLetter_toLower (c : Char) : lowerLetter c.toLower = lowerLetter c :=
  apply_toLower (by decide +kernel) c

/-- No ASCII letter is a capital sigma. -/
theorem toLower_eq_sigma_iff (c : Char) : c.toLower = 'Σ' ↔ c = 'Σ' :=
  iff_of_eq (apply_toLower (f := (· = 'Σ')) (fun n => propext (by revert n; decide)) c)

/-- No ASCII letter is an I with a dot. -/
theorem toLower_eq_dotted_iff (c : Char) : c.toLower = 'İ' ↔ c = 'İ' :=
  iff_of_eq (apply_toLower (f := (· = 'İ')) (fun n => propext (by revert n; decide)) c)

/-- Whether a letter with a case follows does not depend on the case of ASCII letters. -/
theorem startsCased_map_toLower (s : List Char) :
    startsCased (s.map Char.toLower) = startsCased s := by
  have hskipped : isSkipped ∘ Char.toLower = isSkipped := funext isSkipped_toLower
  unfold startsCased
  rw [List.dropWhile_map, hskipped]
  cases s.dropWhile isSkipped with
  | nil => rfl
  | cons c rest => exact isCased_toLower c

/-- A text in lower case is the same if its ASCII letters were put in lower case before. The context
of a sigma is what needs the hypothesis on both sides. -/
theorem lowerAfter_map_toLower (before s : List Char) :
    lowerAfter (before.map Char.toLower) (s.map Char.toLower) = lowerAfter before s := by
  induction s generalizing before with
  | nil => rfl
  | cons c s ih =>
    have hrest := ih (c :: before)
    rw [List.map_cons] at hrest
    rw [List.map_cons, lowerAfter, lowerAfter, hrest, startsCased_map_toLower,
      startsCased_map_toLower, lowerLetter_toLower]
    simp only [toLower_eq_sigma_iff, toLower_eq_dotted_iff]

/-- The case of ASCII letters makes no difference to the lower-case form. -/
theorem lower_eq_of_sameAscii {a b : String} (h : Vocabulary.sameAscii a b = true) :
    lower a = lower b := by
  have hchars : a.toList.map Char.toLower = b.toList.map Char.toLower := beq_iff_eq.mp h
  have hforms := congrArg (lowerAfter []) hchars
  rw [← List.map_nil (f := Char.toLower), lowerAfter_map_toLower, lowerAfter_map_toLower] at hforms
  rw [lower, lower, hforms]

end MustacheMarkup.Text
