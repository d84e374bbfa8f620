import MustacheMarkup.Text.LowerCase
import MustacheMarkup.Token.Scan

/-!
# Lower case is final

No character of a text in lower case has a lower-case form of its own, so lower case is taken once
and for all. For the letters beyond ASCII this is a property of the table of capital letters: a run
of small letters meets no run of capital letters, or it lies between the letters of one.
-/

set_option autoImplicit false

namespace MustacheMarkup.Text

/-- Whether a character is its own lower-case form wherever it stands. -/
def isSmall (c : Char) : Bool :=
  c != 'Σ' && c != 'İ' && lowerLetter c == c

/-- The code point of the small letter of a capital letter of a run. -/
def CapitalRun.small (r : CapitalRun) (n : Nat) : Nat :=
  (n + r.shift).toNat

/-- Whether no small letter of the run lies in a range of code points. -/
def CapitalRun.misses (r : CapitalRun) (first last : Nat) : Bool :=
  Nat.blt (r.small r.last) first || Nat.blt last (r.small r.first)

/-- Whether no small letter of the run is a capital letter of another. -/
def CapitalRun.isApart (r q : CapitalRun) : Bool :=
  r.misses q.first q.last ||
    ((r.first + r.shift - q.first) % q.stride != 0) &&
      (r.stride % q.stride == 0 || r.first == r.last)

/-- No two runs of capital letters overlap, by a look at all pairs. -/
theorem isApart_of_mem : (capitalRuns.all fun r => capitalRuns.all r.isApart) = true := by
  decide +kernel

/-- The small letters of a run lie behind the ASCII capital letters, and none of them is special or
a blank. All runs are looked at. -/
theorem small_of_mem : ∀ r ∈ capitalRuns, 0x60 < r.first + r.shift ∧
    r.misses 0x3A3 0x3A3 = true ∧ r.misses 0x130 0x130 = true ∧
      ∀ q ∈ blankRanges, r.misses q.first q.last = true := by
  decide +kernel

section

variable {r : CapitalRun} {n : Nat}

/-- A run holds a letter if this lies between its ends and on one of its steps. -/
theorem holds_iff : r.holds n = true ↔
    r.first ≤ n ∧ n ≤ r.last ∧ (n - r.first) % r.stride = 0 := by
  simp only [CapitalRun.holds, Bool.and_eq_true, decide_eq_true_eq, beq_iff_eq, and_assoc]

/-- The small letter of a capital one lies at the distance that its run tells. -/
theorem small_eq (hr : r ∈ capitalRuns) (hn : r.holds n = true) :
    (r.small n : Int) = n + r.shift ∧ 0x60 < r.small n := by
  obtain ⟨hfirst, -, -⟩ := holds_iff.mp hn
  obtain ⟨hsmall, -, -⟩ := small_of_mem r hr
  unfold CapitalRun.small
  omega

/-- A range that the small letters of a run miss holds none of them. -/
theorem not_mem_of_misses {first last : Nat} (hr : r ∈ capitalRuns) (hn : r.holds n = true)
    (h : r.misses first last = true) : ¬(first ≤ r.small n ∧ r.small n ≤ last) := by
  obtain ⟨hfirst, hlast, -⟩ := holds_iff.mp hn
  obtain ⟨hsmall, -⟩ := small_eq hr hn
  simp only [CapitalRun.misses, CapitalRun.small, Bool.or_eq_true, Nat.blt_eq] at h
  omega

/-- The small letter of a capital letter is no capital letter. This is a fact about the table,
looked through run by run. -/
theorem holds_small {q : CapitalRun} (hr : r ∈ capitalRuns) (hq : q ∈ capitalRuns)
    (hn : r.holds n = true) : q.holds (r.small n) = false := by
  have hapart : r.isApart q = true :=
    List.all_eq_true.mp (List.all_eq_true.mp isApart_of_mem r hr) q hq
  obtain ⟨hfirst, hlast, hstride⟩ := holds_iff.mp hn
  obtain ⟨hsmall, -⟩ := small_eq hr hn
  rw [Bool.eq_false_iff]
  intro hheld
  obtain ⟨hqfirst, hqlast, hqstride⟩ := holds_iff.mp hheld
  rw [CapitalRun.isApart, Bool.or_eq_true, Bool.and_eq_true] at hapart
  rcases hapart with hmisses | ⟨hbetween, hparallel⟩
  · exact not_mem_of_misses hr hn hmisses ⟨hqfirst, hqlast⟩
  · -- The small letters lie between the capital letters of the other run.
    rw [bne_iff_ne] at hbetween
    apply hbetween
    have hqdvd : (q.stride : Int) ∣ n + r.shift - q.first := by
      have hdvd := Int.natCast_dvd_natCast.mpr (Nat.dvd_of_mod_eq_zero hqstride)
      rw [Int.natCast_sub hqfirst, hsmall] at hdvd
      exact hdvd
    have hdvd : (q.stride : Int) ∣ n - r.first := by
      rw [Bool.or_eq_true, beq_iff_eq, beq_iff_eq] at hparallel
      rcases hparallel with hparallel | hsingle
      · have hdvd := Int.natCast_dvd_natCast.mpr
          (Nat.dvd_trans (Nat.dvd_of_mod_eq_zero hparallel) (Nat.dvd_of_mod_eq_zero hstride))
        rwa [Int.natCast_sub hfirst] at hdvd
      · have hzero : (n : Int) - r.first = 0 := by omega
        rw [hzero]
        exact Int.dvd_zero _
    have hsub := Int.dvd_sub hqdvd hdvd
    have heq : (n : Int) + r.shift - q.first - (n - r.first) = r.first + r.shift - q.first := by
      omega
    rw [heq] at hsub
    exact Int.emod_eq_zero_of_dvd hsub

end

/-! ## Characters -/

/-- A character beyond ASCII is its own small letter, or a capital letter of a run. -/
theorem lowerLetter_cases {c : Char} (hc : ¬c.toNat < 0x80) :
    lowerLetter c = c ∨
      ∃ r ∈ capitalRuns, r.holds c.toNat = true ∧ lowerLetter c = Char.ofNat (r.small c.toNat) := by
  unfold lowerLetter
  rw [if_neg hc]
  split
  · rename_i r hr
    have hholds := @List.find?_some _ (fun q : CapitalRun => q.holds c.toNat) _ _ hr
    exact Or.inr ⟨r, List.mem_of_find?_eq_some hr, hholds, rfl⟩
  · exact Or.inl rfl

/-- A character that is made of a number has that number, or is the null character. -/
theorem toNat_ofNat_cases (n : Nat) : (Char.ofNat n).toNat = n ∨ Char.ofNat n = '\x00' := by
  by_cases h : n.isValidChar
  · refine Or.inl ?_
    unfold Char.ofNat
    rw [dif_pos h]
    rfl
  · refine Or.inr ?_
    unfold Char.ofNat
    rw [dif_neg h]
    rfl

/-- What holds of the first code points holds of the characters of ASCII. -/
theorem forall_ascii {P : Char → Prop} (h : ∀ n : Fin 0x80, P (Char.ofNat n)) {c : Char}
    (hc : c.toNat < 0x80) : P c := by
  have hP := h ⟨c.toNat, hc⟩
  dsimp only at hP
  rwa [Char.ofNat_toNat] at hP

/-- The lower-case form of a letter is its own. Two letters are left out, as lower case treats them
in a way of its own. -/
theorem isSmall_lowerLetter {c : Char} (hsigma : c ≠ 'Σ') (hdotted : c ≠ 'İ') :
    isSmall (lowerLetter c) = true := by
  by_cases hc : c.toNat < 0x80
  · exact forall_ascii (P := fun c => isSmall (lowerLetter c) = true) (by decide) hc
  · rcases lowerLetter_cases hc with hself | ⟨r, hr, hn, hsmall⟩
    · simp [hself, isSmall, hsigma, hdotted]
    · rw [hsmall]
      rcases toNat_ofNat_cases (r.small c.toNat) with hd | hd
      · generalize Char.ofNat (r.small c.toNat) = d at hd
        obtain ⟨-, hletter⟩ := small_eq hr hn
        obtain ⟨-, hnotSigma, hnotDotted, -⟩ := small_of_mem r hr
        have hsigma' : d ≠ 'Σ' := by
          rintro rfl
          exact not_mem_of_misses hr hn hnotSigma (by rw [← hd]; decide)
        have hdotted' : d ≠ 'İ' := by
          rintro rfl
          exact not_mem_of_misses hr hn hnotDotted (by rw [← hd]; decide)
        have hself : lowerLetter d = d := by
          by_cases hascii : d.toNat < 0x80
          · rw [← hd] at hletter
            exact forall_ascii (P := fun d => 0x60 < d.toNat → lowerLetter d = d) (by decide) hascii
              hletter
          · rcases lowerLetter_cases hascii with hself | ⟨q, hq, hheld, -⟩
            · exact hself
            · rw [hd, holds_small hr hq hn] at hheld
              cases hheld
        simp [isSmall, hsigma', hdotted', hself]
      · rw [hd]
        decide

/-! ## Texts -/

/-- What a text in lower case has are small letters, also for the two letters that lower case treats
apart. So to put a text in lower case twice is to do it once. -/
theorem isSmall_of_mem_lowerAfter {before s : List Char} {c : Char}
    (h : c ∈ lowerAfter before s) : isSmall c = true := by
  induction s generalizing before with
  | nil => cases h
  | cons d s ih =>
    rw [lowerAfter, List.mem_append] at h
    rcases h with h | h
    · split at h
      · rw [List.mem_singleton] at h
        rw [h]
        split
        · decide
        · decide
      · split at h
        · have hdotted : ['i', '\u0307'].all isSmall = true := by decide
          exact List.all_eq_true.mp hdotted c h
        · rename_i hsigma hdotted
          rw [List.mem_singleton.mp h]
          exact isSmall_lowerLetter hsigma hdotted
    · exact ih h

/-- A text of small letters is in lower case already. -/
theorem lowerAfter_of_isSmall {before s : List Char} (h : ∀ c ∈ s, isSmall c = true) :
    lowerAfter before s = s := by
  induction s generalizing before with
  | nil => rfl
  | cons c s ih =>
    obtain ⟨hc, hs⟩ := List.forall_mem_cons.mp h
    simp only [isSmall, Bool.and_eq_true, bne_iff_ne, beq_iff_eq] at hc
    obtain ⟨⟨hsigma, hdotted⟩, hletter⟩ := hc
    rw [lowerAfter, if_neg hsigma, if_neg hdotted, hletter, ih hs, List.singleton_append]

/-- Lower case is taken once and for all. -/
@[simp]
theorem lower_lower (s : String) : lower (lower s) = lower s := by
  unfold lower
  rw [String.toList_ofList, lowerAfter_of_isSmall fun c hc => isSmall_of_mem_lowerAfter hc]

/-- The lower-case form of a text that starts with an ASCII letter starts with its small letter. -/
theorem lowerAfter_cons {c : Char} (h : c.toNat < 0x80) (before rest : List Char) :
    lowerAfter before (c :: rest) = c.toLower :: lowerAfter (c :: before) rest := by
  have hsigma : c ≠ 'Σ' := by
    rintro rfl
    exact absurd h (by decide)
  have hdotted : c ≠ 'İ' := by
    rintro rfl
    exact absurd h (by decide)
  have hletter : lowerLetter c = c.toLower := if_pos h
  rw [lowerAfter, if_neg hsigma, if_neg hdotted, hletter, List.singleton_append]

/-- A text in ASCII is put in lower case letter by letter. -/
theorem lowerAfter_ascii {before s : List Char} (h : ∀ c ∈ s, c.toNat < 0x80) :
    lowerAfter before s = s.map Char.toLower := by
  induction s generalizing before with
  | nil => rfl
  | cons c s ih =>
    obtain ⟨hc, hs⟩ := List.forall_mem_cons.mp h
    rw [lowerAfter_cons hc, ih hs, List.map_cons]

/-! ## Names of attributes -/

/-- The small letter of a character of names may stand in a name: it is no blank, no bracket, no
slash and no equals sign, for none of these is the small letter of another. -/
theorem isAttributeNameChar_lowerLetter {c : Char} (h : isAttributeNameChar c = true) :
    isAttributeNameChar (lowerLetter c) = true := by
  by_cases hc : c.toNat < 0x80
  · exact forall_ascii (P := fun c => isAttributeNameChar c = true →
      isAttributeNameChar (lowerLetter c) = true) (by decide) hc h
  · rcases lowerLetter_cases hc with hself | ⟨r, hr, hn, hsmall⟩
    · rw [hself]
      exact h
    · rw [hsmall]
      rcases toNat_ofNat_cases (r.small c.toNat) with hd | hd
      · generalize Char.ofNat (r.small c.toNat) = d at hd
        obtain ⟨-, hletter⟩ := small_eq hr hn
        obtain ⟨-, -, -, hblanks⟩ := small_of_mem r hr
        have hblank : isBlank d = false := by
          unfold isBlank memRanges
          rw [List.any_eq_false]
          intro q hq hheld
          rw [hd, Range.holds, Bool.and_eq_true, decide_eq_true_eq, decide_eq_true_eq] at hheld
          exact not_mem_of_misses hr hn (hblanks q hq) hheld
        have hne : ∀ e : Char, e.toNat ≤ 0x60 → (d == e) = false := by
          intro e he
          rw [beq_eq_false_iff_ne]
          rintro rfl
          omega
        simp [isAttributeNameChar, hblank, hne]
      · rw [hd]
        decide

/-- No character that ends a name comes out of lower case. So names that can be read stay such when
their case is changed. -/
theorem isAttributeNameChar_of_mem_lowerAfter {before s : List Char}
    (h : ∀ c ∈ s, isAttributeNameChar c = true) {c : Char} (hc : c ∈ lowerAfter before s) :
    isAttributeNameChar c = true := by
  induction s generalizing before with
  | nil => cases hc
  | cons d s ih =>
    obtain ⟨hd, hs⟩ := List.forall_mem_cons.mp h
    rw [lowerAfter, List.mem_append] at hc
    rcases hc with hc | hc
    · split at hc
      · rw [List.mem_singleton] at hc
        rw [hc]
        split
        · decide
        · decide
      · split at hc
        · have hdotted : ['i', '\u0307'].all isAttributeNameChar = true := by decide
          exact List.all_eq_true.mp hdotted c hc
        · rw [List.mem_singleton.mp hc]
          exact isAttributeNameChar_lowerLetter hd
    · exact ih hs hc

end MustacheMarkup.Text
