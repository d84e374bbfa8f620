import MustacheMarkup.Attribute.Build
import MustacheMarkup.Proofs.Text.SmallLetters

/-!
# The names of event handlers

An attribute of the markup is named in lower case or as SVG has it. A name that is the name of an
event handler as it is written is one in the tree too, because no attribute of SVG starts with `on`.
The converse fails: `ONCLICK` is one in the tree only.
-/

set_option autoImplicit false

namespace MustacheMarkup

open Vocabulary

/-- The name of an event handler by its characters: `on`, an ASCII letter, and anything
after that. -/
theorem isEventHandler_iff {name : String} : isEventHandler name = true ↔
    ∃ c rest, name.toList = 'o' :: 'n' :: c :: rest ∧ c.isAlpha = true := by
  unfold isEventHandler
  constructor
  · intro h
    split at h
    · rename_i c rest hname
      exact ⟨c, rest, hname, h⟩
    · cases h
  · rintro ⟨c, rest, hname, hc⟩
    rw [hname]
    exact hc

/-- No name that SVG writes in mixed case starts as that of an event handler does. The table is
looked at entry by entry. -/
theorem svgAttribute_not_on : ∀ name ∈ svgAttributes,
    (name.toList.map Char.toLower).take 2 ≠ ['o', 'n'] := by
  decide +kernel

/-- No attribute of SVG starts with `on`. -/
theorem svgAttribute?_eq_none {name : String} {rest : List Char}
    (h : name.toList = 'o' :: 'n' :: rest) : svgAttribute? name = none := by
  unfold svgAttribute?
  rw [List.find?_eq_none]
  intro svg hsvg hsame
  have hchars : name.toList.map Char.toLower = svg.toList.map Char.toLower :=
    beq_iff_eq.mp hsame
  have hon : (name.toList.map Char.toLower).take 2 = ['o', 'n'] := by
    rw [h]
    rfl
  apply svgAttribute_not_on svg hsvg
  rw [← hchars, hon]

/-- Letters for which `isAlpha` holds are ASCII letters. -/
theorem toNat_lt_of_isAlpha {c : Char} (h : c.isAlpha = true) : c.toNat < 0x80 := by
  have hle : c.toNat ≤ 'Z'.toNat ∨ c.toNat ≤ 'z'.toNat := by
    rcases Bool.or_eq_true_iff.mp h with hupper | hlower
    · exact .inl (UInt32.le_iff_toNat_le.mp (of_decide_eq_true hupper).2)
    · have hboth : (decide (c.val ≥ 'a'.val) && decide (c.val ≤ 'z'.val)) = true := hlower
      exact .inr (UInt32.le_iff_toNat_le.mp (of_decide_eq_true (Bool.and_eq_true_iff.mp hboth).2))
  rcases hle with hle | hle
  · exact Nat.lt_of_le_of_lt hle (by decide)
  · exact Nat.lt_of_le_of_lt hle (by decide)

/-- An ASCII letter in lower case is an ASCII letter. -/
theorem isAlpha_toLower {c : Char} (h : c.isAlpha = true) : c.toLower.isAlpha = true :=
  Text.forall_ascii (P := fun c => c.isAlpha = true → c.toLower.isAlpha = true) (by decide)
    (toNat_lt_of_isAlpha h) h

/-- What is the name of an event handler as it is written is one in the tree. -/
theorem isEventHandler_htmlAttributeName {name : String} (h : isEventHandler name = true) :
    isEventHandler (htmlAttributeName name) = true := by
  obtain ⟨c, rest, hname, hc⟩ := isEventHandler_iff.mp h
  have hlower : (Text.lower name).toList =
      'o' :: 'n' :: c.toLower :: Text.lowerAfter [c, 'n', 'o'] rest := by
    rw [Text.lower, String.toList_ofList, hname, Text.lowerAfter_cons (by decide),
      Text.lowerAfter_cons (by decide), Text.lowerAfter_cons (toNat_lt_of_isAlpha hc)]
    rfl
  have hfinal : htmlAttributeName name = Text.lower name := by
    unfold htmlAttributeName
    dsimp only
    rw [svgAttribute?_eq_none hlower, Option.getD_none]
  rw [hfinal]
  exact isEventHandler_iff.mpr ⟨c.toLower, _, hlower, isAlpha_toLower hc⟩

end MustacheMarkup
