import MustacheMarkup.Attribute.Build
import MustacheMarkup.Proofs.Attribute.EventHandler
import MustacheMarkup.Proofs.Token.Values

/-!
# Names of attributes

A name that was read in a tag can be read again, and so can the name that the attribute has in the
tree. That name is final: it is in lower case or as SVG has it, and stays as it is if it is taken
for the name of another attribute.
-/

set_option autoImplicit false

namespace MustacheMarkup

open Vocabulary

/-- A name that can be read: characters of names, or one of the characters that no name can hold but
that are read alone. -/
def ReadableName (name : String) : Prop :=
  (name ≠ "" ∧ ∀ c ∈ name.toList, isAttributeNameChar c = true) ∨
    name = "=" ∨ name = "\"" ∨ name = "'"

/-- A name is readable if it is not empty and all its characters may stand in names. -/
theorem readableName_of_all {name : String} (hne : name ≠ "")
    (h : name.toList.all isAttributeNameChar = true) : ReadableName name :=
  Or.inl ⟨hne, List.all_eq_true.mp h⟩

/-- The first character of a name that can be read. -/
theorem ReadableName.exists_cons {name : String} (h : ReadableName name) :
    ∃ c s, name.toList = c :: s ∧ Text.isBlank c = false ∧ c ≠ '/' ∧ c ≠ '>' ∧
      (c = '=' → name = "=") := by
  obtain ⟨hne, hchars⟩ | rfl | rfl | rfl := h
  · obtain ⟨c, s, hcs⟩ := List.exists_cons_of_ne_nil fun hnil =>
      hne (String.toList_eq_nil_iff.mp hnil)
    have hc := hchars c (by rw [hcs]; exact List.mem_cons_self)
    simp only [isAttributeNameChar, Bool.not_eq_true', Bool.or_eq_false_iff,
      beq_eq_false_iff_ne] at hc
    obtain ⟨⟨⟨⟨⟨hblank, heq⟩, hslash⟩, hgt⟩, -⟩, -⟩ := hc
    exact ⟨c, s, hcs, hblank, hslash, hgt, fun h => absurd h heq⟩
  · exact ⟨'=', [], rfl, by decide, by decide, by decide, fun _ => rfl⟩
  · exact ⟨'"', [], rfl, by decide, by decide, by decide, fun h => absurd h (by decide)⟩
  · exact ⟨'\'', [], rfl, by decide, by decide, by decide, fun h => absurd h (by decide)⟩

/-- A readable name has a first character. -/
theorem ReadableName.ne_empty {name : String} (h : ReadableName name) : name ≠ "" := by
  rintro rfl
  obtain ⟨c, s, hcs, -⟩ := h.exists_cons
  cases hcs

/-- Every name that is read can be read: the first character is taken whatever it is, as long as the
tag goes on with an attribute there, and all others are characters of names. -/
theorem readableName_of_scanAttribute {src later : Source} {c : Char} {rest : List Char}
    {a : RawAttribute} (hsrc : src.rest = c :: rest) (hblank : Text.isBlank c = false)
    (hbracket : c ≠ '>') (hslash : c ≠ '/') (h : scanAttribute src = .ok (a, later)) :
    ReadableName a.name := by
  have hname : a.name = String.ofList (attributeName src.rest) := by
    obtain ⟨rest, tokens, -, -, rfl⟩ | ⟨-, rfl, -⟩ := scanAttribute_eq_ok_iff.mp h
    · rfl
    · rfl
  rw [hname, hsrc]
  unfold attributeName
  split
  · rename_i hnone
    have hc : isAttributeNameChar c = false := by
      rw [Bool.eq_false_iff]
      intro hc
      rw [List.takeWhile_cons_of_pos hc] at hnone
      cases hnone
    simp only [isAttributeNameChar, hblank, Bool.not_eq_false', Bool.or_eq_true, beq_iff_eq,
      Bool.false_or] at hc
    rcases hc with (((rfl | rfl) | rfl) | rfl) | rfl
    · exact Or.inr (Or.inl rfl)
    · exact absurd rfl hslash
    · exact absurd rfl hbracket
    · exact Or.inr (Or.inr (Or.inl rfl))
    · exact Or.inr (Or.inr (Or.inr rfl))
  · rename_i hne
    refine Or.inl ⟨fun hempty => ?_, fun d hd => ?_⟩
    · exact hne (by rw [← String.toList_eq_nil_iff.mpr hempty, String.toList_ofList])
    · rw [String.toList_ofList] at hd
      exact List.all_eq_true.mp List.all_takeWhile d hd

/-- ASCII letters may stand in the names of attributes. -/
theorem isAttributeNameChar_of_isAlpha {c : Char} (h : c.isAlpha = true) :
    isAttributeNameChar c = true :=
  Text.forall_ascii (P := fun c => c.isAlpha = true → isAttributeNameChar c = true) (by decide)
    (toNat_lt_of_isAlpha h) h

/-- The names that SVG writes in mixed case are readable and in ASCII, entry by entry. -/
theorem chars_of_mem_svgAttributes : ∀ name ∈ svgAttributes,
    name ≠ "" ∧ ∀ c ∈ name.toList, isAttributeNameChar c = true ∧ c.toNat < 0x80 := by
  have hall : (svgAttributes.all fun name =>
      !name.toList.isEmpty && name.toList.all Char.isAlpha) = true := by
    decide +kernel
  intro name hname
  have hletters := List.all_eq_true.mp hall name hname
  rw [Bool.and_eq_true, Bool.not_eq_true', List.isEmpty_eq_false_iff] at hletters
  obtain ⟨hne, hletters⟩ := hletters
  refine ⟨fun hempty => hne (String.toList_eq_nil_iff.mpr hempty), fun c hc => ?_⟩
  have hletter := List.all_eq_true.mp hletters c hc
  exact ⟨isAttributeNameChar_of_isAlpha hletter, toNat_lt_of_isAlpha hletter⟩

/-- Lower case makes no difference where the case of ASCII letters does not count. -/
theorem sameAscii_lower {name : String} (h : ∀ c ∈ name.toList, c.toNat < 0x80) :
    sameAscii (Text.lower name) = sameAscii name := by
  have hchars : (Text.lower name).toList.map Char.toLower = name.toList.map Char.toLower := by
    rw [Text.lower, String.toList_ofList, Text.lowerAfter_ascii h, List.map_map]
    refine List.map_congr_left fun c hc => ?_
    exact Text.forall_ascii (P := fun c => c.toLower.toLower = c.toLower) (by decide) (h c hc)
  funext other
  unfold sameAscii
  rw [hchars]

/-- An attribute of SVG is found by its name in lower case. -/
theorem svgAttribute?_lower {name svg : String} (h : svgAttribute? name = some svg) :
    svgAttribute? (Text.lower svg) = some svg := by
  have hmem := List.mem_of_find?_eq_some h
  have hsame : sameAscii name svg = true := List.find?_some h
  have hpred : sameAscii svg = sameAscii name := by
    funext other
    unfold sameAscii at hsame ⊢
    rw [beq_iff_eq.mp hsame]
  rw [← h, svgAttribute?, svgAttribute?,
    sameAscii_lower fun c hc => ((chars_of_mem_svgAttributes svg hmem).2 c hc).2, hpred]

/-- The name that an attribute has in the tree can be read if its own can, since neither lower case
nor the spelling of SVG brings in a character that ends a name. -/
theorem readableName_htmlAttributeName {name : String} (h : ReadableName name) :
    ReadableName (htmlAttributeName name) := by
  obtain ⟨hne, hchars⟩ | rfl | rfl | rfl := h
  · refine Or.inl ?_
    unfold htmlAttributeName
    dsimp only
    cases hsvg : svgAttribute? (Text.lower name) with
    | none =>
      obtain ⟨c, s, hcs⟩ := List.exists_cons_of_ne_nil fun hnil =>
        hne (String.toList_eq_nil_iff.mp hnil)
      rw [Option.getD_none, Text.lower]
      refine ⟨fun hempty => ?_, fun c hc => ?_⟩
      · rw [← String.toList_eq_nil_iff, String.toList_ofList, hcs, Text.lowerAfter,
          List.append_eq_nil_iff] at hempty
        revert hempty
        split
        · simp
        · split
          · simp
          · simp
      · rw [String.toList_ofList] at hc
        exact Text.isAttributeNameChar_of_mem_lowerAfter hchars hc
    | some svg =>
      obtain ⟨hne, hchars⟩ := chars_of_mem_svgAttributes svg (List.mem_of_find?_eq_some hsvg)
      exact ⟨hne, fun c hc => (hchars c hc).1⟩
  · exact Or.inr (Or.inl (by decide))
  · exact Or.inr (Or.inr (Or.inl (by decide)))
  · exact Or.inr (Or.inr (Or.inr (by decide)))

/-- The name that an attribute has in the tree is final. -/
@[simp]
theorem htmlAttributeName_htmlAttributeName (name : String) :
    htmlAttributeName (htmlAttributeName name) = htmlAttributeName name := by
  have hname : htmlAttributeName name = (svgAttribute? (Text.lower name)).getD (Text.lower name) :=
    rfl
  rw [hname]
  cases hsvg : svgAttribute? (Text.lower name) with
  | none =>
    rw [Option.getD_none, htmlAttributeName, Text.lower_lower, hsvg, Option.getD_none]
  | some svg =>
    rw [Option.getD_some, htmlAttributeName, svgAttribute?_lower hsvg, Option.getD_some]

end MustacheMarkup
