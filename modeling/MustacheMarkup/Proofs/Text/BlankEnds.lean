import Mathlib.Data.List.TakeWhile
import MustacheMarkup.Text.Blank

/-!
# Blanks at the ends of a text

What trimming and collapsing do to the ends of a text. To trim one end takes its blanks away, which
is everything if there are only blanks, and otherwise leaves the other end as it is. To collapse the
runs of blanks leaves at both ends a blank where there was one.
-/

set_option autoImplicit false

namespace MustacheMarkup.Text

/-- Whether a text starts with a blank. -/
def startsBlank (s : String) : Bool :=
  s.toList.head?.any isBlank

/-- Whether a text ends with a blank. -/
def endsBlank (s : String) : Bool :=
  s.toList.getLast?.any isBlank

/-- Whether a text holds nothing but blanks. -/
def allBlank (s : String) : Bool :=
  s.toList.all isBlank

/-! ## Trimming -/

/-- Nothing is left behind the blanks exactly if there was nothing else. -/
theorem dropBlanks_eq_nil_iff (s : List Char) : dropBlanks s = [] ↔ s.all isBlank = true := by
  rw [dropBlanks, List.dropWhile_eq_nil_iff, List.all_eq_true]

/-- A text is empty after its start was trimmed exactly if it was all blank. -/
theorem isEmpty_trimStart (s : String) : (trimStart s).isEmpty = allBlank s := by
  rw [Bool.eq_iff_iff, String.isEmpty_iff, ← String.toList_eq_nil_iff, trimStart,
    String.toList_ofList, dropBlanks_eq_nil_iff, allBlank]

/-- A text is empty after its end was trimmed exactly if it was all blank. -/
theorem isEmpty_trimEnd (s : String) : (trimEnd s).isEmpty = allBlank s := by
  rw [Bool.eq_iff_iff, String.isEmpty_iff, ← String.toList_eq_nil_iff, trimEnd,
    String.toList_ofList, dropBlanksEnd, List.reverse_eq_nil_iff, dropBlanks_eq_nil_iff,
    List.all_reverse, allBlank]

/-- Behind blanks that are dropped stands no blank. -/
theorem head?_dropBlanks (s : List Char) : (dropBlanks s).head?.any isBlank = false := by
  have hhead := List.head?_dropWhile_not isBlank s
  unfold dropBlanks
  cases hdrop : s.dropWhile isBlank with
  | nil => rfl
  | cons c rest => simpa [hdrop] using hhead

/-- Blanks at the start are no matter of the end, unless they are all there is. -/
theorem getLast?_dropBlanks {s : List Char} (h : s.all isBlank = false) :
    (dropBlanks s).getLast? = s.getLast? := by
  have hne : dropBlanks s ≠ [] := by
    rw [Ne, dropBlanks_eq_nil_iff, h]
    exact Bool.false_ne_true
  have happend : s.takeWhile isBlank ++ dropBlanks s = s := List.takeWhile_append_dropWhile
  have hlast : s.getLast? = (s.takeWhile isBlank ++ dropBlanks s).getLast? := by rw [happend]
  rw [hlast, List.getLast?_append, List.getLast?_eq_some_getLast hne, Option.some_or]

/-- A text that is trimmed at its start does not start with a blank. -/
theorem startsBlank_trimStart (s : String) : startsBlank (trimStart s) = false := by
  rw [startsBlank, trimStart, String.toList_ofList, head?_dropBlanks]

/-- A text that is trimmed at its end does not end with a blank. -/
theorem endsBlank_trimEnd (s : String) : endsBlank (trimEnd s) = false := by
  rw [endsBlank, trimEnd, String.toList_ofList, dropBlanksEnd, List.getLast?_reverse,
    head?_dropBlanks]

/-- To trim the start does not change whether a text ends with a blank, unless it has
nothing else. -/
theorem endsBlank_trimStart {s : String} (h : allBlank s = false) :
    endsBlank (trimStart s) = endsBlank s := by
  rw [endsBlank, trimStart, String.toList_ofList, getLast?_dropBlanks h, endsBlank]

/-- To trim the end does not change whether a text starts with a blank, unless it has
nothing else. -/
theorem startsBlank_trimEnd {s : String} (h : allBlank s = false) :
    startsBlank (trimEnd s) = startsBlank s := by
  have hreverse : s.toList.reverse.all isBlank = false := by
    rw [List.all_reverse]
    exact h
  rw [startsBlank, trimEnd, String.toList_ofList, dropBlanksEnd, List.head?_reverse,
    getLast?_dropBlanks hreverse, List.getLast?_reverse, startsBlank]

/-- To strip a text of blanks is to trim its start, then its end. -/
theorem ofList_stripBlanks (s : List Char) :
    String.ofList (stripBlanks s) = trimEnd (trimStart (String.ofList s)) := by
  rw [trimEnd, trimStart, String.toList_ofList, String.toList_ofList, stripBlanks]

/-- A text that is stripped does not start with a blank. -/
theorem startsBlank_stripBlanks (s : List Char) :
    startsBlank (String.ofList (stripBlanks s)) = false := by
  rw [ofList_stripBlanks]
  cases hall : allBlank (trimStart (String.ofList s)) with
  | false => rw [startsBlank_trimEnd hall, startsBlank_trimStart]
  | true =>
    rw [← isEmpty_trimEnd, String.isEmpty_iff] at hall
    rw [hall]
    rfl

/-- A text that is stripped does not end with a blank. -/
theorem endsBlank_stripBlanks (s : List Char) :
    endsBlank (String.ofList (stripBlanks s)) = false := by
  rw [ofList_stripBlanks, endsBlank_trimEnd]

/-- What is stripped of its blanks is a part of the text, without gaps. -/
theorem infix_stripBlanks (s : List Char) : stripBlanks s <:+: s := by
  have hstart : dropBlanks s <:+ s := List.dropWhile_suffix isBlank
  have hend : stripBlanks s <+: dropBlanks s := by
    rw [stripBlanks, dropBlanksEnd, ← List.reverse_suffix, List.reverse_reverse]
    exact List.dropWhile_suffix isBlank
  exact hend.isInfix.trans hstart.isInfix

/-! ## Collapsing -/

/-- A space is a blank. -/
theorem isBlank_space : isBlank ' ' = true := by decide

/-- To squeeze blanks does not change whether there is anything else. -/
theorem all_squeezeBlanks (afterBlank : Bool) (s : List Char) :
    (squeezeBlanks afterBlank s).all isBlank = s.all isBlank := by
  fun_induction squeezeBlanks afterBlank s with
  | case1 => rfl
  | case2 c rest hc ih => rw [ih, List.all_cons, hc, Bool.true_and]
  | case3 afterBlank c rest hc _ ih => rw [List.all_cons, List.all_cons, ih, hc, isBlank_space]
  | case4 afterBlank c rest hc ih => rw [List.all_cons, List.all_cons, ih]

/-- Whether some characters end with a blank, if those before them do or do not. -/
def endsBlankAfter (before : Bool) (s : List Char) : Bool :=
  (s.getLast?.map isBlank).getD before

/-- Whether a text ends with a blank is seen at its last character, whatever came before. -/
theorem endsBlankAfter_cons (before : Bool) (c : Char) (rest : List Char) :
    endsBlankAfter before (c :: rest) = endsBlankAfter (isBlank c) rest := by
  rw [endsBlankAfter, endsBlankAfter, List.getLast?_cons]
  cases rest.getLast? <;> rfl

/-- To squeeze blanks does not change whether a text ends with one, since a blank stands for each
row of them. -/
theorem endsBlankAfter_squeezeBlanks (before : Bool) (s : List Char) :
    endsBlankAfter before (squeezeBlanks before s) = endsBlankAfter before s := by
  fun_induction squeezeBlanks before s with
  | case1 => rfl
  | case2 c rest hc ih => rw [ih, endsBlankAfter_cons, hc]
  | case3 before c rest hc _ ih =>
    rw [endsBlankAfter_cons, endsBlankAfter_cons, isBlank_space, hc, ih]
  | case4 before c rest hc ih =>
    rw [Bool.not_eq_true] at hc
    rw [endsBlankAfter_cons, endsBlankAfter_cons, hc, ih]

/-- A text ends with a blank if it does so behind nothing. -/
theorem endsBlank_eq (s : String) : endsBlank s = endsBlankAfter false s.toList := by
  unfold endsBlank endsBlankAfter
  cases s.toList.getLast? <;> rfl

/-- To collapse blanks does not change whether there is anything else. -/
theorem allBlank_collapse (s : String) : allBlank (collapse s) = allBlank s := by
  rw [allBlank, collapse, String.toList_ofList, all_squeezeBlanks, allBlank]

/-- To collapse blanks does not change whether a text starts with one. -/
theorem startsBlank_collapse (s : String) : startsBlank (collapse s) = startsBlank s := by
  rw [startsBlank, collapse, String.toList_ofList, startsBlank]
  cases s.toList with
  | nil => rfl
  | cons c rest =>
    rw [squeezeBlanks, if_neg Bool.false_ne_true]
    split
    · rename_i hc
      rw [List.head?_cons, List.head?_cons, Option.any_some, Option.any_some, isBlank_space, hc]
    · rfl

/-- To collapse blanks does not change whether a text ends with one. -/
theorem endsBlank_collapse (s : String) : endsBlank (collapse s) = endsBlank s := by
  rw [endsBlank_eq, collapse, String.toList_ofList, endsBlankAfter_squeezeBlanks, endsBlank_eq]

end MustacheMarkup.Text
