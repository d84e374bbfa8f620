import MustacheMarkup.Text.Range

/-!
# Blank characters

The blank characters are the 25 characters with the Unicode property White_Space. This module says
which they are, and what it means to strip them from the ends of a text and to squeeze their runs.
-/

set_option autoImplicit false

namespace MustacheMarkup.Text

/-- The ranges of the Unicode property White_Space. -/
def blankRanges : List Range :=
  [⟨0x09, 0x0D⟩, ⟨0x20, 0x20⟩, ⟨0x85, 0x85⟩, ⟨0xA0, 0xA0⟩, ⟨0x1680, 0x1680⟩, ⟨0x2000, 0x200A⟩,
   ⟨0x2028, 0x2029⟩, ⟨0x202F, 0x202F⟩, ⟨0x205F, 0x205F⟩, ⟨0x3000, 0x3000⟩]

/-- Whether a character is blank. -/
def isBlank (c : Char) : Bool :=
  memRanges blankRanges c

/-- The ranges of blanks are in ascending order, as the search in them needs it. -/
theorem blankRanges_ascending : Range.ascending blankRanges = true := by decide

/-- There are as many blanks as the standard lists. -/
theorem blankRanges_total : Range.total blankRanges = 25 := by decide

/-- The blank characters include those of the standard library. -/
theorem isBlank_of_isWhitespace {c : Char} (h : c.isWhitespace = true) : isBlank c = true := by
  simp only [Char.isWhitespace, Bool.or_eq_true, decide_eq_true_eq] at h
  rcases h with ((h | h) | h) | h <;> subst h <;> decide

/-- A list of characters without the blanks at its start. -/
def dropBlanks (s : List Char) : List Char :=
  s.dropWhile isBlank

/-- A list of characters without the blanks at its end. -/
def dropBlanksEnd (s : List Char) : List Char :=
  (dropBlanks s.reverse).reverse

/-- A list of characters without the blanks at either end. -/
def stripBlanks (s : List Char) : List Char :=
  dropBlanksEnd (dropBlanks s)

/-- Every run of blanks becomes one space. The flag says that the character before was blank. -/
def squeezeBlanks : Bool → List Char → List Char
  | _, [] => []
  | afterBlank, c :: rest =>
    if isBlank c then
      if afterBlank then squeezeBlanks true rest else ' ' :: squeezeBlanks true rest
    else c :: squeezeBlanks false rest

/-- A text without the blanks at its start. -/
def trimStart (s : String) : String :=
  String.ofList (dropBlanks s.toList)

/-- A text without the blanks at its end. -/
def trimEnd (s : String) : String :=
  String.ofList (dropBlanksEnd s.toList)

/-- A text in which every run of blanks is one space. -/
def collapse (s : String) : String :=
  String.ofList (squeezeBlanks false s.toList)

end MustacheMarkup.Text
