import MustacheMarkup.Text.Blank

/-!
# Places in a source text

A `Source` is a source text that has been read up to some place: the place, and the characters that
are left. All reading goes through `Source.next`, so the place always agrees with what was read.
-/

set_option autoImplicit false

namespace MustacheMarkup

/-- A place in a text: how many characters stand before it, and its line and column from 1. -/
structure Position where
  offset : Nat
  line : Nat
  column : Nat
deriving Repr, DecidableEq, Inhabited

/-- The first place of a text. -/
def Position.start : Position := ⟨0, 1, 1⟩

/-- The place behind one character. A line ends behind its line feed. -/
def Position.next (p : Position) (c : Char) : Position :=
  if c = '\n' then ⟨p.offset + 1, p.line + 1, 1⟩ else ⟨p.offset + 1, p.line, p.column + 1⟩

/-- The place behind a run of characters. -/
def Position.after (p : Position) (s : List Char) : Position :=
  s.foldl Position.next p

/-- The stretch of a text that a token covers, with the line and column where it starts. -/
structure Span where
  start : Nat
  stop : Nat
  line : Nat
  column : Nat
deriving Repr, DecidableEq, Inhabited

/-- A text that has been read up to a place. -/
structure Source where
  /-- the place that has been reached -/
  position : Position
  /-- the characters that are left -/
  rest : List Char

namespace Source

/-- A text that has not been read yet. -/
def ofString (s : String) : Source := ⟨.start, s.toList⟩

/-- Read `n` characters, or all that are left. -/
def advance : Nat → Source → Source
  | 0, src => src
  | _ + 1, ⟨p, []⟩ => ⟨p, []⟩
  | n + 1, ⟨p, c :: rest⟩ => advance n ⟨p.next c, rest⟩

/-- Read the blanks that come next. -/
def skipBlanks (src : Source) : Source :=
  src.advance (src.rest.takeWhile Text.isBlank).length

/-- The span from one place to a later one. -/
def spanTo (src later : Source) : Span :=
  ⟨src.position.offset, later.position.offset, src.position.line, src.position.column⟩

/-- What is left after some characters. -/
@[simp]
theorem rest_advance (n : Nat) (src : Source) : (advance n src).rest = src.rest.drop n := by
  induction n generalizing src with
  | zero => simp [advance]
  | succ n ih =>
    obtain ⟨p, _ | ⟨c, rest⟩⟩ := src
    · simp [advance]
    · simp [advance, ih]

/-- A position moves by the characters that are passed, whatever they are. -/
@[simp]
theorem position_advance (n : Nat) (src : Source) :
    (advance n src).position = src.position.after (src.rest.take n) := by
  induction n generalizing src with
  | zero => simp [advance, Position.after]
  | succ n ih =>
    obtain ⟨p, _ | ⟨c, rest⟩⟩ := src
    · simp [advance, Position.after]
    · simp [advance, ih, Position.after]

/-- Reading never leaves more than there was. -/
theorem length_rest_advance_le (n : Nat) (src : Source) :
    (advance n src).rest.length ≤ src.rest.length := by
  simp

/-- Reading at least one character leaves less than there was. -/
theorem length_rest_advance_lt {n : Nat} {src : Source} (hn : 0 < n) (hs : src.rest ≠ []) :
    (advance n src).rest.length < src.rest.length := by
  have := List.length_pos_iff.mpr hs
  simp
  omega

/-- To skip blanks never adds characters, so reading on after it still ends. -/
theorem length_rest_skipBlanks_le (src : Source) :
    src.skipBlanks.rest.length ≤ src.rest.length :=
  length_rest_advance_le _ _

end Source

end MustacheMarkup
