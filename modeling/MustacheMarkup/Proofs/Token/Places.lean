import Mathlib.Data.List.TakeWhile
import MustacheMarkup.Proofs.Token.Reading

/-!
# Where the tokens of a file stand

Lines and columns are carried along while a file is read. Here they are counted from the file
itself: `lineBehind` and `columnBehind` say what they are behind given characters. A source that
agrees with the file in this sense still agrees after reading on (`Source.ReadsIn.advance`), and
everything that reads a token does nothing but read on. So the tokens of a file cover it without a
gap, each where its line and column say.

The value of an attribute is read from characters of its own, with offsets that start from zero
again, but with the line and column that the value has in the file. Its tokens cover the value in
the same sense, moved by the offset at which the value stands (`Covers`).
-/

set_option autoImplicit false

namespace MustacheMarkup

/-! ## Lines and columns -/

/-- The line behind some characters: how many line feeds are among them, counted from one. -/
def lineBehind (s : List Char) : Nat :=
  s.count '\n' + 1

/-- The column behind some characters: how many of them stand behind the last line feed, counted
from one. -/
def columnBehind (s : List Char) : Nat :=
  (s.reverse.takeWhile (· != '\n')).length + 1

/-- The line behind one character more. -/
theorem lineBehind_concat (s : List Char) (c : Char) :
    lineBehind (s ++ [c]) = if c = '\n' then lineBehind s + 1 else lineBehind s := by
  unfold lineBehind
  rw [List.count_append, List.count_singleton]
  split <;> simp_all

/-- The column behind one character more. A line feed starts a new line. -/
theorem columnBehind_concat (s : List Char) (c : Char) :
    columnBehind (s ++ [c]) = if c = '\n' then 1 else columnBehind s + 1 := by
  unfold columnBehind
  rw [List.reverse_append, List.reverse_singleton, List.singleton_append, List.takeWhile_cons]
  split <;> simp_all

/-! ## Characters of a file -/

/-- Some characters stand in a file from an offset on. -/
def StandsAt (file : List Char) (offset : Nat) (s : List Char) : Prop :=
  s <+: file.drop offset

/-- Two stretches stand one behind the other in a file exactly if each stands in its place. -/
theorem standsAt_append {file s t : List Char} {offset : Nat} :
    StandsAt file offset (s ++ t) ↔
      StandsAt file offset s ∧ StandsAt file (offset + s.length) t := by
  unfold StandsAt
  constructor
  · rintro ⟨rest, hrest⟩
    rw [List.append_assoc] at hrest
    refine ⟨⟨t ++ rest, hrest⟩, rest, ?_⟩
    rw [← List.drop_drop, ← hrest, List.drop_left]
  · rintro ⟨⟨rest, hrest⟩, more, hmore⟩
    rw [← List.drop_drop, ← hrest, List.drop_left] at hmore
    exact ⟨more, by rw [List.append_assoc, hmore, hrest]⟩

/-- The file up to one character more, if that character stands there. -/
theorem take_add_one_of_standsAt {file rest : List Char} {c : Char} {offset : Nat}
    (h : StandsAt file offset (c :: rest)) : file.take (offset + 1) = file.take offset ++ [c] := by
  obtain ⟨more, hmore⟩ := h
  rw [List.take_add, ← hmore]
  rfl

/-- A source reads a stretch of a file, from the offset `first` up to the offset `last`, and its
position is the place in the file that it has reached. -/
structure Source.ReadsIn (file : List Char) (first last : Nat) (src : Source) : Prop where
  stands : StandsAt file (first + src.position.offset) src.rest
  last_eq : first + src.position.offset + src.rest.length = last
  line_eq : src.position.line = lineBehind (file.take (first + src.position.offset))
  column_eq : src.position.column = columnBehind (file.take (first + src.position.offset))

namespace Source

/-- To read one character leads to the next place in the file. The line and the column are those
that the characters before it make. -/
theorem ReadsIn.next {file rest : List Char} {first last : Nat} {p : Position} {c : Char}
    (h : ReadsIn file first last ⟨p, c :: rest⟩) : ReadsIn file first last ⟨p.next c, rest⟩ := by
  obtain ⟨hstands, hlast, hline, hcolumn⟩ := h
  have htake := take_add_one_of_standsAt hstands
  have htail := (standsAt_append.mp (show StandsAt file _ ([c] ++ rest) from hstands)).2
  have hoffset : (p.next c).offset = p.offset + 1 := by
    unfold Position.next
    split <;> rfl
  dsimp only at hlast hline hcolumn
  rw [List.length_cons] at hlast
  constructor
  · rw [hoffset]
    exact htail
  · rw [hoffset]
    dsimp only
    omega
  · rw [hoffset, ← Nat.add_assoc, htake, lineBehind_concat, ← hline]
    unfold Position.next
    split <;> rfl
  · rw [hoffset, ← Nat.add_assoc, htake, columnBehind_concat, ← hcolumn]
    unfold Position.next
    split <;> rfl

/-- Reading goes on in the same file, and its position stays the place that it has reached. -/
theorem ReadsIn.advance {file : List Char} {first last : Nat} {src : Source}
    (h : src.ReadsIn file first last) (n : Nat) : (src.advance n).ReadsIn file first last := by
  induction n generalizing src with
  | zero => exact h
  | succ n ih =>
    obtain ⟨p, _ | ⟨c, rest⟩⟩ := src
    · exact h
    · exact ih h.next

/-- What is left of a source that reads a whole file is what stands in the file from there on. -/
theorem ReadsIn.drop_eq {file : List Char} {src : Source} (h : src.ReadsIn file 0 file.length) :
    file.drop src.position.offset = src.rest := by
  have hstands := h.stands
  have hlast := h.last_eq
  unfold StandsAt at hstands
  rw [Nat.zero_add] at hstands hlast
  refine (hstands.eq_of_length ?_).symm
  rw [List.length_drop]
  omega

/-- To go on twice is to go on by both numbers. -/
theorem advance_advance (m n : Nat) (src : Source) :
    (src.advance m).advance n = src.advance (m + n) := by
  induction m generalizing src with
  | zero => rw [Nat.zero_add]; rfl
  | succ m ih =>
    obtain ⟨p, _ | ⟨c, rest⟩⟩ := src
    · cases n <;> rfl
    · rw [Nat.add_right_comm]
      exact ih ⟨p.next c, rest⟩

/-- Reading certain characters leads from one place to another. -/
structure Passes (src : Source) (s : List Char) (later : Source) : Prop where
  rest_eq : src.rest = s ++ later.rest
  later_eq : later = src.advance s.length

/-- What is left starts with some characters, so these can be passed. -/
theorem passes_of_rest {src : Source} {s rest : List Char} (h : src.rest = s ++ rest) :
    src.Passes s (src.advance s.length) := by
  refine ⟨?_, rfl⟩
  rw [rest_advance_append h]
  exact h

/-- What is skipped are blanks. -/
theorem exists_passes_skipBlanks (src : Source) :
    ∃ blanks, (∀ c ∈ blanks, Text.isBlank c = true) ∧ src.Passes blanks src.skipBlanks :=
  ⟨_, fun _ => List.mem_takeWhile_imp, passes_of_rest List.takeWhile_append_dropWhile.symm⟩

/-- What is passed in two steps stands side by side. -/
theorem Passes.trans {src mid later : Source} {s t : List Char} (h : src.Passes s mid)
    (h' : mid.Passes t later) : src.Passes (s ++ t) later := by
  obtain ⟨hrest, rfl⟩ := h
  obtain ⟨hrest', rfl⟩ := h'
  rw [hrest'] at hrest
  refine ⟨?_, ?_⟩
  · rw [List.append_assoc]
    exact hrest
  · rw [advance_advance, List.length_append]

/-- Behind what is passed, the same file is read. -/
theorem Passes.readsIn {file s : List Char} {first last : Nat} {src later : Source}
    (h : src.Passes s later) (hsrc : src.ReadsIn file first last) :
    later.ReadsIn file first last := by
  rw [h.later_eq]
  exact hsrc.advance s.length

/-- The offset moves on by as many characters as are passed. -/
theorem Passes.offset_eq {file s : List Char} {first last : Nat} {src later : Source}
    (h : src.Passes s later) (hsrc : src.ReadsIn file first last) :
    later.position.offset = src.position.offset + s.length := by
  have hlast := hsrc.last_eq
  have hlast' := (h.readsIn hsrc).last_eq
  rw [h.rest_eq, List.length_append] at hlast
  omega

/-- What is passed stands in the file. -/
theorem Passes.stands {file s : List Char} {first last : Nat} {src later : Source}
    (h : src.Passes s later) (hsrc : src.ReadsIn file first last) :
    StandsAt file (first + src.position.offset) s := by
  have hstands := hsrc.stands
  rw [h.rest_eq] at hstands
  exact (standsAt_append.mp hstands).1

/-- From one place, reading on leads to another. -/
def LeadsTo (src later : Source) : Prop :=
  ∃ n, later = src.advance n

/-- What is passed leads on. -/
theorem Passes.leadsTo {src later : Source} {s : List Char} (h : src.Passes s later) :
    src.LeadsTo later :=
  ⟨s.length, h.later_eq⟩

/-- To be led on twice is to be led on. -/
theorem LeadsTo.trans {src mid later : Source} (h : src.LeadsTo mid) (h' : mid.LeadsTo later) :
    src.LeadsTo later := by
  obtain ⟨m, rfl⟩ := h
  obtain ⟨n, rfl⟩ := h'
  exact ⟨m + n, advance_advance m n src⟩

/-- Where reading leads, the same file is read. -/
theorem LeadsTo.readsIn {file : List Char} {first last : Nat} {src later : Source}
    (h : src.LeadsTo later) (hsrc : src.ReadsIn file first last) :
    later.ReadsIn file first last := by
  obtain ⟨n, rfl⟩ := h
  exact hsrc.advance n

end Source

/-! ## Tokens that cover a stretch -/

/-- The tokens cover the offsets from `first` to `last`: each starts where the one before it stops,
and has at least one character. -/
def Tiles : Nat → List Token → Nat → Prop
  | first, [], last => first = last
  | first, t :: rest, last =>
    t.span.start = first ∧ first < t.span.stop ∧ Tiles t.span.stop rest last

/-- The line and column of a token are those of the place where it starts in a file. Its offsets
count from the offset `first` of the file. -/
def Token.PlacedIn (file : List Char) (first : Nat) (t : Token) : Prop :=
  t.span.line = lineBehind (file.take (first + t.span.start)) ∧
    t.span.column = columnBehind (file.take (first + t.span.start))

/-- Tokens cover so many characters of a file from the offset `first` on, from which their own
offsets count, and each has the line and column of its place in the file. -/
structure Covers (file : List Char) (first : Nat) (tokens : List Token) (length : Nat) : Prop where
  tiles : Tiles 0 tokens length
  placed : ∀ t ∈ tokens, t.PlacedIn file first

section

variable {scan : Source → Except ScanError (Lexeme × Source)}
  {shrinks : ∀ {src lexeme later}, src.rest ≠ [] → scan src = .ok (lexeme, later) →
    later.rest.length < src.rest.length}

/-- Tokens that are read one after another cover what they are read from, if to read one is to read
on. -/
theorem covers_of_scanAll {file : List Char} {first last : Nat}
    (hscan : ∀ src lexeme later, src.ReadsIn file first last → scan src = .ok (lexeme, later) →
      src.LeadsTo later)
    {src : Source} {tokens : List Token} (h : scanAll scan shrinks src = .ok tokens)
    (hsrc : src.ReadsIn file first last) :
    Tiles src.position.offset tokens (src.position.offset + src.rest.length) ∧
      ∀ t ∈ tokens, t.PlacedIn file first := by
  refine scanAll_induction (motive := fun src tokens => src.ReadsIn file first last →
    Tiles src.position.offset tokens (src.position.offset + src.rest.length) ∧
      ∀ t ∈ tokens, t.PlacedIn file first) ?_ ?_ h hsrc
  · intro src hs _
    exact ⟨by rw [hs]; rfl, List.forall_mem_nil _⟩
  · intro src lexeme later rest hs hnext hrest ih hsrc
    have hlater := (hscan src lexeme later hsrc hnext).readsIn hsrc
    obtain ⟨htiles, hplaced⟩ := ih hlater
    have hshrinks := shrinks hs hnext
    have hend := hsrc.last_eq
    have hend' := hlater.last_eq
    have hoffset : later.position.offset + later.rest.length =
        src.position.offset + src.rest.length := by omega
    rw [hoffset] at htiles
    have hforward : src.position.offset < later.position.offset := by omega
    refine ⟨⟨rfl, hforward, htiles⟩, List.forall_mem_cons.mpr ⟨?_, hplaced⟩⟩
    exact ⟨hsrc.line_eq, hsrc.column_eq⟩

end

end MustacheMarkup
