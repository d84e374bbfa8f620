import Mathlib.Data.List.Forall2
import MustacheMarkup.Proofs.Token.Runs
import MustacheMarkup.Proofs.Token.Stretch

/-!
# The pieces of a value

A value is a row of pieces: runs of text, and mustaches with two or three braces. A piece is read as
itself in front of what follows it if it `Stands` there, and whatever is read is a piece that stands
(`exists_piece_of_scanInValue`, `scanInValue_chars`). So the characters of a value are those of its
pieces (`exists_pieces_of_scanValue`), and the same pieces are read wherever the value stands, also
if it goes on behind them (`scanAll_flat`).
-/

set_option autoImplicit false

namespace MustacheMarkup

open Source

/-- A piece of a value as it is written. -/
inductive Piece where
  /-- a run of text -/
  | text (content : List Char)
  /-- what stands between two braces and two braces -/
  | double (content : List Char)
  /-- what stands between three braces and three braces -/
  | triple (content : List Char)

namespace Piece

/-- The characters of a piece. -/
def chars : Piece → List Char
  | .text content => content
  | .double content => ['{', '{'] ++ (content ++ ['}', '}'])
  | .triple content => ['{', '{', '{'] ++ (content ++ ['}', '}', '}'])

/-- What a piece is read as. -/
def lexeme : Piece → Lexeme
  | .text content => .text (String.ofList content)
  | .double content => Lexeme.ofMustache content
  | .triple content => .mustache .unescaped (String.ofList (Text.stripBlanks content))

/-- The piece is read as itself if it is followed by these characters. No mustache starts in a text,
which ends where one does or where nothing is left. A mustache ends with the first braces that can
end it, so what follows it does not matter. -/
def Stands : Piece → List Char → Prop
  | .text content, behind =>
    content ≠ [] ∧ (∀ t, t ≠ [] → t <:+ content → startsMustache (t ++ behind) = false) ∧
      (behind = [] ∨ startsMustache behind = true)
  | .double content, _ =>
    content.head? ≠ some '{' ∧ before? ['}', '}'] (content ++ ['}', '}']) = some content
  | .triple content, _ => before? ['}', '}', '}'] (content ++ ['}', '}', '}']) = some content

/-- A piece that stands somewhere has characters. -/
theorem Stands.chars_ne_nil {p : Piece} {behind : List Char} (h : p.Stands behind) :
    p.chars ≠ [] := by
  cases p with
  | text content => exact h.1
  | double content => exact List.cons_ne_nil _ _
  | triple content => exact List.cons_ne_nil _ _

/-- A piece that stands in front of some characters stands in front of the first of them too, unless
that is a single one. -/
theorem Stands.cut {p : Piece} {behind more : List Char} (h : p.Stands (behind ++ more))
    (hbehind : 2 ≤ behind.length) : p.Stands behind := by
  cases p with
  | text content =>
    obtain ⟨hne, hinside, hend⟩ := h
    refine ⟨hne, fun t ht hsuffix => ?_, .inr ?_⟩
    · have hnot := hinside t ht hsuffix
      rw [← List.append_assoc, Bool.eq_false_iff] at hnot
      rw [Bool.eq_false_iff]
      exact fun hstart => hnot (startsMustache_mono _ more hstart)
    · have hstart : startsMustache (behind ++ more) = true := by
        refine hend.resolve_left fun hnil => ?_
        rw [(List.append_eq_nil_iff.mp hnil).1] at hbehind
        cases hbehind
      exact List.isPrefixOf_iff_prefix.mpr (List.prefix_of_prefix_length_le
        (List.isPrefixOf_iff_prefix.mp hstart) (List.prefix_append behind more) hbehind)
  | double content => exact h
  | triple content => exact h

end Piece

/-! ## One piece -/

/-- What is found between delimiters is passed with them. -/
theorem passes_delimited {src : Source} {opening closing content : List Char}
    (hopening : opening.isPrefixOf src.rest = true)
    (hcontent : before? closing (src.rest.drop opening.length) = some content) :
    src.Passes (opening ++ (content ++ closing))
      (src.advance (opening ++ (content ++ closing)).length) := by
  obtain ⟨rest, hrest⟩ := List.isPrefixOf_iff_prefix.mp hopening
  rw [← hrest, List.drop_left] at hcontent
  obtain ⟨more, rfl⟩ := prefix_of_before? hcontent
  refine @passes_of_rest src _ more ?_
  rw [← hrest, ← List.append_assoc]

/-- What is read as a mustache is a piece, wherever it stands. Its characters are those up to its
closing braces, so it does not depend on what is behind. -/
theorem exists_piece_of_scanMustache {src later : Source} {lexeme : Lexeme}
    (hdouble : startsMustache src.rest = true) (h : scanMustache src = .ok (lexeme, later)) :
    ∃ p : Piece, (∀ behind, p.Stands behind) ∧ p.lexeme = lexeme ∧ src.Passes p.chars later := by
  obtain ⟨content, htriple, hcontent, rfl, rfl⟩ | ⟨content, htriple, hcontent, rfl, rfl⟩ :=
    scanMustache_eq_ok_iff.mp h
  · have hpasses := passes_delimited htriple hcontent
    have hlength : (Piece.triple content).chars.length = content.length + 6 := by
      simp [Piece.chars]
    refine ⟨.triple content, fun _ => before?_self hcontent (by simp), rfl, ?_⟩
    rw [← hlength]
    exact hpasses
  · have hpasses := passes_delimited hdouble hcontent
    have hlength : (Piece.double content).chars.length = content.length + 4 := by
      simp [Piece.chars]
    refine ⟨.double content, fun _ => ⟨?_, before?_self hcontent (by simp)⟩, rfl, ?_⟩
    · -- A third brace would have been part of the delimiter.
      intro hhead
      obtain ⟨rest, rfl⟩ : ∃ rest, content = '{' :: rest := List.head?_eq_some_iff.mp hhead
      rw [hpasses.rest_eq] at htriple
      cases htriple
    · rw [← hlength]
      exact hpasses

/-- What is read in a value is a piece that stands there. -/
theorem exists_piece_of_scanInValue {src later : Source} {lexeme : Lexeme} (hs : src.rest ≠ [])
    (h : scanInValue src = .ok (lexeme, later)) :
    ∃ p : Piece, p.Stands later.rest ∧ p.lexeme = lexeme ∧ src.Passes p.chars later := by
  have hread := h
  obtain ⟨hdouble, h⟩ | ⟨-, h⟩ := scanInValue_cases h
  · obtain ⟨p, hp, hlexeme, hpasses⟩ := exists_piece_of_scanMustache hdouble h
    exact ⟨p, hp later.rest, hlexeme, hpasses⟩
  · obtain ⟨hlexeme, hlater⟩ := Prod.mk.inj (Except.ok.inj h)
    rw [← hlexeme] at hread
    obtain ⟨-, hrun⟩ := isRun_of_scanInValue hs hread
    have hrest := hrun.rest_eq
    have hinside := hrun.inside
    have hne := hrun.ne_empty
    rw [String.toList_ofList] at hrest hinside
    refine ⟨.text _, ⟨fun hnil => hne ?_, hinside, hrun.behind⟩, hlexeme, hrest, hlater.symm⟩
    rw [hnil]

/-- A mustache with two braces is read where it stands. Its content does not start with a brace
then, and does not hold the closing ones. -/
theorem scanMustache_double {src later : Source} {content : List Char}
    (hp : (Piece.double content).Stands later.rest)
    (h : src.Passes (Piece.double content).chars later) :
    scanMustache src = .ok (Lexeme.ofMustache content, later) := by
  obtain ⟨hrest, hlater⟩ := h
  obtain ⟨hhead, hcontent⟩ := hp
  have htriple : ['{', '{', '{'].isPrefixOf src.rest = false := by
    rw [hrest]
    cases content with
    | nil => rfl
    | cons c content =>
      have hc : ('{' == c) = false := by
        rw [beq_eq_false_iff_ne]
        rintro rfl
        exact hhead rfl
      simp [Piece.chars, List.isPrefixOf, hc]
  have hbefore : before? ['}', '}'] (src.rest.drop 2) = some content := by
    rw [hrest]
    exact before?_append hcontent later.rest
  have hlength : (Piece.double content).chars.length = content.length + 4 := by
    simp [Piece.chars]
  rw [hlength] at hlater
  exact scanMustache_eq_ok_iff.mpr (.inr ⟨content, htriple, hbefore, rfl, hlater⟩)

/-- A mustache with three braces is read where it stands. -/
theorem scanMustache_triple {src later : Source} {content : List Char}
    (hp : (Piece.triple content).Stands later.rest)
    (h : src.Passes (Piece.triple content).chars later) :
    scanMustache src =
      .ok (.mustache .unescaped (String.ofList (Text.stripBlanks content)), later) := by
  obtain ⟨hrest, hlater⟩ := h
  have htriple : ['{', '{', '{'].isPrefixOf src.rest = true := by
    rw [hrest]
    rfl
  have hbefore : before? ['}', '}', '}'] (src.rest.drop 3) = some content := by
    rw [hrest]
    exact before?_append hp later.rest
  have hlength : (Piece.triple content).chars.length = content.length + 6 := by
    simp [Piece.chars]
  rw [hlength] at hlater
  exact scanMustache_eq_ok_iff.mpr (.inl ⟨content, htriple, hbefore, rfl, hlater⟩)

/-- A piece that stands somewhere is read there. -/
theorem scanInValue_chars {src later : Source} {p : Piece} (hp : p.Stands later.rest)
    (h : src.Passes p.chars later) : scanInValue src = .ok (p.lexeme, later) := by
  have hrest := h.rest_eq
  cases p with
  | text content =>
    obtain ⟨hne, hinside, hbehind⟩ := hp
    have hstart : startsMustache src.rest = false := by
      rw [hrest]
      exact hinside content hne List.suffix_rfl
    rw [scanInValue_eq_scanText hstart, scanText_append hrest hne hinside hbehind, h.later_eq]
    rfl
  | double content =>
    have hstart : startsMustache src.rest = true := by
      rw [hrest]
      rfl
    rw [scanInValue_eq_scanMustache hstart, scanMustache_double hp h]
    rfl
  | triple content =>
    have hstart : startsMustache src.rest = true := by
      rw [hrest]
      rfl
    rw [scanInValue_eq_scanMustache hstart, scanMustache_triple hp h]
    rfl

/-! ## Pieces one after another -/

namespace Piece

/-- The characters of some pieces. -/
def flat (pieces : List Piece) : List Char :=
  pieces.flatMap chars

/-- The characters of pieces, one before the others. -/
theorem flat_cons (p : Piece) (rest : List Piece) : flat (p :: rest) = p.chars ++ flat rest :=
  List.flatMap_cons

/-- The characters of two lists of pieces are those of the one and those of the other. -/
theorem flat_append (before after : List Piece) :
    flat (before ++ after) = flat before ++ flat after :=
  List.flatMap_append

/-- Each piece stands in front of the pieces behind it and of what follows them. -/
def AllStand : List Piece → List Char → Prop
  | [], _ => True
  | p :: rest, behind => p.Stands (flat rest ++ behind) ∧ AllStand rest behind

/-- Pieces stand in a row exactly if the first ones stand before the others and these stand by
themselves. -/
theorem allStand_append {before after : List Piece} {behind : List Char} :
    AllStand (before ++ after) behind ↔
      AllStand before (flat after ++ behind) ∧ AllStand after behind := by
  induction before with
  | nil => exact (iff_of_eq (true_and _)).symm
  | cons p before ih =>
    rw [List.cons_append, AllStand, AllStand, ih, flat_append, List.append_assoc, and_assoc]

/-- What follows pieces may be cut off behind two characters, since no piece looks further than
that. -/
theorem AllStand.cut {pieces : List Piece} {behind more : List Char}
    (h : AllStand pieces (behind ++ more)) (hbehind : 2 ≤ behind.length) :
    AllStand pieces behind := by
  induction pieces with
  | nil => trivial
  | cons p rest ih =>
    obtain ⟨hp, hrest⟩ := h
    rw [← List.append_assoc] at hp
    refine ⟨hp.cut ?_, ih hrest⟩
    rw [List.length_append]
    omega

end Piece

open Piece

/-- The token is read of the piece, whose characters are those that it covers in the value. -/
structure Token.IsOf (value : List Char) (t : Token) (p : Piece) : Prop where
  lexeme_eq : t.lexeme = p.lexeme
  stretch_eq : stretch value [t] = p.chars
  stop_eq : t.span.stop = t.span.start + p.chars.length

/-- A value is read as the pieces of which it consists, one for each token. Each piece stands before
the ones that follow it. -/
theorem exists_pieces_of_scanValue {value : List Char} {tokens : List Token}
    (h : scanValue .start value = .ok tokens) :
    ∃ pieces, AllStand pieces [] ∧ flat pieces = value ∧
      List.Forall₂ (Token.IsOf value) tokens pieces := by
  have hstart : ReadsIn value 0 value.length ⟨.start, value⟩ :=
    ⟨List.prefix_rfl, Nat.zero_add _, rfl, rfl⟩
  refine scanAll_induction (motive := fun src tokens => src.ReadsIn value 0 value.length →
    ∃ pieces, AllStand pieces [] ∧ flat pieces = src.rest ∧
      List.Forall₂ (Token.IsOf value) tokens pieces) ?_ ?_ h hstart
  · exact fun src hs _ => ⟨[], trivial, hs.symm, .nil⟩
  · intro src lexeme later rest hs hnext _ ih hsrc
    obtain ⟨p, hp, hlexeme, hpasses⟩ := exists_piece_of_scanInValue hs hnext
    obtain ⟨pieces, hstand, hflat, hpieces⟩ := ih (hpasses.readsIn hsrc)
    have hoffset := hpasses.offset_eq hsrc
    refine ⟨p :: pieces, ⟨?_, hstand⟩, ?_, .cons ⟨hlexeme.symm, ?_, hoffset⟩ hpieces⟩
    · rw [hflat, List.append_nil]
      exact hp
    · rw [flat_cons, hflat, hpasses.rest_eq]
    · have hpos : 0 < p.chars.length := List.length_pos_iff.mpr hp.chars_ne_nil
      refine stretch_eq_of_tiles (hsrc.drop_eq.trans hpasses.rest_eq) ⟨rfl, ?_, hoffset⟩
      show src.position.offset < later.position.offset
      omega

/-- The token behind some tokens of a value starts where their pieces end. -/
theorem start_eq_of_tiles {value : List Char} {t : Token} {tokens after : List Token}
    {pieces : List Piece} {first last : Nat}
    (hpieces : List.Forall₂ (Token.IsOf value) tokens pieces)
    (h : Tiles first (tokens ++ t :: after) last) :
    t.span.start = first + (flat pieces).length := by
  induction hpieces generalizing first with
  | nil => exact h.1
  | cons htoken _ ih =>
    rw [ih h.2.2, htoken.stop_eq, h.1, flat_cons, List.length_append, Nat.add_assoc]

/-- Pieces are read in front of what follows them, wherever they stand. Their tokens come first, and
those of what follows are as they would be alone. -/
theorem scanAll_flat {src : Source} {pieces : List Piece} {behind : List Char}
    (hsrc : src.rest = flat pieces ++ behind) (h : AllStand pieces behind) :
    ∃ tokens : List Token, tokens.map Token.lexeme = pieces.map lexeme ∧
      scanAll scanInValue length_rest_scanInValue_lt src =
        (scanAll scanInValue length_rest_scanInValue_lt
          (src.advance (flat pieces).length)).map (tokens ++ ·) := by
  induction pieces generalizing src with
  | nil =>
    refine ⟨[], rfl, ?_⟩
    show _ = Except.map id _
    exact (LawfulFunctor.id_map _).symm
  | cons p pieces ih =>
    obtain ⟨hp, hpieces⟩ := h
    have hsrc' : src.rest = p.chars ++ (flat pieces ++ behind) := by
      rw [hsrc, flat_cons, List.append_assoc]
    have hpasses := passes_of_rest hsrc'
    have hlater := rest_advance_append hsrc'
    have hne : src.rest ≠ [] := by
      rw [hsrc']
      exact List.append_ne_nil_of_left_ne_nil hp.chars_ne_nil _
    obtain ⟨tokens, hlexemes, hscan⟩ := ih hlater hpieces
    rw [← hlater] at hp
    refine ⟨⟨p.lexeme, src.spanTo (src.advance p.chars.length)⟩ :: tokens, ?_, ?_⟩
    · rw [List.map_cons, List.map_cons, hlexemes]
    · rw [scanAll_of_scan hne (scanInValue_chars hp hpasses), hscan, advance_advance, flat_cons,
        List.length_append]
      cases scanAll scanInValue length_rest_scanInValue_lt
        (src.advance (p.chars.length + (flat pieces).length)) <;> rfl

/-- A value that consists of pieces is read as these pieces. -/
theorem scanValue_flat (p : Position) {pieces : List Piece} (h : AllStand pieces []) :
    ∃ tokens : List Token, tokens.map Token.lexeme = pieces.map lexeme ∧
      scanValue p (flat pieces) = .ok tokens := by
  obtain ⟨tokens, hlexemes, hscan⟩ :=
    @scanAll_flat ⟨⟨0, p.line, p.column⟩, flat pieces⟩ pieces [] (List.append_nil _).symm h
  have hdone := @rest_advance_append ⟨⟨0, p.line, p.column⟩, flat pieces⟩ (flat pieces) []
    (List.append_nil _).symm
  refine ⟨tokens, hlexemes, ?_⟩
  rw [scanValue, hscan, scanAll_of_rest_eq_nil hdone, Except.map, List.append_nil]

end MustacheMarkup
