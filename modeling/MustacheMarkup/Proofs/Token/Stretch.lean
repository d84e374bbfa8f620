import MustacheMarkup.Proofs.Journal.Success
import MustacheMarkup.Proofs.Token.Excerpt

/-!
# Stretches of a file

Some tokens of a file that stand one after another are the tokens of the stretch they cover, taken
alone (`tokenize_stretch`). Reading a file can start at any of its tokens (`exists_drop_tokens`),
and it can stop behind any of them, since a token is read without looking at what follows it, except
that a run of text ends there (`exists_take_tokens`).
-/

set_option autoImplicit false

namespace MustacheMarkup

open Source

/-- The characters that some tokens cover in a file, from the start of the first to the end of the
last. -/
def stretch (file : List Char) : List Token → List Char
  | [] => []
  | t :: rest => (file.take (rest.getLastD t).span.stop).drop t.span.start

/-- Tokens of a file as they are in the file from the first of them on, taken alone. -/
def sinceFirst : List Token → List Token
  | [] => []
  | t :: rest => (t :: rest).map (Token.since ⟨t.span.start, t.span.line, t.span.column⟩)

/-- Tokens that cover offsets start at the first of these, and the last one stops at the last. -/
theorem Tiles.ends {t : Token} {rest : List Token} {first last : Nat}
    (h : Tiles first (t :: rest) last) :
    t.span.start = first ∧ (rest.getLastD t).span.stop = last := by
  induction rest generalizing t first with
  | nil => exact ⟨h.1, h.2.2⟩
  | cons t' rest ih =>
    rw [List.getLastD_cons]
    exact ⟨h.1, (ih h.2.2).2⟩

/-- What tokens of a file cover from a place on stands in the file there. -/
theorem stretch_eq_of_tiles {file : List Char} {own gone : List Char} {first : Nat} {t : Token}
    {rest : List Token} (hfile : file.drop first = own ++ gone)
    (h : Tiles first (t :: rest) (first + own.length)) : stretch file (t :: rest) = own := by
  obtain ⟨hstart, hstop⟩ := h.ends
  rw [stretch, hstart, hstop, List.drop_take, hfile, Nat.add_sub_cancel_left, List.take_left]

/-- Behind any of its tokens a source can be read on to those that follow. -/
theorem exists_drop_tokens {file : List Char} {src : Source} {tokens : List Token}
    (hsrc : src.ReadsIn file 0 file.length) (h : src.tokens = .ok tokens) (i : Nat) :
    ∃ later : Source, later.ReadsIn file 0 file.length ∧ later.tokens = .ok (tokens.drop i) := by
  refine scanAll_induction (motive := fun src tokens => src.ReadsIn file 0 file.length → ∀ i,
    ∃ later : Source, later.ReadsIn file 0 file.length ∧ later.tokens = .ok (tokens.drop i))
    ?_ ?_ h hsrc i
  · intro src hs hsrc i
    exact ⟨src, hsrc, by rw [List.drop_nil]; exact scanAll_of_rest_eq_nil hs⟩
  · intro src lexeme later rest hs hnext hrest ih hsrc i
    cases i with
    | zero => exact ⟨src, hsrc, by rw [Source.tokens, scanAll_of_scan hs hnext, hrest]; rfl⟩
    | succ i => exact ih ((stands_of_scanNext hsrc hnext).1.readsIn hsrc) i

/-- The first token of a source has the place of the source. -/
theorem position_eq_of_tokens {src : Source} {t : Token} {rest : List Token}
    (h : src.tokens = .ok (t :: rest)) :
    src.position = ⟨t.span.start, t.span.line, t.span.column⟩ := by
  by_cases hs : src.rest = []
  · rw [Source.tokens, scanAll_of_rest_eq_nil hs] at h
    cases h
  · obtain ⟨lexeme, later, rest', -, -, htokens⟩ := exists_of_scanAll hs h
    rw [(List.cons.inj htokens).1]
    rfl

/-- A source can be cut off behind the characters `own`, which are those of the given tokens: every
excerpt of the source that ends there has these tokens and no others. -/
structure CutBehind (src : Source) (tokens : List Token) (own gone : List Char) : Prop where
  rest_eq : src.rest = own ++ gone
  tiles : Tiles src.position.offset tokens (src.position.offset + own.length)
  starts : own = [] ∨ endsText own = endsText src.rest
  tokens_eq : ∀ origin part, Excerpt origin gone src part →
    part.tokens = .ok (tokens.map (Token.since origin))

/-- Before its first token a source can be cut off. -/
theorem cutBehind_nil (src : Source) : CutBehind src [] [] src.rest where
  rest_eq := rfl
  tiles := rfl
  starts := .inl rfl
  tokens_eq _ _ hpart := scanAll_of_rest_eq_nil (List.self_eq_append_left.mp hpart.rest_eq)

/-- If what follows a token can be cut off somewhere, so can the token with it. A text needs care:
it ends the same only if the same thing follows, or nothing. -/
theorem CutBehind.cons {file own gone : List Char} {src later : Source} {lexeme : Lexeme}
    {tokens : List Token} (hsrc : src.ReadsIn file 0 file.length) (hs : src.rest ≠ [])
    (hnext : scanNext src = .ok (lexeme, later)) (h : CutBehind later tokens own gone) :
    ∃ s, CutBehind src (⟨lexeme, src.spanTo later⟩ :: tokens) (s ++ own) gone := by
  obtain ⟨m, hm⟩ := (stands_of_scanNext hsrc hnext).1
  have hlater : later.ReadsIn file 0 file.length := (stands_of_scanNext hsrc hnext).1.readsIn hsrc
  have hshrinks := length_rest_scanNext_lt hs hnext
  have hrest : src.rest = src.rest.take m ++ later.rest := by
    rw [hm, rest_advance, List.take_append_drop]
  have hlength : src.rest.length = (src.rest.take m).length + later.rest.length := by
    rw [← List.length_append, ← hrest]
  have hoffset : later.position.offset = src.position.offset + (src.rest.take m).length := by
    have hend := hsrc.last_eq
    have hend' := hlater.last_eq
    omega
  have hown : src.rest = (src.rest.take m ++ own) ++ gone := by
    rw [List.append_assoc, ← h.rest_eq, ← hrest]
  have hread : ∀ origin part, Excerpt origin gone src part →
      endsText part.rest = endsText src.rest ∧ ∃ part', scanNext part =
        .ok (lexeme.since origin, part') ∧ Excerpt origin gone later part' :=
    fun _ _ hpart => scanNext_excerpt hpart hs hnext h.rest_eq h.starts
  refine ⟨src.rest.take m, hown, ⟨rfl, ?_, ?_⟩, .inr ?_, ?_⟩
  · show src.position.offset < later.position.offset
    omega
  · rw [List.length_append, ← Nat.add_assoc, ← hoffset]
    exact h.tiles
  · exact (hread src.position ⟨_, src.rest.take m ++ own⟩ ⟨src.position.follows_self, rfl, hown⟩).1
  · intro origin part hpart
    obtain ⟨-, part', hnext', hpart'⟩ := hread origin part hpart
    have hs' : part.rest ≠ [] := by
      intro hnil
      have hlength' := hpart.length_eq
      rw [hnil, List.length_nil] at hlength'
      rw [h.rest_eq, List.length_append] at hshrinks
      omega
    rw [Source.tokens, scanAll_of_scan hs' hnext', hpart.spanTo_eq hpart']
    show (part'.tokens).map _ = _
    rw [h.tokens_eq origin part' hpart']
    rfl

/-- Behind any of its tokens a source can be cut off. -/
theorem exists_take_tokens {file : List Char} {src : Source} {tokens : List Token}
    (hsrc : src.ReadsIn file 0 file.length) (h : src.tokens = .ok tokens) (n : Nat) :
    ∃ own gone, CutBehind src (tokens.take n) own gone := by
  refine scanAll_induction (motive := fun src tokens => src.ReadsIn file 0 file.length → ∀ n,
    ∃ own gone, CutBehind src (tokens.take n) own gone) ?_ ?_ h hsrc n
  · intro src _ _ n
    rw [List.take_nil]
    exact ⟨_, _, cutBehind_nil src⟩
  · intro src lexeme later rest hs hnext _ ih hsrc n
    cases n with
    | zero => exact ⟨_, _, cutBehind_nil src⟩
    | succ n =>
      obtain ⟨own, gone, hcut⟩ := ih ((stands_of_scanNext hsrc hnext).1.readsIn hsrc) n
      obtain ⟨s, hcut'⟩ := hcut.cons hsrc hs hnext
      exact ⟨_, _, hcut'⟩

/-- Some tokens of a file that stand one after another are the tokens of the stretch they cover,
taken alone. Only their places differ: they count from the first of the tokens on. -/
theorem tokenize_stretch (source : String) (tokens : List Token)
    (h : tokenize source = .ok tokens) (i j : Nat) :
    tokenize (String.ofList (stretch source.toList (tokens.extract i j))) =
      .ok (sinceFirst (tokens.extract i j)) := by
  obtain ⟨src, hsrc, hdrop⟩ := exists_drop_tokens (readsIn_ofString source) h i
  obtain ⟨own, gone, hcut⟩ := exists_take_tokens hsrc hdrop (j - i)
  rw [List.extract_eq_take_drop]
  cases hslice : (tokens.drop i).take (j - i) with
  | nil => exact scanAll_of_rest_eq_nil String.toList_ofList
  | cons t rest =>
    rw [hslice] at hcut
    obtain ⟨more, hmore⟩ := List.take_prefix (j - i) (tokens.drop i)
    rw [hslice, List.cons_append] at hmore
    rw [← hmore] at hdrop
    have hplace := position_eq_of_tokens hdrop
    have hstretch : stretch source.toList (t :: rest) = own :=
      stretch_eq_of_tiles (hsrc.drop_eq.trans hcut.rest_eq) hcut.tiles
    have hpart : Excerpt src.position gone src (Source.ofString (String.ofList own)) := by
      refine ⟨src.position.follows_self, src.position.since_self.symm, ?_⟩
      rw [Source.ofString, String.toList_ofList]
      exact hcut.rest_eq
    rw [hstretch, sinceFirst, ← hplace]
    exact hcut.tokens_eq src.position _ hpart

/-- The theorem at a text over three lines, of which the second and third token are taken alone. -/
theorem tokenize_stretch_of_lines :
    ∃ tokens, tokenize "a\n<p b=c title='\n\x7b\x7bd\x7d\x7d'>e</p>" = .ok tokens ∧
      tokens.length = 4 ∧
      tokenize (String.ofList (stretch "a\n<p b=c title='\n\x7b\x7bd\x7d\x7d'>e</p>".toList
        (tokens.extract 1 3))) = .ok (sinceFirst (tokens.extract 1 3)) := by
  obtain ⟨tokens, htokens⟩ :
      ∃ tokens, tokenize "a\n<p b=c title='\n\x7b\x7bd\x7d\x7d'>e</p>" = .ok tokens :=
    Journal.exists_of_isOk (by decide +kernel)
  have hlength : (tokenize "a\n<p b=c title='\n\x7b\x7bd\x7d\x7d'>e</p>").toOption.any
      (·.length == 4) = true := by decide +kernel
  rw [htokens] at hlength
  exact ⟨tokens, htokens, beq_iff_eq.mp hlength, tokenize_stretch _ tokens htokens 1 3⟩

end MustacheMarkup
