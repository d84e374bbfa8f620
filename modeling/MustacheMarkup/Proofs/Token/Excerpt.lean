import MustacheMarkup.Proofs.Attribute.EventHandler
import MustacheMarkup.Proofs.Token.Layout
import MustacheMarkup.Proofs.Token.Runs

/-!
# Reading an excerpt

An excerpt of what is left of a source lacks some characters at the end, and its places count from
some earlier place of the source as if the text started there. Whatever reads a piece of the source
reads the same piece of an excerpt that still holds it: nothing that is read depends on where it
stands, nor on what stands behind it. Only a run of text looks further, to where it ends, so there
the excerpt has to end as well or to go on with something that ends the run.
-/

set_option autoImplicit false

namespace MustacheMarkup

/-! ## Places seen from another place -/

/-- A place as it is in the text from the place `origin` on, taken alone. -/
def Position.since (p origin : Position) : Position :=
  ⟨p.offset - origin.offset, p.line - origin.line + 1,
    if p.line = origin.line then p.column - origin.column + 1 else p.column⟩

/-- A place does not come before the place `origin`. -/
structure Position.Follows (p origin : Position) : Prop where
  offset_le : origin.offset ≤ p.offset
  line_le : origin.line ≤ p.line
  column_le : p.line = origin.line → origin.column ≤ p.column

/-- A place comes not before itself. -/
theorem Position.follows_self (p : Position) : p.Follows p :=
  ⟨Nat.le_refl _, Nat.le_refl _, fun _ => Nat.le_refl _⟩

/-- Seen from itself, every place is the start. -/
theorem Position.since_self (p : Position) : p.since p = .start := by
  unfold Position.since Position.start
  rw [if_pos rfl, Nat.sub_self, Nat.sub_self, Nat.sub_self]

/-- The place behind one more character does not come before the origin either. -/
theorem Position.Follows.next {p origin : Position} (h : p.Follows origin) (c : Char) :
    (p.next c).Follows origin := by
  obtain ⟨hoffset, hline, hcolumn⟩ := h
  unfold Position.next
  split
  · refine ⟨Nat.le_succ_of_le hoffset, Nat.le_succ_of_le hline, fun h => ?_⟩
    dsimp only at h
    omega
  · exact ⟨Nat.le_succ_of_le hoffset, hline, fun h => Nat.le_succ_of_le (hcolumn h)⟩

/-- To read a character leads to the next place, from wherever places are counted. -/
theorem Position.Follows.since_next {p origin : Position} (h : p.Follows origin) (c : Char) :
    (p.next c).since origin = (p.since origin).next c := by
  obtain ⟨hoffset, hline, hcolumn⟩ := h
  unfold Position.since Position.next
  split <;> split <;> simp only [Position.mk.injEq] <;> grind

/-- The span of a token as it is in the text from the place `origin` on, taken alone. -/
def Span.since (s : Span) (origin : Position) : Span :=
  let p := (Position.mk s.start s.line s.column).since origin
  ⟨p.offset, s.stop - origin.offset, p.line, p.column⟩

/-- The place from which those in a value count: offsets in it count from its own start. -/
def Position.forValues (origin : Position) : Position :=
  ⟨0, origin.line, origin.column⟩

/-- A token of a value as it is in a file from the place `origin` on, taken alone. -/
def Token.inValueSince (origin : Position) (t : Token) : Token :=
  ⟨t.lexeme, t.span.since origin.forValues⟩

/-- An attribute as it is in a file from the place `origin` on, taken alone. -/
def RawAttribute.since (origin : Position) (a : RawAttribute) : RawAttribute :=
  ⟨a.name, a.value.map (·.map (Token.inValueSince origin))⟩

/-- What a token is, in a file from the place `origin` on, taken alone. Nothing but the places of
tokens in values depends on that. -/
def Lexeme.since (origin : Position) : Lexeme → Lexeme
  | .tag t => .tag { t with attributes := t.attributes.map (RawAttribute.since origin) }
  | lexeme => lexeme

/-- A token of a file as it is in the file from the place `origin` on, taken alone. -/
def Token.since (origin : Position) (t : Token) : Token :=
  ⟨t.lexeme.since origin, t.span.since origin⟩

/-! ## Excerpts -/

/-- The source `part` is an excerpt of what is left of another source: it lacks the characters
`gone` at the end, and its place counts from the place `origin`. -/
structure Source.Excerpt (origin : Position) (gone : List Char) (src part : Source) : Prop where
  follows : src.position.Follows origin
  position_eq : part.position = src.position.since origin
  rest_eq : src.rest = part.rest ++ gone

namespace Source

variable {origin : Position} {gone : List Char} {src part : Source}

/-- What is left of a source is what is left of the excerpt, and what that lacks. -/
theorem Excerpt.length_eq (h : Excerpt origin gone src part) :
    src.rest.length = part.rest.length + gone.length := by
  rw [h.rest_eq, List.length_append]

/-- A token of an excerpt has the span of the token of the source, seen from the origin. -/
theorem Excerpt.spanTo_eq {later part' : Source} (h : Excerpt origin gone src part)
    (h' : Excerpt origin gone later part') :
    part.spanTo part' = (src.spanTo later).since origin := by
  unfold spanTo
  rw [h.position_eq, h'.position_eq]
  rfl

/-- What stands first in what is left also stands first in an excerpt that holds it. -/
theorem Excerpt.exists_append (h : Excerpt origin gone src part) {s rest : List Char}
    (hrest : src.rest = s ++ rest) (hle : gone.length ≤ rest.length) :
    ∃ rest', part.rest = s ++ rest' ∧ rest = rest' ++ gone := by
  have heq := h.rest_eq
  rw [hrest] at heq
  rcases List.append_eq_append_iff.mp heq with ⟨rest', hpart, hrest'⟩ | ⟨more, -, hgone⟩
  · exact ⟨rest', hpart, hrest'⟩
  · rw [hgone, List.length_append] at hle
    have hnil : more = [] := List.length_eq_zero_iff.mp (by omega)
    rw [hnil, List.nil_append] at hgone
    rw [hgone] at heq
    exact ⟨[], by rw [List.append_nil]; exact (List.append_cancel_right heq).symm, hgone.symm⟩

/-- What an excerpt starts with is what the source goes on with. -/
theorem Excerpt.head?_of_head? (h : Excerpt origin gone src part) {c : Char}
    (hpart : part.rest.head? = some c) : src.rest.head? = some c := by
  rw [h.rest_eq, List.head?_append, hpart, Option.some_or]

/-- Both go on by the same number of characters, as long as the excerpt lasts. This is the one step
that all reading of an excerpt is made of. -/
theorem Excerpt.advance (h : Excerpt origin gone src part) {n : Nat}
    (hn : n + gone.length ≤ src.rest.length) :
    Excerpt origin gone (src.advance n) (part.advance n) := by
  induction n generalizing src part with
  | zero => exact h
  | succ n ih =>
    obtain ⟨p, - | ⟨c, rest⟩⟩ := src
    · simp only [List.length_nil] at hn
      omega
    · obtain ⟨q, s⟩ := part
      simp only [List.length_cons] at hn
      obtain ⟨rest', hpart, hrest⟩ := h.exists_append (s := [c]) rfl (by omega)
      obtain rfl := hpart
      have hposition : q = p.since origin := h.position_eq
      have hnext : Excerpt origin gone ⟨p.next c, rest⟩ ⟨q.next c, rest'⟩ := by
        refine ⟨h.follows.next c, ?_, hrest⟩
        rw [hposition]
        exact (h.follows.since_next c).symm
      exact ih hnext (by dsimp only; omega)

/-- Characters that are taken from a text are taken from its first part, if they do not go beyond
it. -/
theorem takeWhile_append_of_length_le {p : Char → Bool} {s rest : List Char}
    (h : ((s ++ rest).takeWhile p).length ≤ s.length) :
    s.takeWhile p = (s ++ rest).takeWhile p := by
  rw [List.takeWhile_append] at h ⊢
  split
  · rename_i hall
    rw [if_pos hall, List.length_append] at h
    have hnil : rest.takeWhile p = [] := List.length_eq_zero_iff.mp (by omega)
    rw [hnil, List.append_nil]
    exact (List.takeWhile_prefix p).eq_of_length hall
  · rfl

/-- A run of characters of one kind is also one in an excerpt that holds it. -/
theorem Excerpt.takeWhile_eq (h : Excerpt origin gone src part) {p : Char → Bool}
    (hle : (src.rest.takeWhile p).length + gone.length ≤ src.rest.length) :
    part.rest.takeWhile p = src.rest.takeWhile p := by
  have hlength := h.length_eq
  rw [h.rest_eq] at hle ⊢
  refine takeWhile_append_of_length_le ?_
  rw [List.length_append] at hle
  omega

/-- What is skipped and what is left are all there is. -/
theorem length_rest_skipBlanks (src : Source) :
    (src.rest.takeWhile Text.isBlank).length + src.skipBlanks.rest.length = src.rest.length := by
  have hle := (List.takeWhile_prefix (l := src.rest) Text.isBlank).length_le
  rw [skipBlanks, rest_advance, List.length_drop]
  omega

/-- Both skip the same blanks, if the excerpt does not end among them. -/
theorem Excerpt.skipBlanks (h : Excerpt origin gone src part)
    (hle : gone.length ≤ src.skipBlanks.rest.length) :
    Excerpt origin gone src.skipBlanks part.skipBlanks := by
  have hlength := length_rest_skipBlanks src
  have hblanks := h.takeWhile_eq (p := Text.isBlank) (by omega)
  unfold Source.skipBlanks
  rw [hblanks]
  exact h.advance (by omega)

end Source

open Source

section

variable {origin : Position} {gone : List Char} {src later part : Source}

/-! ## Delimiters -/

/-- A delimiter is found in the same place if what stands behind it is cut off. -/
theorem before?_of_append {delimiter s content : List Char} (rest : List Char)
    (hne : delimiter ≠ []) (h : before? delimiter (s ++ rest) = some content)
    (hle : content.length + delimiter.length ≤ s.length) : before? delimiter s = some content := by
  have hprefix : content ++ delimiter <+: s :=
    List.prefix_of_prefix_length_le (prefix_of_before? h) (List.prefix_append s rest)
      (by rw [List.length_append]; exact hle)
  obtain ⟨more, rfl⟩ := hprefix
  exact before?_append (before?_self h hne) more

/-- A delimiter is found in what is left behind some characters. -/
theorem length_le_of_before?_drop {delimiter s content : List Char} {n : Nat} (hne : delimiter ≠ [])
    (h : before? delimiter (s.drop n) = some content) :
    n + (content.length + delimiter.length) ≤ s.length := by
  have hpos := List.length_pos_iff.mpr hne
  have hle := (prefix_of_before? h).length_le
  rw [List.length_append, List.length_drop] at hle
  omega

/-- What is read up to a delimiter is also read in an excerpt that holds it. The delimiter is in the
excerpt then, so what is cut off behind it is never looked at. -/
theorem before?_excerpt {delimiter content : List Char} {n m : Nat}
    (h : Excerpt origin gone src part) (hne : delimiter ≠ [])
    (hcontent : before? delimiter (src.rest.drop n) = some content)
    (hm : m = n + (content.length + delimiter.length))
    (hle : gone.length ≤ (src.advance m).rest.length) :
    before? delimiter (part.rest.drop n) = some content ∧
      Excerpt origin gone (src.advance m) (part.advance m) := by
  have hlength := h.length_eq
  have hfits := length_le_of_before?_drop hne hcontent
  rw [rest_advance, List.length_drop] at hle
  refine ⟨?_, h.advance (by omega)⟩
  rw [h.rest_eq, List.drop_append_of_le_length (by omega)] at hcontent
  refine before?_of_append _ hne hcontent ?_
  rw [List.length_drop]
  omega

/-- A mark stands at the start of an excerpt only if it stands at the start of what is left. -/
theorem isPrefixOf_excerpt (h : Excerpt origin gone src part) {mark : List Char}
    (hmark : mark.isPrefixOf part.rest = true) : mark.isPrefixOf src.rest = true := by
  rw [List.isPrefixOf_iff_prefix] at hmark ⊢
  rw [h.rest_eq]
  exact hmark.trans (List.prefix_append _ _)

/-- A mark at the start of what is left also stands at the start of an excerpt that holds it. -/
theorem isPrefixOf_excerpt_iff (h : Excerpt origin gone src part) (mark : List Char)
    (hle : mark.length ≤ part.rest.length) :
    mark.isPrefixOf part.rest = mark.isPrefixOf src.rest := by
  rw [Bool.eq_iff_iff]
  refine ⟨isPrefixOf_excerpt h, fun hmark => ?_⟩
  rw [List.isPrefixOf_iff_prefix] at hmark ⊢
  rw [h.rest_eq] at hmark
  exact List.prefix_of_prefix_length_le hmark (List.prefix_append _ _) hle

/-! ## Mustaches and comments -/

/-- A mustache takes at least its four braces. -/
theorem length_rest_scanMustache_le {lexeme : Lexeme} (h : scanMustache src = .ok (lexeme, later)) :
    later.rest.length + 4 ≤ src.rest.length := by
  obtain ⟨content, -, hcontent, -, rfl⟩ | ⟨content, -, hcontent, -, rfl⟩ :=
    scanMustache_eq_ok_iff.mp h
  · have hle := length_le_of_before?_drop (by simp) hcontent
    simp only [List.length_cons, List.length_nil] at hle
    rw [rest_advance, List.length_drop]
    omega
  · have hle := length_le_of_before?_drop (by simp) hcontent
    simp only [List.length_cons, List.length_nil] at hle
    rw [rest_advance, List.length_drop]
    omega

/-- A mustache is read in an excerpt that holds it: with its closing braces in the excerpt, what is
cut off is behind them. -/
theorem scanMustache_excerpt {lexeme : Lexeme} (h : Excerpt origin gone src part)
    (hscan : scanMustache src = .ok (lexeme, later)) (hle : gone.length ≤ later.rest.length) :
    ∃ part', scanMustache part = .ok (lexeme, part') ∧ Excerpt origin gone later part' := by
  have hlength := h.length_eq
  have hshrinks := length_rest_scanMustache_le hscan
  have htriple := isPrefixOf_excerpt_iff h ['{', '{', '{']
    (by simp only [List.length_cons, List.length_nil]; omega)
  obtain ⟨content, hopening, hcontent, rfl, rfl⟩ | ⟨content, hopening, hcontent, rfl, rfl⟩ :=
    scanMustache_eq_ok_iff.mp hscan
  · obtain ⟨hcontent', hlater⟩ := before?_excerpt h (by simp) hcontent
      (by simp only [List.length_cons, List.length_nil]; omega) hle
    exact ⟨_, scanMustache_eq_ok_iff.mpr (.inl ⟨content, htriple.trans hopening, hcontent', rfl,
      rfl⟩), hlater⟩
  · obtain ⟨hcontent', hlater⟩ := before?_excerpt h (by simp) hcontent
      (by simp only [List.length_cons, List.length_nil]; omega) hle
    exact ⟨_, scanMustache_eq_ok_iff.mpr (.inr ⟨content, htriple.trans hopening, hcontent', rfl,
      rfl⟩), hlater⟩

/-- A comment takes at least the four characters that it starts with. -/
theorem length_rest_scanComment_le {lexeme : Lexeme} (h : scanComment src = .ok (lexeme, later)) :
    later.rest.length + 4 ≤ src.rest.length := by
  obtain ⟨content, hcontent, -, rfl⟩ := scanComment_eq_ok_iff.mp h
  have hle := length_le_of_before?_drop (by simp) hcontent
  rw [rest_advance, List.length_drop]
  omega

/-- A comment is read in an excerpt that holds it. -/
theorem scanComment_excerpt {lexeme : Lexeme} (h : Excerpt origin gone src part)
    (hscan : scanComment src = .ok (lexeme, later)) (hle : gone.length ≤ later.rest.length) :
    ∃ part', scanComment part = .ok (lexeme, part') ∧ Excerpt origin gone later part' := by
  obtain ⟨content, hcontent, rfl, rfl⟩ := scanComment_eq_ok_iff.mp hscan
  obtain ⟨hcontent', hlater⟩ := before?_excerpt h (by simp) hcontent
    (by simp only [List.length_cons, List.length_nil]; omega) hle
  exact ⟨_, scanComment_eq_ok_iff.mpr ⟨content, hcontent', rfl, rfl⟩, hlater⟩

/-! ## Text -/

/-- A run of text is read in an excerpt that holds it and then ends, or goes on with something that
ends the run. -/
theorem scanText_excerpt {stops : List Char → Bool}
    (hstops : ∀ s rest, stops s = true → stops (s ++ rest) = true) {content : String}
    {more : List Char} (h : Excerpt origin gone src part) (hne : src.rest ≠ [])
    (hstart : stops src.rest = false) (hscan : scanText stops src = (.text content, later))
    (hlater : later.rest = more ++ gone) (hmore : more = [] ∨ stops more = stops later.rest) :
    ∃ part', scanText stops part = (.text content, part') ∧ Excerpt origin gone later part' := by
  have hrun := isRun_scanText hne hstart hscan
  have hsrc := hrun.rest_eq
  have hpart : part.rest = content.toList ++ more := by
    have heq := h.rest_eq
    rw [hsrc, hlater, ← List.append_assoc] at heq
    exact (List.append_cancel_right heq).symm
  have hinside : ∀ t, t ≠ [] → t <:+ content.toList → stops (t ++ more) = false := by
    intro t ht hsuffix
    have hfile := hrun.inside t ht hsuffix
    rw [hlater, ← List.append_assoc, Bool.eq_false_iff] at hfile
    exact Bool.eq_false_iff.mpr fun hstop => hfile (hstops _ gone hstop)
  have hbehind : more = [] ∨ stops more = true := by
    rcases hrun.behind with hnil | hstop
    · rw [hlater] at hnil
      exact .inl (List.append_eq_nil_iff.mp hnil).1
    · exact hmore.imp_right fun heq => heq.trans hstop
  have hne' : content.toList ≠ [] := fun hnil => hrun.ne_empty (String.toList_eq_nil_iff.mp hnil)
  have hadvance : later = src.advance content.toList.length := by
    unfold scanText at hscan
    obtain ⟨htext, hadvance⟩ := Prod.mk.inj hscan
    rw [← Lexeme.text.inj htext, String.toList_ofList]
    exact hadvance.symm
  refine ⟨part.advance content.toList.length, ?_, ?_⟩
  · rw [scanText_append hpart hne' hinside hbehind, String.ofList_toList]
  · rw [hadvance]
    refine h.advance ?_
    rw [hsrc, hlater, List.length_append, List.length_append]
    omega

/-! ## Values -/

/-- Where a mustache starts, it does so whatever follows. -/
theorem startsMustache_mono (s rest : List Char) (h : startsMustache s = true) :
    startsMustache (s ++ rest) = true :=
  List.isPrefixOf_iff_prefix.mpr
    ((List.isPrefixOf_iff_prefix.mp h).trans (List.prefix_append s rest))

/-- What is read in a value does not depend on where the value stands. -/
theorem scanInValue_excerpt {lexeme : Lexeme} (h : Excerpt origin [] src part)
    (hne : src.rest ≠ []) (hscan : scanInValue src = .ok (lexeme, later)) :
    ∃ part', scanInValue part = .ok (lexeme, part') ∧ Excerpt origin [] later part' := by
  have hrest : src.rest = part.rest := h.rest_eq.trans (List.append_nil _)
  obtain ⟨hstart, hscan⟩ | ⟨hstart, hscan⟩ := scanInValue_cases hscan
  · rw [scanInValue_eq_scanMustache (hrest ▸ hstart)]
    exact scanMustache_excerpt h hscan (Nat.zero_le _)
  · obtain ⟨rfl, rfl⟩ := Prod.mk.inj (Except.ok.inj hscan)
    obtain ⟨part', hpart', hlater⟩ := scanText_excerpt startsMustache_mono h hne hstart rfl
      (List.append_nil _).symm (.inr rfl)
    rw [scanInValue_eq_scanText (hrest ▸ hstart), hpart']
    exact ⟨part', rfl, hlater⟩

/-- The tokens of a value are those it has wherever it stands, each as it is seen from there. A
value is read on its own, so only places change. -/
theorem scanValue_since {p : Position} {value : List Char} {tokens : List Token}
    (hp : p.Follows origin) (h : scanValue p value = .ok tokens) :
    scanValue (p.since origin) value = .ok (tokens.map (Token.inValueSince origin)) := by
  have hstart : Excerpt origin.forValues [] ⟨⟨0, p.line, p.column⟩, value⟩
      ⟨⟨0, (p.since origin).line, (p.since origin).column⟩, value⟩ :=
    ⟨⟨Nat.le_refl 0, hp.line_le, hp.column_le⟩, rfl, (List.append_nil _).symm⟩
  unfold scanValue at h ⊢
  refine scanAll_induction (motive := fun src tokens => ∀ part,
    Excerpt origin.forValues [] src part → scanAll scanInValue length_rest_scanInValue_lt part =
      .ok (tokens.map (Token.inValueSince origin))) ?_ ?_ h _ hstart
  · intro src hs part hpart
    have hrest := hpart.rest_eq
    rw [hs, List.append_nil] at hrest
    exact scanAll_of_rest_eq_nil hrest.symm
  · intro src lexeme later rest hs hnext _ ih part hpart
    obtain ⟨part', hnext', hlater⟩ := scanInValue_excerpt hpart hs hnext
    have hs' : part.rest ≠ [] := by
      have hrest := hpart.rest_eq
      rw [List.append_nil] at hrest
      rwa [← hrest]
    rw [scanAll_of_scan hs' hnext', ih part' hlater, hpart.spanTo_eq hlater]
    rfl

/-! ## Attributes -/

/-- A value without quotes ends in the same place if some of what stands behind it is cut off. A
mustache in it is closed before its end, so the cut never opens one. -/
theorem unquotedLength_take {s : List Char} {n k : Nat} (h : unquotedLength s = .ok n)
    (hle : n ≤ k) : unquotedLength (s.take k) = .ok n := by
  fun_induction unquotedLength s generalizing n k with
  | case1 =>
    rw [List.take_nil, unquotedLength]
    exact h
  | case2 c rest hends =>
    cases h
    cases k with
    | zero => rw [List.take_zero, unquotedLength]
    | succ k => rw [List.take_succ_cons, unquotedLength, if_pos hends]
  | case3 => cases h
  | case4 => cases h
  | case5 c rest hends hstart content hcontent n' hn' ih =>
    cases h
    obtain ⟨k, rfl⟩ : ∃ k', k = k' + (content.length + 3) + 1 :=
      ⟨k - (content.length + 4), by omega⟩
    have hlength := length_le_of_before?_drop (by simp) hcontent
    simp only [List.length_cons, List.length_nil] at hlength
    have htake : startsMustache (c :: rest.take (k + (content.length + 3))) = true := by
      refine List.isPrefixOf_iff_prefix.mpr (List.prefix_of_prefix_length_le
        (List.isPrefixOf_iff_prefix.mp hstart) (List.prefix_cons_inj c |>.mpr
          (List.take_prefix _ rest)) ?_)
      simp only [List.length_cons, List.length_nil, List.length_take]
      omega
    have hbefore : before? ['}', '}'] ((rest.take (k + (content.length + 3))).drop 1) =
        some content := by
      refine before?_of_append (rest.drop (k + (content.length + 3))) (by simp) ?_ ?_
      · rw [← List.drop_append_of_le_length, List.take_append_drop, hcontent]
        rw [List.length_take]
        omega
      · simp only [List.length_cons, List.length_nil, List.length_drop, List.length_take]
        omega
    have hrest : (rest.take (k + (content.length + 3))).drop (content.length + 3) =
        (rest.drop (content.length + 3)).take k := by
      rw [List.drop_take, Nat.add_sub_cancel]
    rw [List.take_succ_cons, unquotedLength, if_neg hends, if_pos htake, hbefore]
    dsimp only
    rw [hrest, ih hn' (by omega)]
  | case6 => cases h
  | case7 c rest hends hstart n' hn' ih =>
    cases h
    obtain ⟨k, rfl⟩ : ∃ k', k = k' + 1 := ⟨k - 1, by omega⟩
    have htake : ¬startsMustache (c :: rest.take k) = true := by
      intro hopening
      have hmono := startsMustache_mono _ (rest.drop k) hopening
      rw [List.cons_append, List.take_append_drop] at hmono
      exact hstart hmono
    rw [List.take_succ_cons, unquotedLength, if_neg hends, if_neg htake, ih hn' (by omega)]

/-- The characters that are taken from an excerpt are those of the source. -/
theorem take_excerpt (h : Excerpt origin gone src part) {n : Nat} (hn : n ≤ part.rest.length) :
    part.rest.take n = src.rest.take n := by
  rw [h.rest_eq, List.take_append_of_le_length hn]

/-- A value without quotes is read in an excerpt that holds it. -/
theorem scanUnquoted_excerpt {tokens : List Token} (h : Excerpt origin gone src part)
    (hscan : scanUnquoted src = .ok (tokens, later)) (hle : gone.length ≤ later.rest.length) :
    ∃ part', scanUnquoted part = .ok (tokens.map (Token.inValueSince origin), part') ∧
      Excerpt origin gone later part' := by
  obtain ⟨n, hn, hvalue, rfl⟩ := scanUnquoted_eq_ok_iff.mp hscan
  have hlength := h.length_eq
  obtain ⟨hfits, -⟩ := endsValue_of_unquotedLength hn
  rw [rest_advance, List.length_drop] at hle
  have hn' : unquotedLength part.rest = .ok n := by
    have htake := unquotedLength_take (k := part.rest.length) hn (by omega)
    rwa [h.rest_eq, List.take_left] at htake
  have hvalue' := scanValue_since h.follows hvalue
  rw [← h.position_eq, ← take_excerpt h (by omega)] at hvalue'
  exact ⟨_, scanUnquoted_eq_ok_iff.mpr ⟨n, hn', hvalue', rfl⟩, h.advance (by omega)⟩

/-- A value between quotes takes at least its first quote. -/
theorem length_rest_scanQuoted_lt {quote : Char} {tokens : List Token}
    (h : scanQuoted quote src = .ok (tokens, later)) : later.rest.length < src.rest.length := by
  obtain ⟨hclosed, -, rfl⟩ := scanQuoted_eq_ok_iff.mp h
  have hopen : (src.advance 1).rest.length = src.rest.length - 1 := by
    rw [rest_advance, List.length_drop]
  rw [rest_advance, List.length_drop]
  omega

/-- A value between quotes is read in an excerpt that holds it. -/
theorem scanQuoted_excerpt {quote : Char} {tokens : List Token} (h : Excerpt origin gone src part)
    (hscan : scanQuoted quote src = .ok (tokens, later)) (hle : gone.length ≤ later.rest.length) :
    ∃ part', scanQuoted quote part = .ok (tokens.map (Token.inValueSince origin), part') ∧
      Excerpt origin gone later part' := by
  obtain ⟨hclosed, hvalue, rfl⟩ := scanQuoted_eq_ok_iff.mp hscan
  have hlength := h.length_eq
  have hopen : (src.advance 1).rest.length = src.rest.length - 1 := by
    rw [rest_advance, List.length_drop]
  rw [rest_advance, List.length_drop] at hle
  have hinner := h.advance (n := 1) (by omega)
  have hlength' := hinner.length_eq
  have hvalue' := scanValue_since hinner.follows hvalue
  have htake := hinner.takeWhile_eq (p := (· != quote)) (by omega)
  rw [← htake, ← hinner.position_eq] at hvalue'
  refine ⟨_, scanQuoted_eq_ok_iff.mpr ⟨?_, hvalue', rfl⟩, ?_⟩
  · rw [htake]
    omega
  · rw [htake]
    exact hinner.advance (by omega)

/-- The value of an attribute is read of an excerpt as of the source, if the excerpt does not end
before the value. Its tokens have the places that they have when the excerpt is taken alone. -/
theorem scanAttributeValue_excerpt {tokens : List Token} (h : Excerpt origin gone src part)
    (hscan : scanAttributeValue src = .ok (tokens, later))
    (hle : gone.length ≤ later.rest.length) :
    ∃ part', scanAttributeValue part = .ok (tokens.map (Token.inValueSince origin), part') ∧
      Excerpt origin gone later part' := by
  obtain ⟨quote, rest, hquote, hrest, hscan⟩ | ⟨hstart, hscan⟩ := scanAttributeValue_cases hscan
  · have hshrinks := length_rest_scanQuoted_lt hscan
    rw [hrest, List.length_cons] at hshrinks
    obtain ⟨rest', hpart, -⟩ := h.exists_append (s := [quote]) hrest (by omega)
    rw [scanAttributeValue_eq_scanQuoted hquote hpart]
    exact scanQuoted_excerpt h hscan hle
  · have hstart' : ∀ quote ∈ ['"', '\''], part.rest.head? ≠ some quote :=
      fun quote hquote hpart => hstart quote hquote (h.head?_of_head? hpart)
    rw [scanAttributeValue_eq_scanUnquoted hstart']
    exact scanUnquoted_excerpt h hscan hle

/-- The characters of names at the start belong to the name. -/
theorem length_takeWhile_le_attributeName (s : List Char) :
    (s.takeWhile isAttributeNameChar).length ≤ (attributeName s).length := by
  unfold attributeName
  split
  · rename_i hnil
    rw [hnil]
    exact Nat.zero_le _
  · exact Nat.le_refl _

/-- The name of an attribute is the same in an excerpt that holds it. -/
theorem attributeName_excerpt (h : Excerpt origin gone src part) (hne : src.rest ≠ [])
    (hle : (attributeName src.rest).length + gone.length ≤ src.rest.length) :
    attributeName part.rest = attributeName src.rest := by
  have hlength := h.length_eq
  have hpos := length_attributeName_pos hne
  have hrun := length_takeWhile_le_attributeName src.rest
  have hname := h.takeWhile_eq (p := isAttributeNameChar) (by omega)
  have hfirst := take_excerpt h (n := 1) (by omega)
  unfold attributeName
  rw [hname, hfirst]

/-- An attribute is read in an excerpt that holds it. Behind it blanks are looked through for an
equals sign, and the excerpt may end among these. -/
theorem scanAttribute_excerpt {a : RawAttribute} (h : Excerpt origin gone src part)
    (hne : src.rest ≠ []) (hscan : scanAttribute src = .ok (a, later))
    (hle : gone.length ≤ later.rest.length) :
    ∃ part', scanAttribute part = .ok (a.since origin, part') ∧
      Excerpt origin gone later part' := by
  have hprefix := ( attributeName_prefix src.rest).length_le
  have hnamed : (src.advance (attributeName src.rest).length).rest.length =
      src.rest.length - (attributeName src.rest).length := by
    rw [rest_advance, List.length_drop]
  have hblanks := length_rest_skipBlanks_le (src.advance (attributeName src.rest).length)
  obtain ⟨rest, tokens, hequals, hvalue, rfl⟩ | ⟨hequals, rfl, rfl⟩ :=
    scanAttribute_eq_ok_iff.mp hscan
  · have hopen := length_rest_scanAttributeValue_le hvalue
    have hblanks' := length_rest_skipBlanks_le
      ((src.advance (attributeName src.rest).length).skipBlanks.advance 1)
    have hequal : ((src.advance (attributeName src.rest).length).skipBlanks.advance 1).rest =
        rest := by
      rw [rest_advance, hequals]
      rfl
    rw [hequal] at hblanks'
    have hrest : (src.advance (attributeName src.rest).length).skipBlanks.rest.length =
        rest.length + 1 := by
      rw [hequals, List.length_cons]
    have hskipped := (h.advance (n := (attributeName src.rest).length) (by omega)).skipBlanks
      (by omega)
    obtain ⟨rest', hpart, -⟩ := hskipped.exists_append (s := ['=']) hequals (by omega)
    obtain ⟨part', hvalue', hlater⟩ := scanAttributeValue_excerpt
      ((hskipped.advance (n := 1) (by omega)).skipBlanks (by omega)) hvalue hle
    have hname := attributeName_excerpt h hne (by omega)
    refine ⟨part', scanAttribute_eq_ok_iff.mpr ?_, hlater⟩
    rw [hname]
    exact .inl ⟨rest', _, hpart, hvalue', rfl⟩
  · have hskipped := (h.advance (n := (attributeName src.rest).length) (by omega)).skipBlanks hle
    have hname := attributeName_excerpt h hne (by omega)
    refine ⟨_, scanAttribute_eq_ok_iff.mpr ?_, hskipped⟩
    rw [hname]
    exact .inr ⟨fun hpart => hequals (hskipped.head?_of_head? hpart), rfl, rfl⟩

/-! ## Tags -/

/-- The attributes of a tag and its end are read in an excerpt that holds them. So no fault can
arise, and the one for a tag without an end may be any. -/
theorem scanAttributes_excerpt {unterminated unterminated' : ScanError}
    {attributes : List RawAttribute} {selfClosing : Bool} (h : Excerpt origin gone src part)
    (hscan : scanAttributes unterminated src = .ok (attributes, selfClosing, later))
    (hle : gone.length ≤ later.rest.length) :
    ∃ part', scanAttributes unterminated' part =
        .ok (attributes.map (RawAttribute.since origin), selfClosing, part') ∧
      Excerpt origin gone later part' := by
  fun_induction scanAttributes unterminated src
    generalizing part attributes selfClosing later with
  | case1 => cases hscan
  | case2 src rest hbracket =>
    cases hscan
    rw [rest_advance, hbracket, List.drop_succ_cons, List.drop_zero] at hle
    have hskipped := h.skipBlanks (by rw [hbracket, List.length_cons]; omega)
    obtain ⟨rest', hpart, -⟩ := hskipped.exists_append (s := ['>']) hbracket hle
    refine ⟨_, scanAttributes_of_bracket hpart, hskipped.advance ?_⟩
    rw [hbracket, List.length_cons]
    omega
  | case3 src rest hslash =>
    cases hscan
    rw [rest_advance, hslash, List.drop_succ_cons, List.drop_succ_cons, List.drop_zero] at hle
    have hskipped := h.skipBlanks (by rw [hslash, List.length_cons, List.length_cons]; omega)
    obtain ⟨rest', hpart, -⟩ := hskipped.exists_append (s := ['/', '>']) hslash hle
    refine ⟨_, scanAttributes_of_slash hpart, hskipped.advance ?_⟩
    rw [hslash, List.length_cons, List.length_cons]
    omega
  | case4 src rest hne hslash hlt ih =>
    have hshrinks := length_rest_scanAttributes_le hscan
    have hbehind : (src.skipBlanks.advance 1).rest = rest := by
      rw [rest_advance, hslash]
      rfl
    have hlength : src.skipBlanks.rest.length = rest.length + 1 := by
      rw [hslash, List.length_cons]
    rw [hbehind] at hshrinks
    have hskipped := h.skipBlanks (by omega)
    obtain ⟨rest', hpart, hrest⟩ := hskipped.exists_append (s := ['/']) hslash (by omega)
    obtain ⟨part', hpart', hlater⟩ := ih (hskipped.advance (by omega)) hscan hle
    refine ⟨part', ?_, hlater⟩
    rw [scanAttributes_of_loneSlash hpart, hpart']
    rintro more rfl
    exact hne (more ++ gone) hrest
  | case5 => cases hscan
  | case6 => cases hscan
  | case7 src c rest hbracket _ hslash hsrc a mid hattribute _ more _ _ hmore ih =>
    cases hscan
    have hne : src.skipBlanks.rest ≠ [] := by
      rw [hsrc]
      exact List.cons_ne_nil c rest
    have hshrinks := length_rest_scanAttribute_lt hne hattribute
    have hshrinks' := length_rest_scanAttributes_le hmore
    have hlength : src.skipBlanks.rest.length = rest.length + 1 := by
      rw [hsrc, List.length_cons]
    have hskipped := h.skipBlanks (by omega)
    obtain ⟨rest', hpart, -⟩ := hskipped.exists_append (s := [c]) hsrc (by omega)
    obtain ⟨mid', hattribute', hmid⟩ :=
      scanAttribute_excerpt hskipped hne hattribute (by omega)
    obtain ⟨part', hmore', hlater⟩ := ih hmid hmore hle
    refine ⟨part', ?_, hlater⟩
    rw [scanAttributes_of_attribute hpart hbracket hslash hattribute', hmore']
    rfl

/-- ASCII letters may stand in the names of tags. -/
theorem isTagNameChar_letter {c : Char} (h : c.isAlpha = true) : isTagNameChar c = true :=
  Text.forall_ascii (P := fun c => c.isAlpha = true → isTagNameChar c = true) (by decide)
    (toNat_lt_of_isAlpha h) h

/-- A tag is read in an excerpt that holds it, which starts with a tag then: the mark and the letter
that make it one are in the excerpt. -/
theorem scanTag_excerpt {lexeme : Lexeme} (h : Excerpt origin gone src part)
    (hstart : startsTag src.rest = true) (hscan : scanTag src = .ok (lexeme, later))
    (hle : gone.length ≤ later.rest.length) :
    startsTag part.rest = true ∧ ∃ part', scanTag part = .ok (lexeme.since origin, part') ∧
      Excerpt origin gone later part' := by
  obtain ⟨mark, c, rest, hmark, hc, hrest⟩ := startsTag_iff.mp hstart
  have hnamed : (src.advance (mark.length + 1)).rest = c :: rest :=
    rest_advance_append (s := '<' :: mark) hrest
  have hopening : src.rest = ('<' :: (mark ++ [c])) ++ rest := by
    rw [hrest, List.cons_append, List.append_assoc, List.singleton_append]
  obtain ⟨attributes, selfClosing, hattributes, rfl⟩ :=
    exists_attributes_of_scanTag hmark hc hrest hscan
  have hshrinks := length_rest_scanAttributes_le hattributes
  have hname : 0 < ((src.advance (mark.length + 1)).rest.takeWhile isTagNameChar).length := by
    rw [hnamed, List.takeWhile_cons_of_pos (isTagNameChar_letter hc), List.length_cons]
    exact Nat.succ_pos _
  have hprefix := (List.takeWhile_prefix (l := (src.advance (mark.length + 1)).rest)
    isTagNameChar).length_le
  have hlength : (src.advance (mark.length + 1)).rest.length = rest.length + 1 := by
    rw [hnamed, List.length_cons]
  have hlength' : src.rest.length = mark.length + 1 + (rest.length + 1) := by
    rw [hrest, List.length_cons, List.length_append, List.length_cons]
    omega
  rw [rest_advance, List.length_drop] at hshrinks
  obtain ⟨rest', hpart, -⟩ := h.exists_append hopening (by omega)
  rw [List.cons_append, List.append_assoc, List.singleton_append] at hpart
  refine ⟨startsTag_iff.mpr ⟨mark, c, rest', hmark, hc, hpart⟩, ?_⟩
  have hmarked := h.advance (n := mark.length + 1) (by omega)
  have hword := hmarked.takeWhile_eq (p := isTagNameChar) (by omega)
  obtain ⟨part', hpart', hlater⟩ :=
    scanAttributes_excerpt (hmarked.advance (by omega)) hattributes hle
  rw [scanTag_eq hmark hc hpart]
  dsimp only
  rw [hword, hpart']
  exact ⟨part', rfl, hlater⟩

/-! ## Files -/

/-- A token is read in an excerpt that holds it, and the excerpt ends a run of text where it starts
if the source does. Behind a run of text the excerpt has to end too, or to go on with something that
ends a run. -/
theorem scanNext_excerpt {lexeme : Lexeme} {more : List Char} (h : Excerpt origin gone src part)
    (hne : src.rest ≠ []) (hscan : scanNext src = .ok (lexeme, later))
    (hlater : later.rest = more ++ gone) (hmore : more = [] ∨ endsText more = endsText later.rest) :
    endsText part.rest = endsText src.rest ∧
      ∃ part', scanNext part = .ok (lexeme.since origin, part') ∧
        Excerpt origin gone later part' := by
  have hlength := h.length_eq
  have hle : gone.length ≤ later.rest.length := by
    rw [hlater, List.length_append]
    exact Nat.le_add_left _ _
  obtain ⟨hmustache, hscan⟩ | ⟨hcomment, hscan⟩ | ⟨htag, hscan⟩ | ⟨hstart, hscan⟩ :=
    scanNext_cases hscan
  · have hshrinks := length_rest_scanMustache_le hscan
    have hmustache' : startsMustache part.rest = true :=
      (isPrefixOf_excerpt_iff h ['{', '{']
        (by simp only [List.length_cons, List.length_nil]; omega)).trans hmustache
    obtain ⟨part', hpart', hrest'⟩ := scanMustache_excerpt h hscan hle
    obtain ⟨kind, reference, rfl⟩ := exists_of_scanMustache hscan
    rw [scanNext_eq_scanMustache hmustache']
    exact ⟨by simp only [endsText, hmustache, hmustache', Bool.true_or], part', hpart', hrest'⟩
  · have hshrinks := length_rest_scanComment_le hscan
    have hcomment' : startsComment part.rest = true :=
      (isPrefixOf_excerpt_iff h ['<', '!', '-', '-']
        (by simp only [List.length_cons, List.length_nil]; omega)).trans hcomment
    obtain ⟨part', hpart', hrest'⟩ := scanComment_excerpt h hscan hle
    obtain ⟨content, -, rfl, -⟩ := scanComment_eq_ok_iff.mp hscan
    rw [scanNext_eq_scanComment hcomment']
    exact ⟨by simp only [endsText, hcomment, hcomment', Bool.or_true, Bool.true_or], part', hpart',
      hrest'⟩
  · obtain ⟨htag', part', hpart', hrest'⟩ := scanTag_excerpt h htag hscan hle
    rw [scanNext_eq_scanTag htag']
    exact ⟨by simp only [endsText, htag, htag', Bool.or_true], part', hpart', hrest'⟩
  · have hstart' : endsText part.rest = false := by
      rw [Bool.eq_false_iff]
      intro hpart
      have hsrc := endsText_of_append gone hpart
      rw [← h.rest_eq, hstart] at hsrc
      cases hsrc
    obtain ⟨rfl, rfl⟩ := Prod.mk.inj (Except.ok.inj hscan)
    obtain ⟨part', hpart', hrest'⟩ := scanText_excerpt
      (fun _ rest => endsText_of_append rest) h hne hstart rfl hlater hmore
    rw [scanNext_eq_scanText hstart', hpart']
    exact ⟨hstart'.trans hstart.symm, part', rfl, hrest'⟩

end

end MustacheMarkup
