import MustacheMarkup.Proofs.Output.ReadTag
import MustacheMarkup.Proofs.Token.Pieces

/-!
# Values without quotes

A value without quotes ends at a blank or at `>` that stands outside braces, and where those are is
found out before the value is read: from every `{{` up to the next `}}`, also where the braces are
the first two of three. So what stands behind a `}}` inside a mustache with three braces counts as
outside (`outside`), and a blank or `>` there cuts the value off in the middle of the mustache.

If nothing outside ends the value, then it is as long as it is between quotes
(`unquotedLength_flat`), and is read as the same pieces. If something does, the mustache that is cut
off is not closed (`scanUnquoted_of_cut`).
-/

set_option autoImplicit false

namespace MustacheMarkup

open Source Piece

/-- Whether a character ends a value without quotes where it stands outside braces. -/
def endsUnquoted (c : Char) : Bool :=
  Text.isBlank c || c == '>'

/-- The characters that do not stand between `{{` and the next `}}`. Behind a `{{` that no `}}`
follows there are none. -/
def outside (s : List Char) : List Char :=
  match s with
  | [] => []
  | c :: rest =>
    if startsMustache (c :: rest) then
      match before? ['}', '}'] (rest.drop 1) with
      | none => []
      | some content => outside (rest.drop (content.length + 3))
    else c :: outside rest
termination_by s.length
decreasing_by all_goals simp only [List.length_cons, List.length_drop]; omega

/-- No character outside braces ends a value without quotes. -/
def Unended (s : List Char) : Prop :=
  ∀ c ∈ outside s, endsUnquoted c = false

/-- Whether something outside braces ends a value can be computed. -/
instance (s : List Char) : Decidable (Unended s) :=
  List.decidableBAll (fun c => endsUnquoted c = false) (outside s)

/-- What stands outside braces stands among the characters. -/
theorem mem_of_mem_outside {s : List Char} {c : Char} (h : c ∈ outside s) : c ∈ s := by
  fun_induction outside s with
  | case1 => exact h
  | case2 => cases h
  | case3 d rest _ content _ ih =>
    exact List.mem_cons_of_mem d (List.mem_of_mem_drop (ih h))
  | case4 d rest _ ih =>
    rcases List.mem_cons.mp h with rfl | hc
    · exact List.mem_cons_self
    · exact List.mem_cons_of_mem d (ih hc)

/-- Characters none of which ends a value do not end it outside braces either. -/
theorem unended_of_forall {s : List Char} (h : ∀ c ∈ s, endsUnquoted c = false) : Unended s :=
  fun c hc => h c (mem_of_mem_outside hc)

/-! ## Braces that are closed -/

/-- Wherever a mustache starts in the characters, if `behind` follows them, there is a `}}` for it
among them. -/
def Closes (s behind : List Char) : Prop :=
  ∀ t, t ≠ [] → t <:+ s → startsMustache (t ++ behind) = true →
    ∃ content, before? ['}', '}'] (t.drop 2) = some content

/-- What closes its mustaches does so from any later place on. -/
theorem Closes.suffix {s t behind : List Char} (h : Closes s behind) (ht : t <:+ s) :
    Closes t behind :=
  fun u hne hu => h u hne (hu.trans ht)

/-- A delimiter is found in front of itself. -/
theorem exists_before?_append {delimiter : List Char} (hne : delimiter ≠ []) (s : List Char) :
    ∃ content, before? delimiter (s ++ delimiter) = some content := by
  induction s with
  | nil =>
    obtain ⟨d, rest, rfl⟩ := List.exists_cons_of_ne_nil hne
    exact ⟨[], by
      rw [List.nil_append, before?, if_pos (List.isPrefixOf_iff_prefix.mpr List.prefix_rfl)]⟩
  | cons c s ih =>
    obtain ⟨content, hcontent⟩ := ih
    rw [List.cons_append, before?, hcontent]
    split
    · exact ⟨[], rfl⟩
    · exact ⟨c :: content, rfl⟩

/-- Characters that end with two closing braces close what starts in them. A mustache with three
braces may still be open by its own rule, but here only two are looked for. -/
theorem closes_of_suffix {s behind : List Char} (h : ['}', '}'] <:+ s) : Closes s behind := by
  intro t hne ht hstart
  have hnot : ∀ rest, startsMustache ('}' :: rest) = false := fun _ => rfl
  rcases Nat.le_or_le t.length 2 with hle | hle
  · -- What starts with a closing brace starts no mustache.
    have hbraces : t <:+ ['}', '}'] := List.suffix_of_suffix_length_le ht h hle
    obtain ⟨c, rest, rfl⟩ := List.exists_cons_of_ne_nil hne
    obtain rfl : c = '}' := by simpa using hbraces.subset List.mem_cons_self
    rw [List.cons_append, hnot] at hstart
    cases hstart
  · obtain ⟨u, rfl⟩ : ['}', '}'] <:+ t := List.suffix_of_suffix_length_le h ht hle
    match u with
    | [] => cases hstart
    | [c] =>
      simp [startsMustache, List.isPrefixOf] at hstart
    | c :: d :: u => exact exists_before?_append (by simp) u

/-- A piece of a value closes what starts in it, also where the value ends without a quote, as long
as no further brace follows. -/
theorem Piece.Stands.closes {p : Piece} {behind more : List Char} (h : p.Stands behind)
    (hmore : more.head? ≠ some '{') : Closes p.chars (behind ++ more) := by
  cases p with
  | text content =>
    obtain ⟨-, hinside, hend⟩ := h
    intro t hne ht hstart
    have hnot : startsMustache (t ++ (behind ++ more)) = false := by
      rcases hend with rfl | hbehind
      · have hinside' := hinside t hne ht
        rw [List.append_nil] at hinside'
        exact startsMustache_append hinside' hne hmore
      · exact startsMustache_of_behind hne (hinside t hne ht) hbehind
    rw [hnot] at hstart
    cases hstart
  | double content => exact closes_of_suffix ⟨['{', '{'] ++ content, by simp [chars]⟩
  | triple content => exact closes_of_suffix ⟨['{', '{', '{'] ++ content ++ ['}'], by simp [chars]⟩

/-- Where mustaches are closed, one starts exactly if it does so without what follows: two braces at
the very end would not be closed. -/
theorem startsMustache_of_closes {s behind : List Char} (h : Closes s behind) (hne : s ≠ []) :
    startsMustache (s ++ behind) = startsMustache s := by
  rw [Bool.eq_iff_iff]
  refine ⟨fun hstart => ?_, startsMustache_mono s behind⟩
  obtain ⟨content, hcontent⟩ := h s hne List.suffix_rfl hstart
  match s with
  | [] => exact absurd rfl hne
  | [c] => cases hcontent
  | c :: d :: s => simpa [startsMustache, List.isPrefixOf] using hstart

/-! ## The length of a value -/

/-- A value ends at once before a character that ends it. -/
theorem unquotedLength_of_ends {c : Char} (hc : endsUnquoted c = true) (s : List Char) :
    unquotedLength (c :: s) = .ok 0 := by
  have hc' : (Text.isBlank c || c == '>') = true := hc
  rw [unquotedLength, if_pos hc']

/-- A character that ends nothing belongs to the value, and the rest is as long as it is
by itself. -/
theorem unquotedLength_cons {c : Char} {s : List Char} {n : Nat} (hc : endsUnquoted c = false)
    (hstart : startsMustache (c :: s) = false) (hn : unquotedLength s = .ok n) :
    unquotedLength (c :: s) = .ok (n + 1) := by
  have hc' : ¬(Text.isBlank c || c == '>') = true := ne_true_of_eq_false hc
  rw [unquotedLength, if_neg hc', hstart, if_neg Bool.false_ne_true, hn]

/-- Braces are passed as a whole: what stands up to the closing ones belongs to the value, whatever
it is, and then the search goes on. -/
theorem unquotedLength_braces {c : Char} {rest behind content : List Char} {n : Nat}
    (hstart : startsMustache (c :: rest) = true)
    (hcontent : before? ['}', '}'] (rest.drop 1) = some content)
    (hn : unquotedLength (rest.drop (content.length + 3) ++ behind) = .ok n) :
    unquotedLength (c :: rest ++ behind) = .ok (content.length + 4 + n) := by
  obtain ⟨more, hmore⟩ := List.isPrefixOf_iff_prefix.mp hstart
  obtain ⟨rfl, hrest⟩ := List.cons.inj hmore
  have hc : ¬(Text.isBlank '{' || '{' == '>') = true := by decide
  have hlength := length_le_of_before?_drop (by simp) hcontent
  simp only [List.length_cons, List.length_nil] at hlength
  have hstart' : startsMustache ('{' :: (rest ++ behind)) = true :=
    startsMustache_mono _ behind hstart
  have hdrop : (rest ++ behind).drop 1 = rest.drop 1 ++ behind :=
    List.drop_append_of_le_length (by omega)
  have hdrop' : (rest ++ behind).drop (content.length + 3) =
      rest.drop (content.length + 3) ++ behind :=
    List.drop_append_of_le_length (by omega)
  rw [List.cons_append, unquotedLength, if_neg hc, if_pos hstart', hdrop,
    before?_append hcontent behind]
  dsimp only
  rw [hdrop', hn]

/-- Characters that close their braces belong to the value if none outside ends it. The induction is
on them, by what starts at each place. -/
theorem unquotedLength_of_unended {s behind : List Char} {n : Nat} (hcloses : Closes s behind)
    (hs : Unended s) (hn : unquotedLength behind = .ok n) :
    unquotedLength (s ++ behind) = .ok (s.length + n) := by
  unfold Unended at hs
  fun_induction outside s with
  | case1 => rw [List.nil_append, List.length_nil, Nat.zero_add, hn]
  | case2 c rest hstart hnone =>
    obtain ⟨content, hcontent⟩ := hcloses (c :: rest) (List.cons_ne_nil c rest) List.suffix_rfl
      (startsMustache_mono _ behind hstart)
    rw [List.drop_succ_cons, hnone] at hcontent
    cases hcontent
  | case3 c rest hstart content hcontent ih =>
    have hlength := length_le_of_before?_drop (by simp) hcontent
    simp only [List.length_cons, List.length_nil] at hlength
    have htail := ih (hcloses.suffix ((List.drop_suffix _ rest).trans (List.suffix_cons c rest))) hs
    rw [unquotedLength_braces hstart hcontent htail, List.length_drop, List.length_cons]
    congr 1
    omega
  | case4 c rest hstart ih =>
    obtain ⟨hc, hrest⟩ := List.forall_mem_cons.mp hs
    have hstart' := startsMustache_of_closes hcloses (List.cons_ne_nil c rest)
    rw [Bool.not_eq_true] at hstart
    rw [hstart, List.cons_append] at hstart'
    rw [List.cons_append, unquotedLength_cons hc hstart'
      (ih (hcloses.suffix (List.suffix_cons c rest)) hrest), List.length_cons, Nat.add_right_comm]

/-- If a character outside ends the value, the value is what stands before the first of them. What
follows does not matter then. -/
theorem exists_unquotedLength_of_ended {s behind : List Char} (hcloses : Closes s behind)
    (hs : ¬Unended s) : ∃ y c z, s = y ++ c :: z ∧ endsUnquoted c = true ∧
      unquotedLength (s ++ behind) = .ok y.length := by
  unfold Unended at hs
  fun_induction outside s with
  | case1 => exact absurd (List.forall_mem_nil _) hs
  | case2 => exact absurd (List.forall_mem_nil _) hs
  | case3 c rest hstart content hcontent ih =>
    have hlength := length_le_of_before?_drop (by simp) hcontent
    simp only [List.length_cons, List.length_nil] at hlength
    obtain ⟨y, d, z, hdrop, hd, hn⟩ :=
      ih (hcloses.suffix ((List.drop_suffix _ rest).trans (List.suffix_cons c rest))) hs
    refine ⟨c :: (rest.take (content.length + 3) ++ y), d, z, ?_, hd, ?_⟩
    · rw [List.cons_append, List.append_assoc, ← hdrop, List.take_append_drop]
    · rw [unquotedLength_braces hstart hcontent hn, List.length_cons, List.length_append,
        List.length_take]
      congr 1
      omega
  | case4 c rest hstart ih =>
    cases hc : endsUnquoted c with
    | true => exact ⟨[], c, rest, rfl, hc, unquotedLength_of_ends hc _⟩
    | false =>
      have hrest : ¬∀ d ∈ outside rest, endsUnquoted d = false :=
        fun hall => hs (List.forall_mem_cons.mpr ⟨hc, hall⟩)
      obtain ⟨y, d, z, hy, hd, hn⟩ := ih (hcloses.suffix (List.suffix_cons c rest)) hrest
      have hstart' := startsMustache_of_closes hcloses (List.cons_ne_nil c rest)
      rw [Bool.not_eq_true] at hstart
      rw [hstart, List.cons_append] at hstart'
      refine ⟨c :: y, d, z, by rw [hy, List.cons_append], hd, ?_⟩
      rw [List.cons_append, unquotedLength_cons hc hstart' hn, List.length_cons]

/-- Pieces that nothing ends belong to the value as a whole. -/
theorem unquotedLength_flat {before after : List Piece} {more : List Char} {n : Nat}
    (hpieces : AllStand (before ++ after) []) (hmore : more.head? ≠ some '{')
    (hbefore : ∀ p ∈ before, Unended p.chars) (hn : unquotedLength (flat after ++ more) = .ok n) :
    unquotedLength (flat (before ++ after) ++ more) = .ok ((flat before).length + n) := by
  induction before with
  | nil => rw [List.nil_append, hn, flat, List.flatMap_nil, List.length_nil, Nat.zero_add]
  | cons p before ih =>
    rw [List.cons_append] at hpieces
    obtain ⟨hp, hrest⟩ := hpieces
    obtain ⟨hunended, hbefore⟩ := List.forall_mem_cons.mp hbefore
    rw [List.append_nil] at hp
    rw [List.cons_append, flat_cons, List.append_assoc,
      unquotedLength_of_unended (hp.closes hmore) hunended (ih hrest hbefore), flat_cons,
      List.length_append, Nat.add_assoc]

/-! ## Reading -/

/-- Where an error stands depends on the line and the column only. -/
theorem ScanFault.at_after (fault : ScanFault) (p q : Position) (hline : p.line = q.line)
    (hcolumn : p.column = q.column) (s : List Char) :
    fault.at (p.after s) = fault.at (q.after s) := by
  induction s generalizing p q with
  | nil =>
    show (⟨fault, p.line, p.column⟩ : ScanError) = ⟨fault, q.line, q.column⟩
    rw [hline, hcolumn]
  | cons c s ih =>
    refine ih (p.next c) (q.next c) ?_ ?_
    · unfold Position.next
      split <;> simp [hline]
    · unfold Position.next
      split <;> simp [hcolumn]

/-- A value without quotes is read as its pieces if nothing ends one of them. -/
theorem scanUnquoted_flat {src : Source} {pieces : List Piece} {more : List Char}
    (hsrc : src.rest = flat pieces ++ more) (hpieces : AllStand pieces [])
    (hmore : endsValue more = true) (hunended : ∀ p ∈ pieces, Unended p.chars) :
    ∃ tokens : List Token, tokens.map Token.lexeme = pieces.map lexeme ∧
      scanUnquoted src = .ok (tokens, src.advance (flat pieces).length) := by
  have hnone : unquotedLength more = .ok 0 := by
    cases more with
    | nil => rw [unquotedLength]
    | cons c more => exact unquotedLength_of_ends hmore more
  have hall : AllStand (pieces ++ []) [] := by rwa [List.append_nil]
  have hlength := unquotedLength_flat hall (head?_ne_brace_of_endsValue hmore) hunended hnone
  rw [List.append_nil, ← hsrc, Nat.add_zero] at hlength
  obtain ⟨tokens, hlexemes, hvalue⟩ := scanValue_flat src.position hpieces
  exact ⟨tokens, hlexemes, scanUnquoted_of_rest hsrc hlength hvalue⟩

/-- Where a value is cut off in a mustache with three braces, that is in its content, since no brace
ends a value. -/
theorem exists_content_of_cut {content y z : List Char} {c : Char} (hc : endsUnquoted c = true)
    (h : (Piece.triple content).chars = y ++ c :: z) :
    ∃ y' z', y = ['{', '{', '{'] ++ y' ∧ content = y' ++ c :: z' := by
  have hopening : c ≠ '{' := by
    rintro rfl
    revert hc
    decide
  have hclosing : c ∉ ['}', '}', '}'] := by
    intro hmem
    obtain rfl : c = '}' := by simpa using hmem
    revert hc
    decide
  match y with
  | [] => exact absurd (List.cons.inj h).1.symm hopening
  | [_] => exact absurd (List.cons.inj (List.cons.inj h).2).1.symm hopening
  | [_, _] => exact absurd (List.cons.inj (List.cons.inj (List.cons.inj h).2).2).1.symm hopening
  | a :: b :: d :: y =>
    simp only [chars, List.cons_append, List.nil_append, List.cons.injEq] at h
    obtain ⟨rfl, rfl, rfl, hbehind⟩ := h
    refine ⟨y, ?_⟩
    rcases List.append_eq_append_iff.mp hbehind with ⟨t, -, ht⟩ | ⟨t, hcontent, ht⟩
    · exact absurd (by rw [ht]; simp) hclosing
    · cases t with
      | nil => exact absurd (by rw [← List.nil_append ['}', '}', '}'], ← ht]; simp) hclosing
      | cons e t =>
        obtain ⟨rfl, -⟩ := List.cons.inj ht
        exact ⟨t, rfl, hcontent⟩

/-- The end of a mustache is not found in what comes before it. -/
theorem before?_eq_none_of_append {delimiter content y z : List Char} {c : Char}
    (h : before? delimiter (content ++ delimiter) = some content)
    (hcontent : content = y ++ c :: z) :
    before? delimiter y = none := by
  cases hy : before? delimiter y with
  | none => rfl
  | some found =>
    have hfound := before?_append hy (c :: z ++ delimiter)
    have hlength := (prefix_of_before? hy).length_le
    rw [← List.append_assoc, ← hcontent, h] at hfound
    rw [← Option.some.inj hfound, hcontent, List.length_append, List.length_append,
      List.length_cons] at hlength
    omega

/-- A value cannot be read if it ends within a mustache with three braces. The fault is where that
mustache starts, behind the pieces that could be read. -/
theorem scanValue_of_unclosed (p : Position) {before : List Piece} {y : List Char}
    (hbefore : AllStand before (['{', '{', '{'] ++ y)) (hnone : before? ['}', '}', '}'] y = none) :
    scanValue p (flat before ++ (['{', '{', '{'] ++ y)) =
      .error (ScanFault.unterminatedMustache.at (p.after (flat before))) := by
  let value : Source := ⟨⟨0, p.line, p.column⟩, flat before ++ (['{', '{', '{'] ++ y)⟩
  obtain ⟨tokens, -, hscan⟩ := @scanAll_flat value before _ rfl hbefore
  have hlater : (value.advance (flat before).length).rest = ['{', '{', '{'] ++ y :=
    rest_advance_append rfl
  have herror : scanInValue (value.advance (flat before).length) =
      .error (ScanFault.unterminatedMustache.at (value.advance (flat before).length).position) := by
    rw [scanInValue_eq_scanMustache (by rw [hlater]; rfl)]
    refine scanMustache_eq_error_iff.mpr ⟨rfl, .inl ⟨?_, ?_⟩⟩
    · rw [hlater]
      rfl
    · rw [hlater]
      exact hnone
  have hposition : (value.advance (flat before).length).position =
      value.position.after (flat before) := by
    rw [Source.position_advance, List.take_left]
  rw [scanValue, hscan, scanAll_of_error (by rw [hlater]; simp) herror, hposition,
    ScanFault.at_after _ value.position p rfl rfl]
  rfl

/-- A mustache with three braces in which something ends the value is cut off, and is not closed
then. -/
theorem scanUnquoted_of_cut {src : Source} {before after : List Piece} {content more : List Char}
    (hsrc : src.rest = flat (before ++ .triple content :: after) ++ more)
    (hpieces : AllStand (before ++ .triple content :: after) [])
    (hmore : more.head? ≠ some '{') (hbefore : ∀ p ∈ before, Unended p.chars)
    (hended : ¬Unended (Piece.triple content).chars) :
    scanUnquoted src =
      .error (ScanFault.unterminatedMustache.at (src.position.after (flat before))) := by
  obtain ⟨hstand, hcontent, -⟩ := allStand_append.mp hpieces
  have hcloses : Closes (Piece.triple content).chars (flat after ++ more) :=
    @Stands.closes (.triple content) (flat after) more hcontent hmore
  obtain ⟨y, c, z, hchars, hc, hn⟩ := exists_unquotedLength_of_ended hcloses hended
  obtain ⟨y', z', rfl, hcut⟩ := exists_content_of_cut hc hchars
  have hlength : unquotedLength src.rest =
      .ok ((flat before).length + (['{', '{', '{'] ++ y').length) := by
    rw [hsrc]
    refine unquotedLength_flat hpieces hmore hbefore ?_
    rw [flat_cons, List.append_assoc, hn]
  have hrest : src.rest = flat before ++ (['{', '{', '{'] ++ y') ++
      (c :: z ++ (flat after ++ more)) := by
    rw [hsrc, flat_append, flat_cons, hchars]
    simp only [List.append_assoc]
  have htake : src.rest.take ((flat before).length + (['{', '{', '{'] ++ y').length) =
      flat before ++ (['{', '{', '{'] ++ y') := by
    rw [hrest, ← List.length_append, List.take_left]
  have hbehind : AllStand before (['{', '{', '{'] ++ y') := by
    refine @AllStand.cut before _ (c :: z ++ flat after) ?_ ?_
    · rw [flat_cons, hchars, List.append_nil] at hstand
      simpa only [List.append_assoc] using hstand
    · rw [List.length_append]
      exact Nat.le_add_right_of_le (by decide)
  rw [scanUnquoted, hlength]
  dsimp only
  rw [htake, scanValue_of_unclosed _ hbehind (before?_eq_none_of_append hcontent hcut)]

/-- A value between double quotes is read as its pieces. -/
theorem scanQuoted_flat {src : Source} {pieces : List Piece} {more : List Char}
    (hsrc : src.rest = '"' :: (flat pieces ++ '"' :: more)) (hpieces : AllStand pieces [])
    (hquote : '"' ∉ flat pieces) :
    ∃ tokens : List Token, ∃ later : Source, tokens.map Token.lexeme = pieces.map lexeme ∧
      later.rest = more ∧ scanQuoted '"' src = .ok (tokens, later) := by
  obtain ⟨tokens, hlexemes, hvalue⟩ := scanValue_flat (src.advance 1).position hpieces
  obtain ⟨later, hscan, hlater⟩ := scanQuoted_of_rest hsrc hquote hvalue
  exact ⟨tokens, later, hlexemes, hlater, hscan⟩

end MustacheMarkup
