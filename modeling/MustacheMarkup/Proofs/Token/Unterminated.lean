import MustacheMarkup.Proofs.Journal.Fails
import MustacheMarkup.Proofs.Token.Alike
import MustacheMarkup.Proofs.Token.Stretch

/-!
# What a fault points at

A file cannot be read if something in it is opened and not closed. The fault that is reported then
points at what is open (`unterminated_of_tokenize`). Two offsets say where: everything before the
offset `p` can be read, and the token that starts there cannot, wherever it stands; the line and
column of the fault are those of the offset `q`. Only in a tag can `q` be another offset than `p`:
an open value is reported behind its quote, and an open mustache in a value is reported where it
starts.
-/

set_option autoImplicit false

namespace MustacheMarkup

open Source

/-! ## What is open -/

/-- A mustache starts here, and the braces that would close it do not follow. -/
structure OpenMustache (s : List Char) : Prop where
  starts : startsMustache s = true
  triple : ['{', '{', '{'] <+: s → ¬['}', '}', '}'] <:+: s.drop 3
  double : ¬['{', '{', '{'] <+: s → ¬['}', '}'] <:+: s.drop 2

/-- Behind this offset stands a quote that does not occur again. -/
def OpenQuote (file : List Char) (q : Nat) : Prop :=
  ∃ quote ∈ ['"', '\''], 0 < q ∧ file[q - 1]? = some quote ∧ quote ∉ file.drop q

/-- What is open in a file where a fault is reported at the offset `q`, if the token that cannot be
read starts at the offset `p`. -/
def ScanFault.PointsAt (file : List Char) (p q : Nat) : ScanFault → Prop
  | .unterminatedComment =>
    q = p ∧ startsComment (file.drop p) = true ∧ ¬['-', '-', '>'] <:+: file.drop (p + 4)
  | .unterminatedTag name =>
    q = p ∧ startsTag (file.drop p) = true ∧ ∃ mark ∈ [[], ['/'], ['!']],
      '<' :: (mark ++ name.toList) <+: file.drop p
  | .unterminatedValue => p < q ∧ OpenQuote file q
  | .unterminatedMustache =>
    startsMustache (file.drop q) = true ∧ (q = p → OpenMustache (file.drop p))

/-- The line and column of an error are those of an offset of the file. -/
structure ScanError.ReportedAt (file : List Char) (q : Nat) (e : ScanError) : Prop where
  le_length : q ≤ file.length
  line_eq : e.line = lineBehind (file.take q)
  column_eq : e.column = columnBehind (file.take q)

/-- In a tag that is read from the offset `p` on, a value is open or a mustache in a value is. -/
def ScanError.InTagFrom (file : List Char) (p : Nat) (e : ScanError) : Prop :=
  ∃ q, p ≤ q ∧ e.ReportedAt file q ∧
    (e.fault = .unterminatedValue ∧ OpenQuote file q ∨
      e.fault = .unterminatedMustache ∧ startsMustache (file.drop q) = true)

/-- What is open in a tag from one offset on is open in it from an earlier one. -/
theorem ScanError.InTagFrom.mono {file : List Char} {p p' : Nat} {e : ScanError}
    (h : e.InTagFrom file p) (hle : p' ≤ p) : e.InTagFrom file p' := by
  obtain ⟨q, hq, hreported, hopen⟩ := h
  exact ⟨q, Nat.le_trans hle hq, hreported, hopen⟩

/-! ## Places -/

/-- A fault at the place that a source has reached is reported at its offset in the file. -/
theorem Source.ReadsIn.reportedAt {file : List Char} {first last : Nat} {src : Source}
    (h : src.ReadsIn file first last) (hlast : last ≤ file.length) (fault : ScanFault) :
    (fault.at src.position).ReportedAt file (first + src.position.offset) where
  le_length := by
    have hend := h.last_eq
    omega
  line_eq := h.line_eq
  column_eq := h.column_eq

/-- In a source that is all of a file the offset of a place is that in the file. -/
theorem Source.ReadsIn.reportedAt_whole {file : List Char} {src : Source}
    (h : src.ReadsIn file 0 file.length) (fault : ScanFault) :
    (fault.at src.position).ReportedAt file src.position.offset := by
  have hreported := h.reportedAt (Nat.le_refl _) fault
  rwa [Nat.zero_add] at hreported

/-- Reading on leads to no smaller offset. -/
theorem Source.LeadsTo.offset_le {file : List Char} {first last : Nat} {src later : Source}
    (h : src.LeadsTo later) (hsrc : src.ReadsIn file first last) :
    src.position.offset ≤ later.position.offset := by
  have hend := hsrc.last_eq
  have hend' := (h.readsIn hsrc).last_eq
  obtain ⟨n, rfl⟩ := h
  have hshrinks := length_rest_advance_le n src
  omega

/-! ## Mustaches -/

/-- If a mustache cannot be read, it is open, and the error stands where it starts. -/
theorem open_of_scanMustache {src : Source} {e : ScanError}
    (hstart : startsMustache src.rest = true) (h : scanMustache src = .error e) :
    e = ScanFault.unterminatedMustache.at src.position ∧ OpenMustache src.rest := by
  obtain ⟨rfl, ⟨htriple, hnone⟩ | ⟨htriple, hnone⟩⟩ := scanMustache_eq_error_iff.mp h
  · rw [List.isPrefixOf_iff_prefix] at htriple
    refine ⟨rfl, hstart, fun _ => ?_, fun hnot => absurd htriple hnot⟩
    exact not_infix_of_before?_eq_none (by simp) hnone
  · rw [Bool.eq_false_iff, ne_eq, List.isPrefixOf_iff_prefix] at htriple
    refine ⟨rfl, hstart, fun hyes => absurd hyes htriple, fun _ => ?_⟩
    exact not_infix_of_before?_eq_none (by simp) hnone

/-! ## Values -/

/-- If what stands in a value cannot be read, it is an open mustache. -/
theorem open_of_scanInValue {src : Source} {e : ScanError} (h : scanInValue src = .error e) :
    e = ScanFault.unterminatedMustache.at src.position ∧ OpenMustache src.rest := by
  obtain ⟨hstart, h⟩ | ⟨-, h⟩ := scanInValue_cases h
  · exact open_of_scanMustache hstart h
  · cases h

/-- If a value cannot be read, a mustache in it is open: within the value nothing closes it,
whatever stands behind the value. -/
theorem inTagFrom_of_scanValue {file value rest : List Char} {src : Source} {e : ScanError}
    (hsrc : src.ReadsIn file 0 file.length) (hrest : src.rest = value ++ rest)
    (h : scanValue src.position value = .error e) : e.InTagFrom file src.position.offset := by
  have hlast := hsrc.last_eq
  rw [hrest, List.length_append] at hlast
  refine scanAll_error_induction (motive := fun part e =>
    part.ReadsIn file src.position.offset (src.position.offset + value.length) →
      e.InTagFrom file (src.position.offset + part.position.offset)) ?_ ?_ h (hsrc.value hrest)
  · intro part e _ hpart hreads
    obtain ⟨rfl, hopen⟩ := open_of_scanInValue hpart
    obtain ⟨more, hmore⟩ := hreads.stands
    refine ⟨_, Nat.le_refl _, hreads.reportedAt (by omega) _, .inr ⟨rfl, ?_⟩⟩
    rw [← hmore]
    exact startsMustache_mono _ more hopen.starts
  · intro part lexeme later e _ hpart ih hreads
    have hlater := leadsTo_scanInValue hpart
    refine (ih (hlater.readsIn hreads)).mono ?_
    have hforward := hlater.offset_le hreads
    omega

/-- Where the end of a value without quotes is not found, a mustache starts: it is open up to the
end of the file. -/
theorem startsMustache_of_unquotedLength {s : List Char} {n : Nat}
    (h : unquotedLength s = .error n) : startsMustache (s.drop n) = true := by
  fun_induction unquotedLength s generalizing n with
  | case1 => cases h
  | case2 => cases h
  | case3 c rest hends hstart hnone =>
    cases h
    exact hstart
  | case4 c rest hends hstart content hcontent n' hn' ih =>
    cases h
    have hsum : content.length + 4 + n' = content.length + 3 + n' + 1 := by omega
    rw [hsum, List.drop_succ_cons, ← List.drop_drop]
    exact ih hn'
  | case5 => cases h
  | case6 c rest hends hstart n' hn' ih =>
    cases h
    exact ih hn'
  | case7 => cases h

/-- If a value without quotes cannot be read, a mustache in it is open. -/
theorem inTagFrom_of_scanUnquoted {file : List Char} {src : Source} {e : ScanError}
    (hsrc : src.ReadsIn file 0 file.length) (h : scanUnquoted src = .error e) :
    e.InTagFrom file src.position.offset := by
  obtain ⟨n, hn, rfl⟩ | ⟨n, -, hvalue⟩ := scanUnquoted_eq_error_iff.mp h
  · have hlater : src.LeadsTo (src.advance n) := ⟨n, rfl⟩
    have hreads := hlater.readsIn hsrc
    refine ⟨_, hlater.offset_le hsrc, hreads.reportedAt_whole _, .inr ⟨rfl, ?_⟩⟩
    rw [hreads.drop_eq, rest_advance]
    exact startsMustache_of_unquotedLength hn
  · exact inTagFrom_of_scanValue hsrc (List.take_append_drop n src.rest).symm hvalue

/-- If a value between quotes cannot be read, its quote is open or a mustache in it is. In the first
case the fault is reported just behind the quote. -/
theorem inTagFrom_of_scanQuoted {file rest : List Char} {quote : Char} {src : Source}
    {e : ScanError} (hquote : quote ∈ ['"', '\'']) (hsrc : src.ReadsIn file 0 file.length)
    (hrest : src.rest = quote :: rest) (h : scanQuoted quote src = .error e) :
    e.InTagFrom file src.position.offset := by
  have hopen : src.Passes [quote] (src.advance 1) := Source.passes_of_rest (s := [quote]) hrest
  have hinner := hopen.readsIn hsrc
  have hoffset := hopen.offset_eq hsrc
  rw [List.length_singleton] at hoffset
  obtain ⟨hlength, hvalue⟩ | ⟨hlength, rfl⟩ := scanQuoted_eq_error_iff.mp h
  · obtain ⟨more, hmore⟩ := eq_takeWhile_append hlength
    refine (inTagFrom_of_scanValue hinner hmore hvalue).mono ?_
    omega
  · refine ⟨_, by omega, hinner.reportedAt_whole _, .inl ⟨rfl, quote, hquote, by omega, ?_, ?_⟩⟩
    · rw [hoffset, Nat.add_sub_cancel, ← List.head?_drop, hsrc.drop_eq, hrest]
      rfl
    · -- The characters up to the next quote are all that are left.
      have hall : (src.advance 1).rest.takeWhile (· != quote) = (src.advance 1).rest :=
        (List.takeWhile_prefix _).eq_of_length_le (Nat.le_of_not_lt hlength)
      rw [hinner.drop_eq, ← hall]
      exact not_mem_takeWhile_ne _ quote

/-! ## Tags -/

/-- If the value of an attribute cannot be read, it is open in one of these ways. -/
theorem inTagFrom_of_scanAttributeValue {file : List Char} {src : Source} {e : ScanError}
    (hsrc : src.ReadsIn file 0 file.length) (h : scanAttributeValue src = .error e) :
    e.InTagFrom file src.position.offset := by
  obtain ⟨quote, rest, hquote, hrest, h⟩ | ⟨-, h⟩ := scanAttributeValue_cases h
  · exact inTagFrom_of_scanQuoted hquote hsrc hrest h
  · exact inTagFrom_of_scanUnquoted hsrc h

/-- Behind blanks that are skipped, reading goes on further down the file. -/
theorem Source.leadsTo_skipBlanks (src : Source) : src.LeadsTo src.skipBlanks :=
  ⟨_, rfl⟩

/-- If an attribute cannot be read, its value cannot. -/
theorem inTagFrom_of_scanAttribute {file : List Char} {src : Source} {e : ScanError}
    (hsrc : src.ReadsIn file 0 file.length) (h : scanAttribute src = .error e) :
    e.InTagFrom file src.position.offset := by
  obtain ⟨-, hvalue⟩ := scanAttribute_eq_error_iff.mp h
  have hnamed : src.LeadsTo (src.advance (attributeName src.rest).length).skipBlanks :=
    LeadsTo.trans ⟨_, rfl⟩ (leadsTo_skipBlanks _)
  have hlater := hnamed.trans (LeadsTo.trans ⟨1, rfl⟩ (leadsTo_skipBlanks _))
  exact (inTagFrom_of_scanAttributeValue (hlater.readsIn hsrc) hvalue).mono (hlater.offset_le hsrc)

/-- Behind an attribute, reading goes on further down the file. -/
theorem leadsTo_scanAttribute {file : List Char} {src later : Source} {a : RawAttribute}
    (hsrc : src.ReadsIn file 0 file.length) (h : scanAttribute src = .ok (a, later)) :
    src.LeadsTo later := by
  obtain ⟨text, blanks, mid, htext, -, hblanks, -⟩ := stands_of_scanAttribute hsrc h
  exact htext.leadsTo.trans hblanks.leadsTo

/-- If the attributes of a tag cannot be read, the tag does not end, or it has a value that cannot
be read. -/
theorem inTagFrom_of_scanAttributes {file : List Char} {unterminated e : ScanError} {src : Source}
    (hsrc : src.ReadsIn file 0 file.length) (h : scanAttributes unterminated src = .error e) :
    e = unterminated ∨ e.InTagFrom file src.position.offset := by
  fun_induction scanAttributes unterminated src generalizing e with
  | case1 =>
    cases h
    exact .inl rfl
  | case2 => cases h
  | case3 => cases h
  | case4 src rest hne hslash hlt ih =>
    have hlater : src.LeadsTo (src.skipBlanks.advance 1) :=
      (leadsTo_skipBlanks src).trans ⟨1, rfl⟩
    exact (ih (hlater.readsIn hsrc) h).imp_right fun hfrom => hfrom.mono (hlater.offset_le hsrc)
  | case5 src c rest hbracket _ hslash hrest e' hattribute =>
    cases h
    have hlater := leadsTo_skipBlanks src
    exact .inr ((inTagFrom_of_scanAttribute (hlater.readsIn hsrc) hattribute).mono
      (hlater.offset_le hsrc))
  | case6 src c rest hbracket _ hslash hrest a mid hattribute _ e' hmore ih =>
    cases h
    have hskipped := leadsTo_skipBlanks src
    have hlater := hskipped.trans (leadsTo_scanAttribute (hskipped.readsIn hsrc) hattribute)
    exact (ih (hlater.readsIn hsrc) hmore).imp_right fun hfrom =>
      hfrom.mono (hlater.offset_le hsrc)
  | case7 => cases h

/-! ## Files -/

/-- What a fault points at if the token that a source goes on with cannot be read. -/
def ScanError.Explained (file : List Char) (p : Nat) (e : ScanError) : Prop :=
  ∃ q, p ≤ q ∧ e.ReportedAt file q ∧ e.fault.PointsAt file p q

variable {file : List Char} {src : Source} {e : ScanError}

/-- If a tag cannot be read, it is not closed, or something in one of its values is open. Only in
the second case is the fault at another place than the tag. -/
theorem explained_of_scanTag (hsrc : src.ReadsIn file 0 file.length)
    (hstart : startsTag src.rest = true) (h : scanTag src = .error e) :
    e.Explained file src.position.offset := by
  obtain ⟨mark, c, rest, hmark, hc, hrest⟩ := startsTag_iff.mp hstart
  have hmarked : src.Passes ('<' :: mark) (src.advance (mark.length + 1)) :=
    Source.passes_of_rest (s := '<' :: mark) hrest
  have hname := Source.passes_of_rest (List.takeWhile_append_dropWhile
    (p := isTagNameChar) (l := (src.advance (mark.length + 1)).rest)).symm
  have hopened := hmarked.trans hname
  have hoffset := hopened.offset_eq hsrc
  rw [scanTag_eq hmark hc hrest] at h
  dsimp only at h
  split at h
  · rename_i hattributes
    cases h
    rcases inTagFrom_of_scanAttributes (hopened.readsIn hsrc) hattributes with rfl | hfrom
    · refine ⟨_, Nat.le_refl _, hsrc.reportedAt_whole _, rfl, ?_, mark, hmark, ?_⟩
      · rw [hsrc.drop_eq]
        exact hstart
      · rw [String.toList_ofList, hsrc.drop_eq, hopened.rest_eq]
        exact List.prefix_append _ _
    · obtain ⟨q, hq, hreported, hopen⟩ := hfrom
      have hinside : src.position.offset < q := by
        simp only [List.length_append, List.length_cons] at hoffset
        omega
      refine ⟨q, Nat.le_of_lt hinside, hreported, ?_⟩
      rcases hopen with ⟨hfault, hquote⟩ | ⟨hfault, hmustache⟩
      · rw [hfault]
        exact ⟨hinside, hquote⟩
      · rw [hfault]
        exact ⟨hmustache, fun heq => absurd heq (Nat.ne_of_gt hinside)⟩
  · cases h

/-- What a fault points at if the next token cannot be read. -/
theorem explained_of_scanNext (hsrc : src.ReadsIn file 0 file.length)
    (h : scanNext src = .error e) : e.Explained file src.position.offset := by
  have hreported := hsrc.reportedAt_whole
  obtain ⟨hstart, h⟩ | ⟨hstart, h⟩ | ⟨hstart, h⟩ | ⟨-, h⟩ := scanNext_cases h
  · obtain ⟨rfl, hopen⟩ := open_of_scanMustache hstart h
    rw [← hsrc.drop_eq] at hopen
    exact ⟨_, Nat.le_refl _, hreported _, hopen.starts, fun _ => hopen⟩
  · obtain ⟨rfl, hnone⟩ := scanComment_eq_error_iff.mp h
    rw [← hsrc.drop_eq, List.drop_drop] at hnone
    rw [← hsrc.drop_eq] at hstart
    exact ⟨_, Nat.le_refl _, hreported _, rfl, hstart,
      not_infix_of_before?_eq_none (by simp) hnone⟩
  · exact explained_of_scanTag hsrc hstart h
  · cases h

/-- If a source cannot be read, it can be cut off before a token that cannot be read. -/
theorem exists_cutBehind_of_error (hsrc : src.ReadsIn file 0 file.length)
    (h : src.tokens = .error e) : ∃ tokens own, ∃ failing : Source,
      CutBehind src tokens own failing.rest ∧ failing.ReadsIn file 0 file.length ∧
        scanNext failing = .error e := by
  refine scanAll_error_induction (motive := fun src e => src.ReadsIn file 0 file.length →
    ∃ tokens own, ∃ failing : Source, CutBehind src tokens own failing.rest ∧
      failing.ReadsIn file 0 file.length ∧ scanNext failing = .error e) ?_ ?_ h hsrc
  · exact fun src e _ hnext hsrc => ⟨[], [], src, cutBehind_nil src, hsrc, hnext⟩
  · intro src lexeme later e hs hnext ih hsrc
    obtain ⟨tokens, own, failing, hcut, hfailing, herror⟩ :=
      ih ((stands_of_scanNext hsrc hnext).1.readsIn hsrc)
    obtain ⟨s, hcut'⟩ := hcut.cons hsrc hs hnext
    exact ⟨_, _, failing, hcut', hfailing, herror⟩

/-- If a file cannot be read, everything before some offset can be read, the token that starts there
cannot, and the fault points at what is open there. -/
theorem unterminated_of_tokenize (source : String) (e : ScanError)
    (h : tokenize source = .error e) :
    ∃ p q, p ≤ q ∧ q ≤ source.toList.length ∧
      (∃ tokens, tokenize (String.ofList (source.toList.take p)) = .ok tokens) ∧
      (∃ e', scanNext (Source.ofString (String.ofList (source.toList.drop p))) = .error e' ∧
        e'.fault = e.fault) ∧
      e.line = lineBehind (source.toList.take q) ∧
      e.column = columnBehind (source.toList.take q) ∧
      e.fault.PointsAt source.toList p q := by
  have hstart := readsIn_ofString source
  obtain ⟨tokens, own, failing, hcut, hfailing, herror⟩ := exists_cutBehind_of_error hstart h
  obtain ⟨q, hle, hreported, hpoints⟩ := explained_of_scanNext hfailing herror
  have hsource : source.toList = own ++ failing.rest := hcut.rest_eq
  have hoffset : failing.position.offset = own.length := by
    have hlength := hfailing.last_eq
    rw [hsource, List.length_append] at hlength
    omega
  refine ⟨_, q, hle, hreported.le_length, ?_, ?_, hreported.line_eq, hreported.column_eq, hpoints⟩
  · have hpart : Excerpt .start failing.rest (Source.ofString source)
        (Source.ofString (String.ofList own)) := by
      refine ⟨Position.start.follows_self, Position.start.since_self.symm, ?_⟩
      rw [Source.ofString, Source.ofString, String.toList_ofList]
      exact hcut.rest_eq
    rw [hoffset, hsource, List.take_left]
    exact ⟨_, hcut.tokens_eq .start _ hpart⟩
  · have hrest : failing.rest =
        (Source.ofString (String.ofList (source.toList.drop failing.position.offset))).rest := by
      rw [hfailing.drop_eq, Source.ofString, String.toList_ofList]
    have halike := alike_scanNext hrest
    rw [herror] at halike
    rcases halike.error_or_ok with ⟨e₁, e', he, he', hfault⟩ | ⟨_, _, hok, -⟩
    · cases he
      exact ⟨e', he', hfault.symm⟩
    · cases hok

/-- A file with a tag in which a mustache is open, in a value that other mustaches stand in. -/
def openInValue : String :=
  "a\x7b\x7bb\x7d\x7d<!---->
<p c='\x7b\x7bd\x7d\x7d
 \x7b\x7b\x7be\x7d\x7d'>\x7d\x7d\x7d"

/-- The theorem at a mustache that is open in a value: everything before the tag can be read, and
the error stands at the mustache. -/
theorem unterminated_in_value :
    tokenize openInValue = .error (ScanFault.unterminatedMustache.at ⟨0, 3, 2⟩) ∧
      ∃ p q, p ≤ q ∧ q ≤ openInValue.toList.length ∧
        (∃ tokens, tokenize (String.ofList (openInValue.toList.take p)) = .ok tokens) ∧
        (∃ e', scanNext (Source.ofString (String.ofList (openInValue.toList.drop p))) = .error e' ∧
          e'.fault = .unterminatedMustache) ∧
        3 = lineBehind (openInValue.toList.take q) ∧
        2 = columnBehind (openInValue.toList.take q) ∧
        ScanFault.unterminatedMustache.PointsAt openInValue.toList p q := by
  have herror : tokenize openInValue = .error (ScanFault.unterminatedMustache.at ⟨0, 3, 2⟩) :=
    Journal.error?_eq_some_iff.mp (by decide +kernel)
  exact ⟨herror, unterminated_of_tokenize openInValue _ herror⟩

end MustacheMarkup
