import MustacheMarkup.Proofs.Token.Places

/-!
# How tags are laid out in a file

`Tag.Stands` says how a tag is spelled in a file: its opening, its attributes one after another with
blanks and slashes between them, and its end. For an attribute with a value it says where the value
stands and that the tokens of the value cover it. Every tag of a file stands where its token says
(`spans_of_tokenize`), so the lines and columns in a value are those of the file as well.
-/

set_option autoImplicit false

namespace MustacheMarkup

/-! ## Tags in a file -/

/-- The value of an attribute and the quote that stands on either side of it, which the value does
not contain. Without quotes the value does not start with one, and what follows ends it. -/
inductive Delimits (behind : List Char) : List Char → List Char → Prop where
  | quoted {quote : Char} {value : List Char} (hquote : quote = '"' ∨ quote = '\'')
      (hvalue : quote ∉ value) : Delimits behind [quote] value
  | bare {value : List Char} (hstart : value.head? ≠ some '"' ∧ value.head? ≠ some '\'')
      (hbehind : endsValue behind = true) : Delimits behind [] value

/-- What stands in a tag before the value of an attribute: the name, an equals sign with blanks
around it, and the quote if there is one. -/
def valueOpening (name : String) (blanks blanks' quote : List Char) : List Char :=
  name.toList ++ (blanks ++ '=' :: (blanks' ++ quote))

/-- An attribute stands in a file from one offset to another. If it has a value, the tokens of the
value cover it where it stands. -/
inductive RawAttribute.Stands (file : List Char) (start : Nat) : RawAttribute → Nat → Prop where
  | bare {name : String} (hname : StandsAt file start name.toList) :
      RawAttribute.Stands file start ⟨name, none⟩ (start + name.toList.length)
  | valued {name : String} {tokens : List Token} {blanks blanks' quote value : List Char}
      {stop : Nat} (hblanks : ∀ c ∈ blanks ++ blanks', Text.isBlank c = true)
      (hvalue : Delimits (file.drop stop) quote value)
      (hstands : StandsAt file start (valueOpening name blanks blanks' quote ++ (value ++ quote)))
      (hstop : stop = start + (valueOpening name blanks blanks' quote ++ (value ++ quote)).length)
      (htokens : Covers file (start + (valueOpening name blanks blanks' quote).length) tokens
        value.length) :
      RawAttribute.Stands file start ⟨name, some tokens⟩ stop

/-- A character that may stand between the attributes of a tag. -/
def isTagGap (c : Char) : Bool :=
  Text.isBlank c || c == '/'

/-- The attributes of a tag and the bracket that ends the tag stand in a file one after another,
from one offset to another. -/
def AttributesStand (file : List Char) : Nat → List RawAttribute → Nat → Prop
  | start, [], stop => ∃ gap : List Char, (∀ c ∈ gap, isTagGap c = true) ∧
    StandsAt file start (gap ++ ['>']) ∧ stop = start + (gap ++ ['>']).length
  | start, a :: rest, stop => ∃ (gap : List Char) (mid : Nat), (∀ c ∈ gap, isTagGap c = true) ∧
    StandsAt file start gap ∧ a.Stands file (start + gap.length) mid ∧
    AttributesStand file mid rest stop

/-- What a tag starts with, its name included. -/
def Tag.opening (tag : Tag) : List Char :=
  '<' :: ((if tag.closing then ['/'] else if tag.doctype then ['!'] else []) ++ tag.name.toList)

/-- A tag stands in a file from one offset to another. -/
structure Tag.Stands (file : List Char) (start : Nat) (tag : Tag) (stop : Nat) : Prop where
  opening : StandsAt file start tag.opening
  attributes : AttributesStand file (start + tag.opening.length) tag.attributes stop

/-- What may stand between attributes may stand before them. -/
theorem AttributesStand.prepend {file gap : List Char} {start stop : Nat}
    {attributes : List RawAttribute} (hgap : ∀ c ∈ gap, isTagGap c = true)
    (hstands : StandsAt file start gap)
    (h : AttributesStand file (start + gap.length) attributes stop) :
    AttributesStand file start attributes stop := by
  cases attributes with
  | nil =>
    obtain ⟨gap', hgap', hstands', hstop⟩ := h
    refine ⟨gap ++ gap', List.forall_mem_append.mpr ⟨hgap, hgap'⟩, ?_, ?_⟩
    · rw [List.append_assoc]
      exact standsAt_append.mpr ⟨hstands, hstands'⟩
    · rw [hstop, List.append_assoc, @List.length_append _ gap, Nat.add_assoc]
  | cons a rest =>
    obtain ⟨gap', mid, hgap', hstands', ha, hrest⟩ := h
    refine ⟨gap ++ gap', mid, List.forall_mem_append.mpr ⟨hgap, hgap'⟩, ?_, ?_, hrest⟩
    · exact standsAt_append.mpr ⟨hstands, hstands'⟩
    · rw [List.length_append, ← Nat.add_assoc]
      exact ha

/-! ## Values -/

/-- Behind a mustache, reading goes on further down the file. -/
theorem leadsTo_scanMustache {src later : Source} {lexeme : Lexeme}
    (h : scanMustache src = .ok (lexeme, later)) : src.LeadsTo later := by
  obtain ⟨content, -, -, -, rfl⟩ | ⟨content, -, -, -, rfl⟩ := scanMustache_eq_ok_iff.mp h
  · exact ⟨_, rfl⟩
  · exact ⟨_, rfl⟩

/-- Behind a mustache or a text in a value, reading goes on further down the file. -/
theorem leadsTo_scanInValue {src later : Source} {lexeme : Lexeme}
    (h : scanInValue src = .ok (lexeme, later)) : src.LeadsTo later := by
  obtain ⟨-, h⟩ | ⟨-, h⟩ := scanInValue_cases h
  · exact leadsTo_scanMustache h
  · cases h
    exact ⟨_, rfl⟩

/-- A value is read from characters of its own, which stand in the file where the value starts. -/
theorem Source.ReadsIn.value {file value rest : List Char} {last : Nat} {src : Source}
    (h : src.ReadsIn file 0 last) (hrest : src.rest = value ++ rest) :
    Source.ReadsIn file src.position.offset (src.position.offset + value.length)
      ⟨⟨0, src.position.line, src.position.column⟩, value⟩ := by
  have hstands := h.stands
  rw [hrest, Nat.zero_add] at hstands
  refine ⟨(standsAt_append.mp hstands).1, rfl, ?_, ?_⟩
  · simpa using h.line_eq
  · simpa using h.column_eq

/-- The tokens of a value cover it where it stands in the file. -/
theorem covers_of_scanValue {file value rest : List Char} {last : Nat} {src : Source}
    {tokens : List Token} (hsrc : src.ReadsIn file 0 last) (hrest : src.rest = value ++ rest)
    (h : scanValue src.position value = .ok tokens) :
    Covers file src.position.offset tokens value.length := by
  obtain ⟨htiles, hplaced⟩ :=
    covers_of_scanAll (fun _ _ _ _ => leadsTo_scanInValue) h (hsrc.value hrest)
  rw [Nat.zero_add] at htiles
  exact ⟨htiles, hplaced⟩

/-- A value without quotes ends at something that ends it: a blank, a bracket, or nothing more. It
is no longer than what is left. -/
theorem endsValue_of_unquotedLength {s : List Char} {n : Nat} (h : unquotedLength s = .ok n) :
    n ≤ s.length ∧ endsValue (s.drop n) = true := by
  fun_induction unquotedLength s generalizing n with
  | case1 =>
    cases h
    exact ⟨Nat.le_refl _, rfl⟩
  | case2 c rest hends =>
    cases h
    exact ⟨Nat.zero_le _, hends⟩
  | case3 => cases h
  | case4 => cases h
  | case5 c rest hends hstart content hcontent n' hn' ih =>
    cases h
    obtain ⟨hle, hbehind⟩ := ih hn'
    have hlength := (prefix_of_before? hcontent).length_le
    rw [List.length_append, List.length_drop] at hlength
    have hdrop : (c :: rest).drop (content.length + 4 + n') =
        (rest.drop (content.length + 3)).drop n' := by
      have hsum : content.length + 4 + n' = content.length + 3 + n' + 1 := by omega
      rw [List.drop_drop, hsum, List.drop_succ_cons]
    rw [hdrop]
    refine ⟨?_, hbehind⟩
    rw [List.length_drop] at hle
    simp only [List.length_cons, List.length_nil] at hlength ⊢
    omega
  | case6 => cases h
  | case7 c rest hends hstart n' hn' ih =>
    cases h
    obtain ⟨hle, hbehind⟩ := ih hn'
    exact ⟨Nat.succ_le_succ hle, hbehind⟩

/-- A quote that is not all that is left is found. -/
theorem eq_takeWhile_append {s : List Char} {quote : Char}
    (h : (s.takeWhile (· != quote)).length < s.length) :
    ∃ rest, s = s.takeWhile (· != quote) ++ quote :: rest := by
  have happend : s.takeWhile (· != quote) ++ s.dropWhile (· != quote) = s :=
    List.takeWhile_append_dropWhile
  have hne : s.dropWhile (· != quote) ≠ [] := by
    intro hnil
    rw [hnil, List.append_nil] at happend
    rw [happend] at h
    exact Nat.lt_irrefl _ h
  have hhead := List.head_dropWhile_not (· != quote) hne
  obtain ⟨c, rest, hrest⟩ := List.exists_cons_of_ne_nil hne
  simp only [hrest, List.head_cons, bne_eq_false_iff_eq] at hhead
  rw [hrest, hhead] at happend
  exact ⟨rest, happend.symm⟩

/-- What is taken up to a quote has no quote in it. -/
theorem not_mem_takeWhile_ne (s : List Char) (quote : Char) :
    quote ∉ s.takeWhile (· != quote) := fun hmem => by
  simpa using List.mem_takeWhile_imp hmem

/-- A value between quotes is what stands between them, and its tokens cover it, counting from
behind the first quote. -/
theorem delimits_of_scanQuoted {file rest : List Char} {last : Nat} {quote : Char}
    {src later : Source} {tokens : List Token} (hquote : quote = '"' ∨ quote = '\'')
    (hsrc : src.ReadsIn file 0 last) (hrest : src.rest = quote :: rest)
    (h : scanQuoted quote src = .ok (tokens, later)) :
    ∃ value, src.Passes ([quote] ++ (value ++ [quote])) later ∧
      Delimits later.rest [quote] value ∧
      Covers file (src.position.offset + [quote].length) tokens value.length := by
  obtain ⟨hlength, hvalue, rfl⟩ := scanQuoted_eq_ok_iff.mp h
  have hopen : src.Passes [quote] (src.advance 1) := Source.passes_of_rest (s := [quote]) hrest
  obtain ⟨more, hmore⟩ := eq_takeWhile_append hlength
  have hcovers := covers_of_scanValue (hopen.readsIn hsrc) hmore hvalue
  rw [hopen.offset_eq hsrc] at hcovers
  refine ⟨_, hopen.trans ?_, .quoted hquote (not_mem_takeWhile_ne _ quote), hcovers⟩
  have hclose := @Source.passes_of_rest (src.advance 1)
    ((src.advance 1).rest.takeWhile (· != quote) ++ [quote]) more (by
      rw [List.append_assoc]
      exact hmore)
  rw [List.length_append] at hclose
  exact hclose

/-- A value without quotes is what stands up to its end, and its tokens cover it. It does not start
with a quote, or it would have been read in the other way. -/
theorem delimits_of_scanUnquoted {file : List Char} {last : Nat} {src later : Source}
    {tokens : List Token} (hstart : ∀ quote ∈ ['"', '\''], src.rest.head? ≠ some quote)
    (hsrc : src.ReadsIn file 0 last) (h : scanUnquoted src = .ok (tokens, later)) :
    ∃ value, src.Passes value later ∧ Delimits later.rest [] value ∧
      Covers file src.position.offset tokens value.length := by
  obtain ⟨n, hn, hvalue, rfl⟩ := scanUnquoted_eq_ok_iff.mp h
  have happend := (List.take_append_drop n src.rest).symm
  obtain ⟨hle, hbehind⟩ := endsValue_of_unquotedLength hn
  have hcovers := covers_of_scanValue hsrc happend hvalue
  have hpasses := Source.passes_of_rest happend
  rw [List.length_take_of_le hle] at hpasses
  have hstart' : ∀ quote ∈ ['"', '\''], (src.rest.take n).head? ≠ some quote := by
    intro quote hquote hhead
    obtain ⟨rest, hrest⟩ := List.head?_eq_some_iff.mp hhead
    rw [hrest] at happend
    exact hstart quote hquote (by rw [happend]; rfl)
  refine ⟨_, hpasses, .bare ⟨hstart' _ (by simp), hstart' _ (by simp)⟩ ?_, hcovers⟩
  rw [Source.rest_advance]
  exact hbehind

/-- A value is set off by quotes or by what follows it, and its tokens cover it in the file. -/
theorem delimits_of_scanAttributeValue {file : List Char} {last : Nat} {src later : Source}
    {tokens : List Token} (hsrc : src.ReadsIn file 0 last)
    (h : scanAttributeValue src = .ok (tokens, later)) :
    ∃ quote value, src.Passes (quote ++ (value ++ quote)) later ∧
      Delimits later.rest quote value ∧
      Covers file (src.position.offset + quote.length) tokens value.length := by
  obtain ⟨quote, rest, hquote, hrest, h⟩ | ⟨hstart, h⟩ := scanAttributeValue_cases h
  · exact ⟨[quote], delimits_of_scanQuoted (by simpa using hquote) hsrc hrest h⟩
  · obtain ⟨value, hpasses, hdelimits, hcovers⟩ := delimits_of_scanUnquoted hstart hsrc h
    refine ⟨[], value, ?_, hdelimits, hcovers⟩
    rw [List.nil_append, List.append_nil]
    exact hpasses

/-! ## Attributes -/

/-- The name of an attribute is what stands first. -/
theorem attributeName_prefix (s : List Char) : attributeName s <+: s := by
  unfold attributeName
  split
  · exact List.take_prefix 1 s
  · exact List.takeWhile_prefix _

/-- An attribute with a value stands from its name to the end of its value. Between the two there is
an equals sign, with blanks on either side at most. -/
theorem exists_stands_of_value {file blanks blanks' : List Char} {name : String}
    {src mid later : Source} {tokens : List Token} (hsrc : src.ReadsIn file 0 file.length)
    (hblanks : ∀ c ∈ blanks ++ blanks', Text.isBlank c = true)
    (hopening : src.Passes (name.toList ++ (blanks ++ '=' :: blanks')) mid)
    (hscan : scanAttributeValue mid = .ok (tokens, later)) :
    ∃ text, src.Passes text later ∧
      RawAttribute.Stands file src.position.offset ⟨name, some tokens⟩ later.position.offset := by
  obtain ⟨quote, value, hpasses, hvalue, hcovers⟩ :=
    delimits_of_scanAttributeValue (hopening.readsIn hsrc) hscan
  have htext : src.Passes (valueOpening name blanks blanks' quote ++ (value ++ quote)) later := by
    simpa only [valueOpening, List.append_assoc, List.cons_append] using hopening.trans hpasses
  rw [← (htext.readsIn hsrc).drop_eq] at hvalue
  have hstands := htext.stands hsrc
  rw [Nat.zero_add] at hstands
  have hfirst : mid.position.offset + quote.length =
      src.position.offset + (valueOpening name blanks blanks' quote).length := by
    rw [hopening.offset_eq hsrc]
    simp only [valueOpening, List.length_append, List.length_cons]
    omega
  rw [hfirst] at hcovers
  exact ⟨_, htext, .valued hblanks hvalue hstands (htext.offset_eq hsrc) hcovers⟩

/-- An attribute stands where it is read. Blanks behind an attribute without value are read
with it. -/
theorem stands_of_scanAttribute {file : List Char} {src later : Source} {a : RawAttribute}
    (hsrc : src.ReadsIn file 0 file.length) (h : scanAttribute src = .ok (a, later)) :
    ∃ text blanks mid, src.Passes text mid ∧ a.Stands file src.position.offset mid.position.offset ∧
      mid.Passes blanks later ∧ ∀ c ∈ blanks, Text.isBlank c = true := by
  obtain ⟨rest, hrest⟩ := attributeName_prefix src.rest
  have hname : src.Passes (String.ofList (attributeName src.rest)).toList
      (src.advance (attributeName src.rest).length) := by
    rw [String.toList_ofList]
    exact Source.passes_of_rest hrest.symm
  obtain ⟨blanks, hblanks, hskipped⟩ :=
    (src.advance (attributeName src.rest).length).exists_passes_skipBlanks
  obtain ⟨rest', tokens, hequals, hscan, rfl⟩ | ⟨-, rfl, rfl⟩ := scanAttribute_eq_ok_iff.mp h
  · have hequal := Source.passes_of_rest (s := ['=']) hequals
    obtain ⟨blanks', hblanks', hskipped'⟩ := Source.exists_passes_skipBlanks
      ((src.advance (attributeName src.rest).length).skipBlanks.advance 1)
    have hopening := hname.trans (hskipped.trans (hequal.trans hskipped'))
    obtain ⟨text, htext, hstands⟩ := exists_stands_of_value hsrc
      (List.forall_mem_append.mpr ⟨hblanks, hblanks'⟩) hopening hscan
    have hnothing := Source.passes_of_rest (List.nil_append later.rest).symm
    exact ⟨text, [], later, htext, hstands, hnothing, List.forall_mem_nil _⟩
  · have hstands := hname.stands hsrc
    rw [Nat.zero_add] at hstands
    refine ⟨_, blanks, _, hname, ?_, hskipped, hblanks⟩
    rw [hname.offset_eq hsrc]
    exact .bare hstands

/-! ## Tags -/

/-- Blanks may stand between attributes. -/
theorem isTagGap_of_isBlank {gap : List Char} (h : ∀ c ∈ gap, Text.isBlank c = true) :
    ∀ c ∈ gap, isTagGap c = true := by
  intro c hc
  rw [isTagGap, h c hc]
  rfl

/-- Blanks that are skipped are a gap. -/
theorem exists_passes_gap (src : Source) :
    ∃ gap, (∀ c ∈ gap, isTagGap c = true) ∧ src.Passes gap src.skipBlanks := by
  obtain ⟨blanks, hblanks, hskipped⟩ := src.exists_passes_skipBlanks
  exact ⟨blanks, isTagGap_of_isBlank hblanks, hskipped⟩

/-- Blanks and the slash behind them are a gap. A slash that does not end a tag is left out in this
way. -/
theorem exists_passes_slash {src : Source} {rest : List Char}
    (h : src.skipBlanks.rest = '/' :: rest) :
    ∃ gap, (∀ c ∈ gap, isTagGap c = true) ∧ src.Passes gap (src.skipBlanks.advance 1) := by
  obtain ⟨gap, hgap, hskipped⟩ := exists_passes_gap src
  refine ⟨gap ++ ['/'], List.forall_mem_append.mpr ⟨hgap, ?_⟩, ?_⟩
  · exact List.forall_mem_singleton.mpr rfl
  · exact hskipped.trans (Source.passes_of_rest (s := ['/']) h)

/-- What may stand between attributes may be passed before they are read. -/
theorem attributesStand_of_passes {file gap : List Char} {stop : Nat} {src later : Source}
    {attributes : List RawAttribute} (hsrc : src.ReadsIn file 0 file.length)
    (hpasses : src.Passes gap later) (hgap : ∀ c ∈ gap, isTagGap c = true)
    (h : AttributesStand file later.position.offset attributes stop) :
    AttributesStand file src.position.offset attributes stop := by
  have hstands := hpasses.stands hsrc
  rw [Nat.zero_add] at hstands
  rw [hpasses.offset_eq hsrc] at h
  exact h.prepend hgap hstands

/-- Where the bracket of a tag comes next, no attributes stand before it. -/
theorem attributesStand_nil {file rest : List Char} {src : Source}
    (hsrc : src.ReadsIn file 0 file.length) (h : src.rest = '>' :: rest) :
    AttributesStand file src.position.offset [] (src.advance 1).position.offset := by
  have hpasses := Source.passes_of_rest (s := ['>']) h
  have hstands := hpasses.stands hsrc
  rw [Nat.zero_add] at hstands
  exact ⟨[], List.forall_mem_nil _, hstands, hpasses.offset_eq hsrc⟩

/-- The attributes of a tag stand where they are read, and the tag ends behind them. Between them
there are blanks and slashes only. -/
theorem attributesStand_of_scanAttributes {file : List Char} {unterminated : ScanError}
    {src later : Source} {attributes : List RawAttribute} {selfClosing : Bool}
    (hsrc : src.ReadsIn file 0 file.length)
    (h : scanAttributes unterminated src = .ok (attributes, selfClosing, later)) :
    src.LeadsTo later ∧
      AttributesStand file src.position.offset attributes later.position.offset := by
  fun_induction scanAttributes unterminated src generalizing attributes selfClosing later with
  | case1 => cases h
  | case2 src rest hbracket =>
    cases h
    obtain ⟨gap, hgap, hpasses⟩ := exists_passes_gap src
    have hend := attributesStand_nil (hpasses.readsIn hsrc) hbracket
    exact ⟨hpasses.leadsTo.trans ⟨1, rfl⟩, attributesStand_of_passes hsrc hpasses hgap hend⟩
  | case3 src rest hslash =>
    cases h
    obtain ⟨gap, hgap, hpasses⟩ := exists_passes_slash hslash
    have hbracket : (src.skipBlanks.advance 1).rest = '>' :: rest := by
      rw [Source.rest_advance, hslash]
      rfl
    have hend := attributesStand_nil (hpasses.readsIn hsrc) hbracket
    rw [Source.advance_advance] at hend
    have hlater : (src.skipBlanks.advance 1).LeadsTo (src.skipBlanks.advance 2) :=
      ⟨1, (Source.advance_advance 1 1 src.skipBlanks).symm⟩
    exact ⟨hpasses.leadsTo.trans hlater, attributesStand_of_passes hsrc hpasses hgap hend⟩
  | case4 src rest hne hslash hlt ih =>
    obtain ⟨gap, hgap, hpasses⟩ := exists_passes_slash hslash
    obtain ⟨hlater, hattributes⟩ := ih (hpasses.readsIn hsrc) h
    exact ⟨hpasses.leadsTo.trans hlater, attributesStand_of_passes hsrc hpasses hgap hattributes⟩
  | case5 => cases h
  | case6 => cases h
  | case7 src =>
    rename_i a mid hattribute _ rest _ last hrest ih
    cases h
    obtain ⟨gap, hgap, hpasses⟩ := exists_passes_gap src
    have hfirst := hpasses.readsIn hsrc
    obtain ⟨text, blanks, next, htext, ha, hskipped, hblanks⟩ :=
      stands_of_scanAttribute hfirst hattribute
    have hnext := htext.readsIn hfirst
    obtain ⟨hlater, hattributes⟩ := ih (hskipped.readsIn hnext) hrest
    refine ⟨hpasses.leadsTo.trans (htext.leadsTo.trans (hskipped.leadsTo.trans hlater)), ?_⟩
    have hrest := attributesStand_of_passes hnext hskipped (isTagGap_of_isBlank hblanks) hattributes
    refine attributesStand_of_passes hsrc hpasses hgap ⟨[], _, List.forall_mem_nil _, ?_, ha, hrest⟩
    exact List.nil_prefix

/-- A tag stands where it is read, whatever mark stands before its name: the three forms of a tag
differ in that mark only. -/
theorem stands_of_name {file mark : List Char} {unterminated : ScanError} {src named later : Source}
    {tag : Tag} (hsrc : src.ReadsIn file 0 file.length) (hmark : src.Passes ('<' :: mark) named)
    (hopening : tag.opening = '<' :: (mark ++ named.rest.takeWhile isTagNameChar))
    (h : scanAttributes unterminated
      (named.advance (named.rest.takeWhile isTagNameChar).length) =
        .ok (tag.attributes, tag.selfClosing, later)) :
    src.LeadsTo later ∧ tag.Stands file src.position.offset later.position.offset := by
  have hname := Source.passes_of_rest
    (List.takeWhile_append_dropWhile (p := isTagNameChar) (l := named.rest)).symm
  have hopened := hmark.trans hname
  rw [List.cons_append, ← hopening] at hopened
  obtain ⟨hlater, hattributes⟩ := attributesStand_of_scanAttributes (hopened.readsIn hsrc) h
  have hstands := hopened.stands hsrc
  rw [Nat.zero_add] at hstands
  rw [hopened.offset_eq hsrc] at hattributes
  exact ⟨hopened.leadsTo.trans hlater, hstands, hattributes⟩

/-- A tag stands where it was read: its opening, its attributes, and the bracket at its end. -/
theorem stands_of_scanTag {file : List Char} {src later : Source} {lexeme : Lexeme}
    (hsrc : src.ReadsIn file 0 file.length) (hstart : startsTag src.rest = true)
    (h : scanTag src = .ok (lexeme, later)) :
    src.LeadsTo later ∧ ∀ tag, lexeme = .tag tag →
      tag.Stands file src.position.offset later.position.offset := by
  obtain ⟨mark, c, rest, hmark, hc, hrest⟩ := startsTag_iff.mp hstart
  have hpasses := Source.passes_of_rest (s := '<' :: mark) hrest
  obtain ⟨attributes, selfClosing, hattributes, rfl⟩ :=
    exists_attributes_of_scanTag hmark hc hrest h
  have hopening : Tag.opening ⟨String.ofList ((src.advance (mark.length + 1)).rest.takeWhile
      isTagNameChar), attributes, mark == ['/'], selfClosing, mark == ['!']⟩ =
      '<' :: (mark ++ (src.advance (mark.length + 1)).rest.takeWhile isTagNameChar) := by
    simp only [List.mem_cons, List.not_mem_nil, or_false] at hmark
    obtain rfl | rfl | rfl := hmark <;> simp [Tag.opening]
  obtain ⟨hlater, hstands⟩ := stands_of_name hsrc hpasses hopening hattributes
  refine ⟨hlater, ?_⟩
  intro tag htag
  cases htag
  exact hstands

/-! ## Files -/

/-- To read a token is to read on, and a tag stands where it is read. Of the other tokens it is
enough to know from where to where they go. -/
theorem stands_of_scanNext {file : List Char} {src later : Source} {lexeme : Lexeme}
    (hsrc : src.ReadsIn file 0 file.length) (h : scanNext src = .ok (lexeme, later)) :
    src.LeadsTo later ∧ ∀ tag, lexeme = .tag tag →
      tag.Stands file src.position.offset later.position.offset := by
  obtain ⟨-, h⟩ | ⟨-, h⟩ | ⟨hstart, h⟩ | ⟨-, h⟩ := scanNext_cases h
  · refine ⟨leadsTo_scanMustache h, ?_⟩
    obtain ⟨kind, reference, rfl⟩ := exists_of_scanMustache h
    intro tag htag
    cases htag
  · obtain ⟨content, -, rfl, rfl⟩ := scanComment_eq_ok_iff.mp h
    refine ⟨⟨_, rfl⟩, ?_⟩
    intro tag htag
    cases htag
  · exact stands_of_scanTag hsrc hstart h
  · cases h
    refine ⟨⟨_, rfl⟩, ?_⟩
    intro tag htag
    cases htag

/-- A source starts at the first character of its file and reads all of it. -/
theorem readsIn_ofString (source : String) :
    (Source.ofString source).ReadsIn source.toList 0 source.toList.length :=
  ⟨List.prefix_rfl, Nat.zero_add _, rfl, rfl⟩

/-- The tags among the tokens of a file stand where their tokens say. -/
theorem stands_of_tokenize {source : String} {tokens : List Token}
    (h : tokenize source = .ok tokens) : ∀ t ∈ tokens, ∀ tag, t.lexeme = .tag tag →
      tag.Stands source.toList t.span.start t.span.stop := by
  refine scanAll_induction (motive := fun src tokens =>
    src.ReadsIn source.toList 0 source.toList.length → ∀ t ∈ tokens, ∀ tag, t.lexeme = .tag tag →
      tag.Stands source.toList t.span.start t.span.stop) ?_ ?_ h (readsIn_ofString source)
  · intro src _ _
    exact List.forall_mem_nil _
  · intro src lexeme later rest _ hnext _ ih hsrc
    obtain ⟨hlater, hstands⟩ := stands_of_scanNext hsrc hnext
    exact List.forall_mem_cons.mpr ⟨hstands, ih (hlater.readsIn hsrc)⟩

/-- The tokens of a file cover it from its first character to its last, each with the line and
column of its place. -/
theorem covers_of_tokenize {source : String} {tokens : List Token}
    (h : tokenize source = .ok tokens) :
    Covers source.toList 0 tokens source.toList.length := by
  obtain ⟨htiles, hplaced⟩ := covers_of_scanAll
    (fun _ _ _ hsrc hscan => (stands_of_scanNext hsrc hscan).1) h (readsIn_ofString source)
  have hstart : (Source.ofString source).position.offset = 0 := rfl
  have hrest : (Source.ofString source).rest = source.toList := rfl
  rw [hstart, hrest, Nat.zero_add] at htiles
  exact ⟨htiles, hplaced⟩

/-- The tokens of a file cover it from its first character to its last, each with the line and
column of its place, and there are none if the file is empty. Every tag stands where its token says,
so the tokens of a value cover the value, with the lines and columns that it has in the file. -/
theorem spans_of_tokenize (source : String) (tokens : List Token)
    (h : tokenize source = .ok tokens) :
    Covers source.toList 0 tokens source.toList.length ∧ (tokens = [] ↔ source = "") ∧
      ∀ t ∈ tokens, ∀ tag, t.lexeme = .tag tag →
        tag.Stands source.toList t.span.start t.span.stop := by
  have hcovers := covers_of_tokenize h
  refine ⟨hcovers, ?_, stands_of_tokenize h⟩
  constructor
  · intro hnil
    have htiles := hcovers.tiles
    rw [hnil] at htiles
    exact String.toList_eq_nil_iff.mp (List.length_eq_zero_iff.mp htiles.symm)
  · intro hempty
    rw [hempty] at h
    have hnone : tokenize "" = .ok [] := scanAll_of_rest_eq_nil rfl
    exact Except.ok.inj (h.symm.trans hnone)

/-- A tag over three lines with a value between quotes and one without quotes, and a text. -/
def threeLines : List Token :=
  [⟨.tag ⟨"p", [⟨"a", some [⟨.text "x\n", ⟨0, 2, 1, 7⟩⟩,
      ⟨.mustache .interpolation "y", ⟨2, 7, 2, 1⟩⟩]⟩,
    ⟨"b", some [⟨.text "y", ⟨0, 1, 3, 4⟩⟩, ⟨.mustache .interpolation "w", ⟨1, 8, 3, 5⟩⟩]⟩],
    false, false, false⟩, ⟨0, 27, 1, 1⟩⟩, ⟨.text "z", ⟨27, 28, 3, 13⟩⟩]

/-- The theorem at a tag over three lines: the tokens in its values have the lines and columns of
the file. -/
theorem spans_of_threeLines :
    let source := "<p a='x\n\x7b\x7by\x7d\x7d'\n b=y\x7b\x7b w \x7d\x7d>z"
    tokenize source = .ok threeLines ∧
      Covers source.toList 0 threeLines source.toList.length ∧ (threeLines = [] ↔ source = "") ∧
        ∀ t ∈ threeLines, ∀ tag, t.lexeme = .tag tag →
          tag.Stands source.toList t.span.start t.span.stop := by
  have htokens : tokenize "<p a='x\n\x7b\x7by\x7d\x7d'\n b=y\x7b\x7b w \x7d\x7d>z" =
      .ok threeLines := by with_unfolding_all rfl
  exact ⟨htokens, spans_of_tokenize _ threeLines htokens⟩

end MustacheMarkup
