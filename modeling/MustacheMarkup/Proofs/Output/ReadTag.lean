import Mathlib.Data.List.Forall2
import MustacheMarkup.Proofs.Attribute.Name
import MustacheMarkup.Proofs.Output.Literal
import MustacheMarkup.Proofs.Token.Reading

/-!
# Reading a tag that was written

A tag is written so that it reads back: an attribute is read with the name it was written with, and
with its value, in which every double quote has become `&quot;`. An empty value is read as none.
Two things have to be right for that. A name has to be one that can be read, and no attribute `=`
may stand behind one that is written without a value, since it would give that one a value.
-/

set_option autoImplicit false

namespace MustacheMarkup

open Output

/-- The attribute that is read of one that was written. -/
def RawAttribute.Reads (raw : RawAttribute) (a : String × String) : Prop :=
  raw.name = a.1 ∧
    if a.2.isEmpty then raw.value = none
    else ∃ span, raw.value = some [⟨.text (escapeQuotes a.2), span⟩]

/-- The characters of an attribute's value as it is written. -/
def valueChars (value : String) : List Char :=
  if needsQuotes value then '"' :: (escapeQuotes value).toList ++ ['"'] else value.toList

/-- The characters of an attribute as it is written, without the space before it. -/
def attributeChars (a : String × String) : List Char :=
  a.1.toList ++ if a.2.isEmpty then [] else '=' :: valueChars a.2

/-- A value is written as these characters, so that what is read of it can be said of lists. -/
theorem toList_valueText (value : String) : (valueText value).toList = valueChars value := by
  unfold valueText valueChars
  split <;> simp

/-- An attribute with a value is written as a space and these characters. -/
theorem toList_attributeText (a : String × String) :
    (attributeText (a.1, some a.2)).toList = ' ' :: attributeChars a := by
  unfold attributeText attributeChars
  dsimp only
  split
  · simp
  · simp [toList_valueText]

/-! ## Values -/

/-- What is written for a double quote, character by character. -/
theorem toList_quot : "&quot;".toList = ['&', 'q', 'u', 'o', 't', ';'] := by
  decide

/-- Double quotes are written as `&quot;`, and all other characters as they are. -/
theorem toList_escapeQuotes (value : String) : (escapeQuotes value).toList =
    value.toList.flatMap fun c => if c = '"' then "&quot;".toList else [c] := by
  rw [escapeQuotes, String.toList_ofList]

/-- No double quote is left in a value that is written, so the quotes around it are its ends. -/
theorem escapeQuotes_ne (value : String) : ∀ c ∈ (escapeQuotes value).toList, c ≠ '"' := by
  intro c hc
  rw [toList_escapeQuotes, List.mem_flatMap] at hc
  obtain ⟨d, -, hd⟩ := hc
  split at hd
  · have hquot : "&quot;".toList.contains '"' = false := by decide
    rintro rfl
    rw [List.contains_iff_mem.mpr hd] at hquot
    cases hquot
  · rename_i hne
    rw [List.mem_singleton.mp hd]
    exact hne

/-- A value without double quotes stays as it is. -/
theorem escapeQuotes_eq_self {value : String} (h : ∀ c ∈ value.toList, c ≠ '"') :
    escapeQuotes value = value := by
  apply String.toList_inj.mp
  rw [toList_escapeQuotes]
  generalize value.toList = s at h
  induction s with
  | nil => rfl
  | cons c s ih =>
    obtain ⟨hc, hs⟩ := List.forall_mem_cons.mp h
    rw [List.flatMap_cons, if_neg hc, ih hs, List.singleton_append]

/-- What is written for a double quote starts no mustache. -/
theorem braceless_quot_append (s : List Char) :
    braceless ("&quot;".toList ++ s) = braceless s := by
  rw [toList_quot]
  rfl

/-- No mustache starts in front of a double quote that is written. -/
theorem startsMustache_quot_append (c : Char) (s : List Char) :
    startsMustache (c :: ("&quot;".toList ++ s)) = false := by
  rw [toList_quot]
  simp [startsMustache, List.isPrefixOf]

/-- To write double quotes makes no braces and puts none side by side: where a quote stood between
two braces, something else stands there. -/
theorem braceless_flatMap {s : List Char} (h : braceless s = true) :
    braceless (s.flatMap fun c => if c = '"' then "&quot;".toList else [c]) = true := by
  induction s with
  | nil => rfl
  | cons c s ih =>
    rw [braceless, Bool.and_eq_true, Bool.not_eq_true'] at h
    have hs := ih h.2
    rw [List.flatMap_cons]
    split
    · rw [braceless_quot_append]
      exact hs
    · have hstart : startsMustache (c :: s.flatMap fun c =>
          if c = '"' then "&quot;".toList else [c]) = false := by
        cases s with
        | nil => exact h.1
        | cons d s =>
          rw [List.flatMap_cons]
          split
          · exact startsMustache_quot_append c _
          · simpa only [startsMustache, List.isPrefixOf, List.singleton_append] using h.1
      rw [List.singleton_append, braceless, hstart, hs]
      rfl

/-- The same for the value as a text. -/
theorem braceless_escapeQuotes {value : String} (h : braceless value.toList = true) :
    braceless (escapeQuotes value).toList = true := by
  rw [toList_escapeQuotes]
  exact braceless_flatMap h

/-- What is written of a value that is not empty is not empty. -/
theorem escapeQuotes_ne_empty {value : String} (h : value.isEmpty = false) :
    (escapeQuotes value).toList ≠ [] := by
  rw [toList_escapeQuotes]
  cases hvalue : value.toList with
  | nil =>
    have hempty : value = "" := String.toList_eq_nil_iff.mp hvalue
    rw [hempty] at h
    cases h
  | cons c s =>
    rw [List.flatMap_cons]
    split
    · rw [toList_quot]
      exact List.cons_ne_nil _ _
    · exact List.cons_ne_nil _ _

/-- What holds of the characters of a value that is written without quotes. -/
theorem chars_of_not_needsQuotes {value : String} (h : needsQuotes value = false) :
    ∀ c ∈ value.toList, Text.isBlank c = false ∧ c ≠ '"' ∧ c ≠ '\'' ∧ c ≠ '>' := by
  intro c hc
  rw [needsQuotes, List.any_eq_false] at h
  have hplain := h c hc
  rw [Bool.not_eq_true, Bool.or_eq_false_iff] at hplain
  have hmem : c ∉ quotedCharacters := by simpa using hplain.2
  refine ⟨hplain.1, ?_, ?_, ?_⟩
  · rintro rfl
    exact hmem (by decide)
  · rintro rfl
    exact hmem (by decide)
  · rintro rfl
    exact hmem (by decide)

/-- A value is read behind `=` as it was written, whatever follows that ends a value. Between quotes
anything may follow, as the value has no double quotes left. -/
theorem scanAttributeValue_valueChars {src : Source} {value : String} {rest : List Char}
    (hsrc : src.rest = valueChars value ++ rest) (hempty : value.isEmpty = false)
    (hbraces : braceless value.toList = true)
    (hrest : needsQuotes value = true ∨ endsValue rest = true) :
    ∃ span later, scanAttributeValue src = .ok ([⟨.text (escapeQuotes value), span⟩], later) ∧
      later.rest = rest := by
  have hne := escapeQuotes_ne_empty hempty
  have hbraces' := braceless_escapeQuotes hbraces
  have htext : String.ofList (escapeQuotes value).toList = escapeQuotes value :=
    String.ofList_toList
  cases hquotes : needsQuotes value with
  | true =>
    rw [valueChars, if_pos hquotes, List.cons_append, List.cons_append, List.append_assoc,
      List.singleton_append] at hsrc
    obtain ⟨span, hvalue⟩ := scanValue_braceless (p := (src.advance 1).position) hne hbraces'
    rw [htext] at hvalue
    have hquote : '"' ∉ (escapeQuotes value).toList := fun hmem =>
      escapeQuotes_ne value '"' hmem rfl
    obtain ⟨later, hscan, hlater⟩ := scanQuoted_of_rest hsrc hquote hvalue
    rw [scanAttributeValue_eq_scanQuoted (by simp) hsrc]
    exact ⟨span, later, hscan, hlater⟩
  | false =>
    rw [hquotes] at hrest
    have hends : endsValue rest = true := hrest.resolve_left Bool.false_ne_true
    have hplain := chars_of_not_needsQuotes hquotes
    have hself : escapeQuotes value = value :=
      escapeQuotes_eq_self fun c hc => (hplain c hc).2.1
    rw [valueChars, hquotes, if_neg Bool.false_ne_true] at hsrc
    rw [hself] at hne htext ⊢
    have hlength : unquotedLength src.rest = .ok value.toList.length := by
      rw [hsrc]
      exact unquotedLength_append (fun c hc => ⟨(hplain c hc).1, (hplain c hc).2.2.2⟩) hbraces hends
    obtain ⟨span, hvalue⟩ := scanValue_braceless (p := src.position) hne hbraces
    rw [htext] at hvalue
    refine ⟨span, src.advance value.toList.length, ?_, rest_advance_append hsrc⟩
    rw [← scanUnquoted_of_rest hsrc hlength hvalue]
    obtain ⟨c, s, hcs⟩ := List.exists_cons_of_ne_nil hne
    obtain ⟨-, hdouble, hsingle, -⟩ := hplain c (by rw [hcs]; exact List.mem_cons_self)
    exact scanAttributeValue_eq_scanUnquoted (by simp [hsrc, hcs, hdouble, hsingle])

/-- A value that is written starts with no blank. -/
theorem valueChars_exists_cons {value : String} (h : value.isEmpty = false) :
    ∃ c s, valueChars value = c :: s ∧ Text.isBlank c = false := by
  cases hquotes : needsQuotes value with
  | true =>
    refine ⟨'"', (escapeQuotes value).toList ++ ['"'], ?_, by decide⟩
    rw [valueChars, if_pos hquotes, List.cons_append]
  | false =>
    have hne : value.toList ≠ [] := by
      intro hnil
      rw [String.toList_eq_nil_iff.mp hnil] at h
      cases h
    obtain ⟨c, s, hvalue⟩ := List.exists_cons_of_ne_nil hne
    have hc := chars_of_not_needsQuotes hquotes c (by rw [hvalue]; exact List.mem_cons_self)
    refine ⟨c, s, ?_, hc.1⟩
    rw [valueChars, hquotes, if_neg Bool.false_ne_true, hvalue]

/-! ## Attributes -/

/-- What ends a name: nothing, or a character that no name holds. -/
def endsName : List Char → Bool
  | [] => true
  | c :: _ => !isAttributeNameChar c

/-- A name that can be read is read up to what ends it. Its first character is taken whatever it is,
which is why a name may start with `=`. -/
theorem attributeName_append {name : String} {rest : List Char} (hname : ReadableName name)
    (hrest : endsName rest = true) : attributeName (name.toList ++ rest) = name.toList := by
  have hnone : rest.takeWhile isAttributeNameChar = [] := by
    cases rest with
    | nil => rfl
    | cons c rest =>
      rw [endsName, Bool.not_eq_true'] at hrest
      rw [List.takeWhile_cons_of_neg (by simp [hrest])]
  obtain ⟨hne, hchars⟩ | rfl | rfl | rfl := hname
  · unfold attributeName
    rw [List.takeWhile_append_of_pos hchars, hnone, List.append_nil]
    split
    · rename_i hnil
      exact absurd (String.toList_eq_nil_iff.mp hnil) hne
    · rfl
  · rfl
  · rfl
  · rfl

/-- An attribute whose name is followed by `=` has the value that stands behind that, because no
blank does. -/
theorem scanAttribute_of_equals {src : Source} {name : String} {c : Char} {rest : List Char}
    (hsrc : src.rest = name.toList ++ '=' :: c :: rest) (hname : ReadableName name)
    (hc : Text.isBlank c = false) :
    scanAttribute src =
      (scanAttributeValue ((src.advance name.toList.length).advance 1)).map
        fun r => (⟨name, some r.1⟩, r.2) := by
  have hread : attributeName src.rest = name.toList := by
    rw [hsrc]
    exact attributeName_append hname (by simp only [endsName]; decide)
  have hequals : (src.advance name.toList.length).rest = '=' :: c :: rest :=
    rest_advance_append hsrc
  have hskip : (src.advance name.toList.length).skipBlanks = src.advance name.toList.length :=
    skipBlanks_of_rest hequals (by decide)
  have hvalue : ((src.advance name.toList.length).advance 1).rest = c :: rest := by
    rw [Source.rest_advance, hequals]
    rfl
  unfold scanAttribute
  dsimp only
  rw [hread, hskip]
  split
  · rw [skipBlanks_of_rest hvalue hc, String.ofList_toList]
    cases scanAttributeValue ((src.advance name.toList.length).advance 1) <;> rfl
  · rename_i hne
    exact absurd hequals (hne _)

/-- What may follow an attribute that is written, for it to be read alone: something that ends its
name, no `=` if it has no value, and something that ends its value if that has no quotes. -/
structure Follows (a : String × String) (rest : List Char) : Prop where
  endsName : endsName rest = true
  notEquals : a.2.isEmpty = true → (rest.dropWhile Text.isBlank).head? ≠ some '='
  endsValue : a.2.isEmpty = false → needsQuotes a.2 = true ∨ endsValue rest = true

/-- An attribute reads back. Blanks behind it may have been read too, in search of an `=`, so what
is left is only known up to blanks. -/
theorem scanAttribute_attributeChars {src : Source} {a : String × String} {rest : List Char}
    (hsrc : src.rest = attributeChars a ++ rest) (hname : ReadableName a.1)
    (hbraces : braceless a.2.toList = true) (hrest : Follows a rest) :
    ∃ raw later, scanAttribute src = .ok (raw, later) ∧ raw.Reads a ∧
      later.skipBlanks.rest = rest.dropWhile Text.isBlank := by
  obtain ⟨name, value⟩ := a
  cases hempty : value.isEmpty with
  | true =>
    simp only [attributeChars, hempty, if_true, List.append_nil] at hsrc
    have hread : attributeName src.rest = name.toList := by
      rw [hsrc]
      exact attributeName_append hname hrest.endsName
    have hafter : (src.advance name.toList.length).skipBlanks.rest =
        rest.dropWhile Text.isBlank := by
      rw [rest_skipBlanks, rest_advance_append hsrc]
    refine ⟨⟨name, none⟩, (src.advance name.toList.length).skipBlanks, ?_, ⟨rfl, ?_⟩, ?_⟩
    · refine scanAttribute_eq_ok_iff.mpr (.inr ?_)
      rw [hread, hafter, String.ofList_toList]
      exact ⟨hrest.notEquals hempty, rfl, rfl⟩
    · rw [if_pos hempty]
    · rw [skipBlanks_skipBlanks, hafter]
  | false =>
    simp only [attributeChars, hempty, Bool.false_eq_true, if_false, List.append_assoc,
      List.cons_append] at hsrc
    have hequals : (src.advance name.toList.length).rest = '=' :: (valueChars value ++ rest) :=
      rest_advance_append hsrc
    have hvalue : ((src.advance name.toList.length).advance 1).rest = valueChars value ++ rest := by
      rw [Source.rest_advance, hequals]
      rfl
    obtain ⟨span, later, hscan, hlater⟩ :=
      scanAttributeValue_valueChars hvalue hempty hbraces (hrest.endsValue hempty)
    refine ⟨⟨name, some [⟨.text (escapeQuotes value), span⟩]⟩, later, ?_, ⟨rfl, ?_⟩, ?_⟩
    · obtain ⟨c, s, hchars, hc⟩ := valueChars_exists_cons hempty
      rw [hchars, List.cons_append] at hsrc
      rw [scanAttribute_of_equals hsrc hname hc, hscan]
      rfl
    · simp [hempty]
    · rw [rest_skipBlanks, hlater]

/-- No attribute `=` stands behind one that is written without a value. -/
def attributesApart : List (String × String) → Bool
  | a :: b :: rest => !(a.2.isEmpty && b.1 == "=") && attributesApart (b :: rest)
  | _ => true

/-- Whether the last of some attributes is written with a value without quotes. -/
def lastUnquoted (attributes : List (String × String)) : Bool :=
  attributes.getLast?.any fun a => !a.2.isEmpty && !needsQuotes a.2

/-- The characters of attributes as they are written. -/
def attributesChars (attributes : List (String × String)) : List Char :=
  attributes.flatMap fun a => ' ' :: attributeChars a

/-- The ways in which an opening tag ends. -/
inductive IsTagEnd : Bool → List Char → Prop where
  | bracket : IsTagEnd false ['>']
  | slash : IsTagEnd true ['/', '>']
  | spacedSlash : IsTagEnd true [' ', '/', '>']

/-- The end of a tag ends a name before it. -/
theorem endsName_tagEnd {slash : Bool} {tagEnd : List Char} (h : IsTagEnd slash tagEnd)
    (rest : List Char) : endsName (tagEnd ++ rest) = true := by
  cases h <;> simp only [endsName, List.cons_append] <;> decide

/-- Behind blanks the end of a tag is no `=`, so an attribute without a value is read
without one. -/
theorem head?_dropWhile_tagEnd {slash : Bool} {tagEnd : List Char} (h : IsTagEnd slash tagEnd)
    (rest : List Char) : ((tagEnd ++ rest).dropWhile Text.isBlank).head? ≠ some '=' := by
  have hblank : Text.isBlank ' ' = true := by decide
  have hbracket : Text.isBlank '>' = false := by decide
  have hslash : Text.isBlank '/' = false := by decide
  cases h with
  | bracket => simp [hbracket]
  | slash => simp [hslash]
  | spacedSlash => simp [hblank, hslash]

/-- Behind the space before it, an attribute that is written starts with its name. -/
theorem dropWhile_attributeChars {a : String × String} (hname : ReadableName a.1)
    (rest : List Char) : (' ' :: (attributeChars a ++ rest)).dropWhile Text.isBlank =
      attributeChars a ++ rest := by
  have hblank : Text.isBlank ' ' = true := by decide
  obtain ⟨c, s, hchars, hc, -⟩ := hname.exists_cons
  rw [attributeChars, hchars, List.dropWhile_cons_of_pos hblank, List.cons_append, List.cons_append,
    List.dropWhile_cons_of_neg (by simp [hc])]

/-- What follows an attribute in a tag that is written follows it well: a blank before the next
attribute, or the end of the tag. A value without quotes must not take the slash of that. -/
theorem follows_attributesChars {a : String × String} {attributes : List (String × String)}
    {slash : Bool} {tagEnd : List Char} (htagEnd : IsTagEnd slash tagEnd)
    (hapart : attributesApart (a :: attributes) = true)
    (hnames : ∀ b ∈ attributes, ReadableName b.1)
    (hlast : lastUnquoted (a :: attributes) = true → tagEnd ≠ ['/', '>']) (rest : List Char) :
    Follows a (attributesChars attributes ++ (tagEnd ++ rest)) := by
  cases attributes with
  | nil =>
    refine ⟨endsName_tagEnd htagEnd rest, fun _ => head?_dropWhile_tagEnd htagEnd rest, ?_⟩
    intro hempty
    cases hquotes : needsQuotes a.2 with
    | true => exact Or.inl rfl
    | false =>
      have hunquoted : lastUnquoted [a] = true := by simp [lastUnquoted, hempty, hquotes]
      refine Or.inr ?_
      cases htagEnd with
      | bracket => rfl
      | slash => exact absurd rfl (hlast hunquoted)
      | spacedSlash => rfl
  | cons b attributes =>
    have hb := hnames b List.mem_cons_self
    have hchars : attributesChars (b :: attributes) ++ (tagEnd ++ rest) =
        ' ' :: (attributeChars b ++ (attributesChars attributes ++ (tagEnd ++ rest))) := by
      simp [attributesChars]
    rw [hchars]
    refine ⟨by simp only [endsName]; decide, fun hempty => ?_, fun _ => Or.inr ?_⟩
    · rw [dropWhile_attributeChars hb]
      obtain ⟨c, s, hname, -, -, -, hequals⟩ := hb.exists_cons
      rw [attributeChars, hname]
      rintro hc
      have hb' : b.1 = "=" := hequals (by simpa using hc)
      simp [attributesApart, hempty, hb'] at hapart
    · simp only [endsValue]
      decide

/-- Attributes that do not run into each other do so behind the first one as well. -/
theorem attributesApart_tail {a : String × String} {attributes : List (String × String)}
    (h : attributesApart (a :: attributes) = true) : attributesApart attributes = true := by
  cases attributes with
  | nil => rfl
  | cons b attributes =>
    rw [attributesApart, Bool.and_eq_true] at h
    exact h.2

/-- Which attribute is last does not depend on those before it. -/
theorem lastUnquoted_cons {attributes : List (String × String)} (a : String × String)
    (h : lastUnquoted attributes = true) : lastUnquoted (a :: attributes) = true := by
  cases attributes with
  | nil => cases h
  | cons b attributes => exact h

/-- The end of a tag that is written is read as it was written, blanks aside. These may have been
skipped with the last attribute. -/
theorem scanAttributes_tagEnd (unterminated : ScanError) {slash : Bool} {tagEnd : List Char}
    (htagEnd : IsTagEnd slash tagEnd) {src : Source} {rest : List Char}
    (hsrc : src.skipBlanks.rest = (tagEnd ++ rest).dropWhile Text.isBlank) :
    ∃ later, scanAttributes unterminated src = .ok ([], slash, later) ∧ later.rest = rest := by
  have hblank : Text.isBlank ' ' = true := by decide
  have hbracket : Text.isBlank '>' = false := by decide
  have hslash : Text.isBlank '/' = false := by decide
  cases htagEnd with
  | bracket =>
    have hrest : src.skipBlanks.rest = '>' :: rest := by
      rw [hsrc]
      simp [hbracket]
    refine ⟨src.skipBlanks.advance 1, scanAttributes_of_bracket hrest, ?_⟩
    rw [Source.rest_advance, hrest]
    rfl
  | slash =>
    have hrest : src.skipBlanks.rest = '/' :: '>' :: rest := by
      rw [hsrc]
      simp [hslash]
    refine ⟨src.skipBlanks.advance 2, scanAttributes_of_slash hrest, ?_⟩
    rw [Source.rest_advance, hrest]
    rfl
  | spacedSlash =>
    have hrest : src.skipBlanks.rest = '/' :: '>' :: rest := by
      rw [hsrc]
      simp [hblank, hslash]
    refine ⟨src.skipBlanks.advance 2, scanAttributes_of_slash hrest, ?_⟩
    rw [Source.rest_advance, hrest]
    rfl

/-- The attributes of a tag that is written read back, by induction on them: after each, what is
left is the rest of the tag but for blanks. -/
theorem scanAttributes_attributesChars (unterminated : ScanError) {slash : Bool}
    {tagEnd : List Char} (htagEnd : IsTagEnd slash tagEnd) (rest : List Char)
    (attributes : List (String × String)) (src : Source)
    (hattributes : ∀ a ∈ attributes, ReadableName a.1 ∧ braceless a.2.toList = true)
    (hapart : attributesApart attributes = true)
    (hlast : lastUnquoted attributes = true → tagEnd ≠ ['/', '>'])
    (hsrc : src.skipBlanks.rest =
      (attributesChars attributes ++ (tagEnd ++ rest)).dropWhile Text.isBlank) :
    ∃ raws later, scanAttributes unterminated src = .ok (raws, slash, later) ∧
      later.rest = rest ∧ List.Forall₂ RawAttribute.Reads raws attributes := by
  induction attributes generalizing src with
  | nil =>
    obtain ⟨later, hscan, hlater⟩ := scanAttributes_tagEnd unterminated htagEnd hsrc
    exact ⟨[], later, hscan, hlater, .nil⟩
  | cons a attributes ih =>
    obtain ⟨⟨hname, hbraces⟩, hattributes⟩ := List.forall_mem_cons.mp hattributes
    have hchars : attributesChars (a :: attributes) ++ (tagEnd ++ rest) =
        ' ' :: (attributeChars a ++ (attributesChars attributes ++ (tagEnd ++ rest))) := by
      simp [attributesChars]
    rw [hchars, dropWhile_attributeChars hname] at hsrc
    have hfollows := follows_attributesChars htagEnd hapart (fun b hb => (hattributes b hb).1) hlast
      rest
    obtain ⟨raw, later, hraw, hreads, hlater⟩ :=
      scanAttribute_attributeChars hsrc hname hbraces hfollows
    obtain ⟨raws, last, hraws, hrest, hreads'⟩ := ih later hattributes
      (attributesApart_tail hapart) (fun h => hlast (lastUnquoted_cons a h)) hlater
    refine ⟨raw :: raws, last, ?_, hrest, .cons hreads hreads'⟩
    obtain ⟨c, s, hcs, -, hslash, hbracket, -⟩ := hname.exists_cons
    have hcons : src.skipBlanks.rest = c :: (s ++ (if a.2.isEmpty then [] else
        '=' :: valueChars a.2) ++ (attributesChars attributes ++ (tagEnd ++ rest))) := by
      rw [hsrc, attributeChars, hcs, List.cons_append, List.cons_append]
    rw [scanAttributes_of_attribute hcons hbracket hslash hraw, hraws]
    rfl

/-! ## Tags -/

/-- A name that can be read behind `<`. -/
def ReadableTagName (name : String) : Prop :=
  (∀ c ∈ name.toList, isTagNameChar c = true) ∧ ∃ c s, name.toList = c :: s ∧ c.isAlpha = true

/-- The characters of an opening tag. -/
theorem toList_openingTag (name : String) (attributes : List (String × String))
    (void selfClosing : Bool) :
    (openingTag name (written attributes) void selfClosing).toList =
      '<' :: (name.toList ++ (attributesChars attributes ++
        (tagEnd (written attributes) void selfClosing).toList)) := by
  have hjoin : (String.join ((written attributes).map attributeText)).toList =
      attributesChars attributes := by
    simp only [String.toList_join, written, List.map_map, List.flatMap_map, attributesChars,
      Function.comp_def, toList_attributeText]
  unfold openingTag
  simp [hjoin]

/-- How a tag ends that is written: a void element has no slash, and a slash stands apart from a
last value without quotes. -/
theorem tagEnd_written (attributes : List (String × String)) (void selfClosing : Bool) :
    tagEnd (written attributes) void selfClosing =
      if void then ">"
      else if selfClosing then if lastUnquoted attributes then " />" else "/>"
      else ">" := by
  have hlast : (written attributes).getLast?.any endsUnquoted = lastUnquoted attributes := by
    rw [written, List.getLast?_map, Option.any_map]
    rfl
  rw [tagEnd, hlast]

/-- The end that is written is one of those that are read. Behind a last value without quotes it is
not a slash alone, which would be read as part of the value. -/
theorem isTagEnd_tagEnd (attributes : List (String × String)) (void selfClosing : Bool) :
    IsTagEnd (!void && selfClosing) (tagEnd (written attributes) void selfClosing).toList ∧
      (lastUnquoted attributes = true →
        (tagEnd (written attributes) void selfClosing).toList ≠ ['/', '>']) := by
  have hbracket : ">".toList = ['>'] := by decide
  have hslash : "/>".toList = ['/', '>'] := by decide
  have hspaced : " />".toList = [' ', '/', '>'] := by decide
  rw [tagEnd_written]
  cases void with
  | true =>
    rw [if_pos rfl, hbracket]
    exact ⟨.bracket, fun _ => by decide⟩
  | false =>
    rw [if_neg Bool.false_ne_true]
    cases selfClosing with
    | false =>
      rw [if_neg Bool.false_ne_true, hbracket]
      exact ⟨.bracket, fun _ => by decide⟩
    | true =>
      rw [if_pos rfl]
      cases lastUnquoted attributes with
      | true =>
        rw [if_pos rfl, hspaced]
        exact ⟨.spacedSlash, fun _ => by decide⟩
      | false =>
        rw [if_neg Bool.false_ne_true, hslash]
        exact ⟨.slash, fun h => by cases h⟩

/-- The name of a tag ends before its attributes, or before the end of the tag. -/
theorem endsTagName_attributesChars {attributes : List (String × String)} {slash : Bool}
    {tagEnd : List Char} (h : IsTagEnd slash tagEnd) (rest : List Char) :
    (attributesChars attributes ++ (tagEnd ++ rest)).takeWhile isTagNameChar = [] := by
  cases attributes with
  | nil =>
    cases h <;> rfl
  | cons a attributes => rfl

/-- An opening tag is read from its name and what is read of its attributes. This also says how it
fails, which is where the error of the tag comes from. -/
theorem scanNext_eq_map {src : Source} {name : String} {rest : List Char}
    (hsrc : src.rest = '<' :: (name.toList ++ rest)) (hname : ReadableTagName name)
    (hrest : rest.takeWhile isTagNameChar = []) :
    scanNext src = (scanAttributes ((ScanFault.unterminatedTag name).at src.position)
      ((src.advance 1).advance name.toList.length)).map
        fun r => (.tag ⟨name, r.1, false, r.2.1, false⟩, r.2.2) := by
  obtain ⟨hchars, c, s, hcs, hc⟩ := hname
  have htake : (src.advance 1).rest.takeWhile isTagNameChar = name.toList := by
    rw [Source.rest_advance, hsrc, List.drop_succ_cons, List.drop_zero,
      List.takeWhile_append_of_pos hchars, hrest, List.append_nil]
  have hopening : src.rest = '<' :: ([] ++ c :: (s ++ rest)) := by
    rw [hsrc, hcs, List.cons_append, List.nil_append]
  have hstart : startsTag src.rest = true :=
    startsTag_iff.mpr ⟨[], c, s ++ rest, by simp, hc, hopening⟩
  rw [scanNext_eq_scanTag hstart, scanTag_eq (by simp) hc hopening]
  dsimp only [List.length_nil, Nat.zero_add]
  rw [htake, String.ofList_toList]
  cases scanAttributes ((ScanFault.unterminatedTag name).at src.position)
    ((src.advance 1).advance name.toList.length) <;> rfl

/-- A tag is read once its attributes are: its name ends where they start. -/
theorem scanNext_of_scanAttributes {src later : Source} {name : String} {rest : List Char}
    {attributes : List RawAttribute} {selfClosing : Bool}
    (hsrc : src.rest = '<' :: (name.toList ++ rest)) (hname : ReadableTagName name)
    (hrest : rest.takeWhile isTagNameChar = [])
    (hscan : scanAttributes ((ScanFault.unterminatedTag name).at src.position)
      ((src.advance 1).advance name.toList.length) = .ok (attributes, selfClosing, later)) :
    scanNext src = .ok (.tag ⟨name, attributes, false, selfClosing, false⟩, later) := by
  rw [scanNext_eq_map hsrc hname hrest, hscan]
  rfl

/-- An opening tag that is written reads back, whatever follows it. This asks that its name and
those of its attributes can be read and that no value starts a mustache. -/
theorem scanNext_openingTag {src : Source} {name : String} {attributes : List (String × String)}
    {void selfClosing : Bool} {rest : List Char}
    (hsrc : src.rest = (openingTag name (written attributes) void selfClosing).toList ++ rest)
    (hname : ReadableTagName name)
    (hattributes : ∀ a ∈ attributes, ReadableName a.1 ∧ braceless a.2.toList = true)
    (hapart : attributesApart attributes = true) :
    ∃ raws later, scanNext src =
        .ok (.tag ⟨name, raws, false, !void && selfClosing, false⟩, later) ∧
      later.rest = rest ∧ List.Forall₂ RawAttribute.Reads raws attributes := by
  obtain ⟨hend, hlast⟩ := isTagEnd_tagEnd attributes void selfClosing
  rw [toList_openingTag, List.cons_append, List.append_assoc, List.append_assoc] at hsrc
  have hnext : (src.advance 1).rest = name.toList ++ (attributesChars attributes ++
      ((tagEnd (written attributes) void selfClosing).toList ++ rest)) := by
    rw [Source.rest_advance, hsrc]
    rfl
  have hbehind : ((src.advance 1).advance name.toList.length).skipBlanks.rest =
      (attributesChars attributes ++ ((tagEnd (written attributes) void selfClosing).toList ++
        rest)).dropWhile Text.isBlank := by
    rw [rest_skipBlanks, rest_advance_append hnext]
  obtain ⟨raws, later, hscan, hlater, hreads⟩ := scanAttributes_attributesChars
    ((ScanFault.unterminatedTag name).at src.position) hend rest attributes _ hattributes hapart
    hlast hbehind
  exact ⟨raws, later, scanNext_of_scanAttributes hsrc hname (endsTagName_attributesChars hend rest)
    hscan, hlater, hreads⟩

/-- A closing tag reads back: nothing stands between its name and the bracket, so it has no
attributes. -/
theorem scanNext_closingTag {src : Source} {name : String} {rest : List Char}
    (hsrc : src.rest = ("</" ++ name ++ ">").toList ++ rest) (hname : ReadableTagName name) :
    ∃ later, scanNext src = .ok (.tag ⟨name, [], true, false, false⟩, later) ∧
      later.rest = rest := by
  obtain ⟨hchars, c, s, hcs, hc⟩ := hname
  have hopen : "</".toList = ['<', '/'] := by decide
  have hclose : ">".toList = ['>'] := by decide
  rw [String.toList_append, String.toList_append, hopen, hclose, List.append_assoc,
    List.append_assoc, List.cons_append, List.cons_append, List.nil_append,
    List.singleton_append] at hsrc
  have hnamed : (src.advance 2).rest = name.toList ++ '>' :: rest := by
    rw [Source.rest_advance, hsrc]
    rfl
  have htake : (src.advance 2).rest.takeWhile isTagNameChar = name.toList := by
    rw [hnamed, List.takeWhile_append_of_pos hchars,
      List.takeWhile_cons_of_neg (by decide), List.append_nil]
  have hbehind : ((src.advance 2).advance name.toList.length).rest = '>' :: rest :=
    rest_advance_append hnamed
  have hskip := skipBlanks_of_rest hbehind (by decide)
  have hscan : scanAttributes ((ScanFault.unterminatedTag name).at src.position)
      ((src.advance 2).advance name.toList.length) =
        .ok ([], false, ((src.advance 2).advance name.toList.length).advance 1) := by
    rw [scanAttributes_of_bracket (by rw [hskip, hbehind]), hskip]
  refine ⟨((src.advance 2).advance name.toList.length).advance 1, ?_, ?_⟩
  · have hopening : src.rest = '<' :: (['/'] ++ c :: (s ++ '>' :: rest)) := by
      rw [hsrc, hcs]
      rfl
    have hstart : startsTag src.rest = true :=
      startsTag_iff.mpr ⟨['/'], c, s ++ '>' :: rest, by simp, hc, hopening⟩
    rw [scanNext_eq_scanTag hstart, scanTag_eq (by simp) hc hopening]
    dsimp only [List.length_singleton]
    rw [htake, String.ofList_toList, hscan]
    rfl
  · rw [Source.rest_advance, hbehind]
    rfl

end MustacheMarkup
