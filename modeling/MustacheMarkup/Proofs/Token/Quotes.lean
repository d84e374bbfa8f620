import MustacheMarkup.Proofs.Token.Layout
import MustacheMarkup.Proofs.Token.Unquoted

/-!
# The same value with and without quotes

A value of texts and mustaches with no double quote in it can be written between double quotes. If
no text in it holds a blank or `>`, it can be written without quotes too. Both are read as the same
pieces, unless a mustache with three braces has a blank or `>` that stands outside for a value
without quotes: then the tag cannot be read, because the two ways to find the end of a mustache
disagree (`readsOne_unquoted_iff`).
-/

set_option autoImplicit false

namespace MustacheMarkup

open Source Piece

/-- The source text of a tag with one attribute, with what its value is written as. -/
def oneAttribute (written : String) : String :=
  "<t a=" ++ written ++ ">"

/-- The source text is read as one tag with one attribute, whose value says this. -/
def ReadsOne (source : String) (lexemes : List Lexeme) : Prop :=
  ∃ tokens span, tokenize source =
      .ok [⟨.tag ⟨"t", [⟨"a", some tokens⟩], false, false, false⟩, span⟩] ∧
    tokens.map Token.lexeme = lexemes

/-! ## The tag -/

section

variable {written : String} {c : Char} {rest : List Char}

/-- The characters of the tag with one attribute. -/
theorem toList_oneAttribute (written : String) : (oneAttribute written).toList =
    '<' :: 't' :: ' ' :: 'a' :: '=' :: (written.toList ++ ['>']) := by
  rw [oneAttribute, String.toList_append, String.toList_append]
  rfl

/-- There is something to read in the tag with one attribute. -/
theorem rest_oneAttribute_ne_nil (written : String) :
    (Source.ofString (oneAttribute written)).rest ≠ [] := by
  rw [Source.ofString, toList_oneAttribute]
  exact List.cons_ne_nil _ _

/-- The place of the value. -/
def valuePlace : Position :=
  Position.start.after "<t a=".toList

/-- How the tag is read depends on how the value is read. What comes before the value is fixed, so
it is worked out once. -/
theorem scanNext_oneAttribute (hwritten : written.toList ++ ['>'] = c :: rest)
    (hc : Text.isBlank c = false) :
    scanNext (Source.ofString (oneAttribute written)) =
      ((scanAttributeValue ⟨valuePlace, written.toList ++ ['>']⟩).bind fun value =>
        (scanAttributes ((ScanFault.unterminatedTag "t").at .start) value.2).map
          fun r => (⟨"a", some value.1⟩ :: r.1, r.2)).map
            fun r => (.tag ⟨"t", r.1, false, r.2.1, false⟩, r.2.2) := by
  have hname : ReadableTagName "t" :=
    ⟨List.forall_mem_singleton.mpr (by decide), 't', [], rfl, by decide⟩
  have hattribute : ReadableName "a" :=
    .inl ⟨by decide, List.forall_mem_singleton.mpr (by decide)⟩
  have hsource : (Source.ofString (oneAttribute written)).rest =
      '<' :: ("t".toList ++ ' ' :: 'a' :: '=' :: (written.toList ++ ['>'])) :=
    toList_oneAttribute written
  have hblank : Text.isBlank ' ' = true := by decide
  have hskip : (⟨⟨2, 1, 3⟩, ' ' :: 'a' :: '=' :: (written.toList ++ ['>'])⟩ : Source).skipBlanks =
      ⟨⟨3, 1, 4⟩, 'a' :: '=' :: (written.toList ++ ['>'])⟩ := by
    unfold Source.skipBlanks
    rw [List.takeWhile_cons_of_pos hblank, List.takeWhile_cons_of_neg (by decide)]
    rfl
  have hbehind : ((Source.ofString (oneAttribute written)).advance 1).advance "t".toList.length =
      ⟨⟨2, 1, 3⟩, ' ' :: 'a' :: '=' :: (written.toList ++ ['>'])⟩ := by
    rw [Source.ofString, toList_oneAttribute]
    rfl
  have hread : scanAttribute ⟨⟨3, 1, 4⟩, 'a' :: '=' :: (written.toList ++ ['>'])⟩ =
      (scanAttributeValue ⟨valuePlace, written.toList ++ ['>']⟩).map
        fun r => (⟨"a", some r.1⟩, r.2) := by
    rw [hwritten]
    exact @scanAttribute_of_equals ⟨⟨3, 1, 4⟩, 'a' :: '=' :: c :: rest⟩ "a" c rest rfl hattribute hc
  rw [scanNext_eq_map hsource hname rfl, hbehind,
    scanAttributes_eq_bind (by rw [hskip]) (by decide) (by decide), hskip, hread]
  cases scanAttributeValue ⟨valuePlace, written.toList ++ ['>']⟩ <;> rfl

/-- If the value cannot be read, neither can the tag, and the error is the same. -/
theorem tokenize_oneAttribute_of_error (hwritten : written.toList ++ ['>'] = c :: rest)
    (hc : Text.isBlank c = false) {e : ScanError}
    (he : scanAttributeValue ⟨valuePlace, written.toList ++ ['>']⟩ = .error e) :
    tokenize (oneAttribute written) = .error e := by
  have hnext := scanNext_oneAttribute hwritten hc
  rw [he] at hnext
  exact scanAll_of_error (rest_oneAttribute_ne_nil written) hnext

/-- If the value is read up to the bracket, the tag is read with this value. -/
theorem readsOne_of_scanAttributeValue (hwritten : written.toList ++ ['>'] = c :: rest)
    (hc : Text.isBlank c = false) {tokens : List Token} {later : Source}
    (hvalue : scanAttributeValue ⟨valuePlace, written.toList ++ ['>']⟩ = .ok (tokens, later))
    (hlater : later.rest = ['>']) :
    ReadsOne (oneAttribute written) (tokens.map Token.lexeme) := by
  have hnext := scanNext_oneAttribute hwritten hc
  have hend : later.skipBlanks = later := skipBlanks_of_rest hlater (by decide)
  have hbracket : scanAttributes ((ScanFault.unterminatedTag "t").at .start) later =
      .ok ([], false, later.advance 1) := by
    rw [scanAttributes_of_bracket (by rw [hend]; exact hlater), hend]
  have hdone : (later.advance 1).rest = [] := by
    rw [Source.rest_advance, hlater]
    rfl
  rw [hvalue, Except.bind, hbracket] at hnext
  refine ⟨tokens, (Source.ofString (oneAttribute written)).spanTo (later.advance 1), ?_, rfl⟩
  rw [tokenize, Source.tokens, scanAll_of_scan (rest_oneAttribute_ne_nil written) hnext,
    scanAll_of_rest_eq_nil hdone]
  rfl

end

/-! ## Both ways to write the value -/

section

variable {v : String} {pieces : List Piece}

/-- Between quotes a value is read as its pieces, because nothing but the quote ends it. -/
theorem readsOne_quoted (hv : flat pieces = v.toList) (hpieces : AllStand pieces [])
    (hquote : '"' ∉ v.toList) :
    ReadsOne (oneAttribute ("\"" ++ v ++ "\"")) (pieces.map lexeme) := by
  have hwritten : ("\"" ++ v ++ "\"").toList ++ ['>'] = '"' :: (flat pieces ++ '"' :: ['>']) := by
    rw [String.toList_append, String.toList_append, hv]
    simp
  rw [← hv] at hquote
  obtain ⟨tokens, later, hlexemes, hlater, hscan⟩ :=
    @scanQuoted_flat ⟨valuePlace, '"' :: (flat pieces ++ '"' :: ['>'])⟩ _ _ rfl hpieces hquote
  rw [← hlexemes]
  refine readsOne_of_scanAttributeValue hwritten (by decide) ?_ hlater
  rw [hwritten]
  exact hscan

/-- Whether a value without quotes can start with what starts these characters. -/
def startsUnquoted : List Char → Bool
  | [] => true
  | c :: _ => !Text.isBlank c && c != '"' && c != '\''

/-- A value without quotes starts with a character that is no blank and no quote, at the latest with
the bracket. -/
theorem exists_cons_of_startsUnquoted {s : List Char} (h : startsUnquoted s = true) :
    ∃ c rest, s ++ ['>'] = c :: rest ∧ Text.isBlank c = false ∧ c ≠ '"' ∧ c ≠ '\'' := by
  cases s with
  | nil => exact ⟨'>', [], rfl, by decide⟩
  | cons c s =>
    simp only [startsUnquoted, Bool.and_eq_true, Bool.not_eq_true', bne_iff_ne] at h
    exact ⟨c, s ++ ['>'], rfl, h.1.1, h.1.2, h.2⟩

/-- Without quotes a value is read as its pieces, if none of these has a character that ends the
value. -/
theorem readsOne_unquoted (hv : flat pieces = v.toList) (hpieces : AllStand pieces [])
    (hstart : startsUnquoted v.toList = true) (hunended : ∀ p ∈ pieces, Unended p.chars) :
    ReadsOne (oneAttribute v) (pieces.map lexeme) := by
  obtain ⟨c, rest, hwritten, hc, hdouble, hsingle⟩ := exists_cons_of_startsUnquoted hstart
  have hsrc : (⟨valuePlace, v.toList ++ ['>']⟩ : Source).rest = flat pieces ++ ['>'] := by rw [hv]
  obtain ⟨tokens, hlexemes, hscan⟩ := scanUnquoted_flat hsrc hpieces (by decide) hunended
  rw [← hlexemes]
  refine readsOne_of_scanAttributeValue hwritten hc ?_ (rest_advance_append hsrc)
  rw [scanAttributeValue_eq_scanUnquoted (by simp [hwritten, hdouble, hsingle]), hscan]

/-- Without quotes a value with such a character in three braces is cut off there, and the mustache
that is cut has no end. The error stands where this mustache starts. -/
theorem tokenize_unquoted_of_cut {before after : List Piece} {content : List Char}
    (hv : flat (before ++ .triple content :: after) = v.toList)
    (hpieces : AllStand (before ++ .triple content :: after) [])
    (hstart : startsUnquoted v.toList = true) (hbefore : ∀ p ∈ before, Unended p.chars)
    (hended : ¬Unended (Piece.triple content).chars) :
    tokenize (oneAttribute v) =
      .error (ScanFault.unterminatedMustache.at (valuePlace.after (flat before))) := by
  obtain ⟨c, rest, hwritten, hc, hdouble, hsingle⟩ := exists_cons_of_startsUnquoted hstart
  have hsrc : (⟨valuePlace, v.toList ++ ['>']⟩ : Source).rest =
      flat (before ++ .triple content :: after) ++ ['>'] := by rw [hv]
  refine tokenize_oneAttribute_of_error hwritten hc ?_
  rw [scanAttributeValue_eq_scanUnquoted (by simp [hwritten, hdouble, hsingle])]
  exact scanUnquoted_of_cut hsrc hpieces (by decide) hbefore hended

end

/-! ## Tokens and pieces -/

section

variable {value : List Char} {tokens : List Token} {pieces : List Piece}

/-- Tokens that are read of pieces say what the pieces say. -/
theorem map_lexeme_of_forall₂ (h : List.Forall₂ (Token.IsOf value) tokens pieces) :
    tokens.map Token.lexeme = pieces.map lexeme := by
  induction h with
  | nil => rfl
  | cons htoken _ ih => rw [List.map_cons, List.map_cons, htoken.lexeme_eq, ih]

/-- Pieces can be parted where their tokens are. -/
theorem exists_append_of_forall₂ {before after : List Token} {t : Token}
    (h : List.Forall₂ (Token.IsOf value) (before ++ t :: after) pieces) :
    ∃ before' p after', pieces = before' ++ p :: after' ∧
      List.Forall₂ (Token.IsOf value) before before' ∧ Token.IsOf value t p := by
  induction before generalizing pieces with
  | nil =>
    obtain ⟨p, after', htoken, -, rfl⟩ := List.forall₂_cons_left_iff.mp h
    exact ⟨[], p, after', rfl, .nil, htoken⟩
  | cons u before ih =>
    obtain ⟨q, rest, hu, hrest, rfl⟩ := List.forall₂_cons_left_iff.mp h
    obtain ⟨before', p, after', rfl, hbefore, htoken⟩ := ih hrest
    exact ⟨q :: before', p, after', rfl, .cons hu hbefore, htoken⟩

/-- What holds of the characters that tokens cover holds of the pieces that they are read of. -/
theorem unended_of_forall₂ (h : List.Forall₂ (Token.IsOf value) tokens pieces)
    (htokens : ∀ t ∈ tokens, Unended (stretch value [t])) : ∀ p ∈ pieces, Unended p.chars := by
  induction h with
  | nil => exact List.forall_mem_nil _
  | cons htoken _ ih =>
    obtain ⟨ht, hrest⟩ := List.forall_mem_cons.mp htokens
    rw [htoken.stretch_eq] at ht
    exact List.forall_mem_cons.mpr ⟨ht, ih hrest⟩

/-- Nothing in a mustache with two braces stands outside. -/
theorem unended_double {content behind : List Char} (h : (Piece.double content).Stands behind) :
    Unended (Piece.double content).chars := by
  have hstart : startsMustache ('{' :: '{' :: (content ++ ['}', '}'])) = true := rfl
  have hdrop : (content ++ ['}', '}']).drop (content.length + 2) = [] := by simp
  have hnone : outside (Piece.double content).chars = [] := by
    show outside ('{' :: '{' :: (content ++ ['}', '}'])) = []
    rw [outside, if_pos hstart, List.drop_succ_cons, List.drop_zero, h.2]
    dsimp only
    rw [List.drop_succ_cons, hdrop, outside]
  intro c hc
  rw [hnone] at hc
  cases hc

/-- The characters of a text are among those of the tokens. -/
theorem mem_textChars {t : Token} {content : List Char} (ht : t ∈ tokens)
    (hcontent : t.lexeme = .text (String.ofList content)) {c : Char} (hc : c ∈ content) :
    c ∈ textChars tokens := by
  refine List.mem_flatMap.mpr ⟨t, ht, ?_⟩
  have htext : t.text? = some (String.ofList content) := by rw [Token.text?, hcontent]
  rw [htext, Option.getD_some, String.toList_ofList]
  exact hc

/-- What something ends is a mustache with three braces. -/
theorem exists_triple_of_ended {t : Token} {p : Piece} {behind : List Char}
    (htexts : ∀ c ∈ textChars tokens, endsUnquoted c = false) (ht : t ∈ tokens)
    (htoken : Token.IsOf value t p) (hp : p.Stands behind)
    (hended : ¬Unended (stretch value [t])) : ∃ content, p = .triple content := by
  rw [htoken.stretch_eq] at hended
  cases p with
  | text content =>
    exact absurd (unended_of_forall fun c hc => htexts c (mem_textChars ht htoken.lexeme_eq hc))
      hended
  | double content => exact absurd (unended_double hp) hended
  | triple content => exact ⟨content, rfl⟩

/-- A value whose texts hold nothing that ends it starts with nothing that ends it, nor with a
quote: its first piece is a text or braces. -/
theorem startsUnquoted_of_forall₂ (h : List.Forall₂ (Token.IsOf value) tokens pieces)
    (hpieces : AllStand pieces []) (htexts : ∀ c ∈ textChars tokens, endsUnquoted c = false)
    (hflat : flat pieces = value) (hapostrophe : value.head? ≠ some '\'') (hquote : '"' ∉ value) :
    startsUnquoted value = true := by
  subst hflat
  cases h with
  | nil => rfl
  | @cons t p tokens pieces htoken _ =>
    rw [flat_cons] at hapostrophe hquote ⊢
    cases p with
    | text content =>
      obtain ⟨c, content, rfl⟩ := List.exists_cons_of_ne_nil hpieces.1.1
      have hc : endsUnquoted c = false :=
        htexts c (mem_textChars List.mem_cons_self htoken.lexeme_eq List.mem_cons_self)
      have hblank : Text.isBlank c = false := (Bool.or_eq_false_iff.mp hc).1
      have hdouble : c ≠ '"' := fun h => hquote (h ▸ List.mem_cons_self)
      have hsingle : c ≠ '\'' := fun h => hapostrophe (h ▸ rfl)
      simp [Piece.chars, startsUnquoted, hblank, hdouble, hsingle]
    | double content => exact (by decide : startsUnquoted ['{'] = true)
    | triple content => exact (by decide : startsUnquoted ['{'] = true)

end

/-! ## Where the two ways agree -/

section

variable {v : String} {tokens : List Token}

/-- The first token in which something ends the value is reported as not closed. It is a mustache
with three braces, and the value is cut off in its content. -/
theorem tokenize_unquoted_of_ended (hapostrophe : v.toList.head? ≠ some '\'')
    (hquote : '"' ∉ v.toList) (hvalue : scanValue .start v.toList = .ok tokens)
    (htexts : ∀ c ∈ textChars tokens, endsUnquoted c = false) {before after : List Token}
    {t : Token}
    (htokens : tokens = before ++ t :: after)
    (hbefore : ∀ u ∈ before, Unended (stretch v.toList [u]))
    (hended : ¬Unended (stretch v.toList [t])) :
    tokenize (oneAttribute v) = .error
      (ScanFault.unterminatedMustache.at (valuePlace.after (v.toList.take t.span.start))) := by
  obtain ⟨pieces, hstand, hflat, hpieces⟩ := exists_pieces_of_scanValue hvalue
  have hstart := startsUnquoted_of_forall₂ hpieces hstand htexts hflat hapostrophe hquote
  have hmem : t ∈ tokens := by
    rw [htokens]
    exact List.mem_append_right before List.mem_cons_self
  have hreads : (⟨.start, v.toList⟩ : Source).ReadsIn v.toList 0 v.toList.length :=
    ⟨List.prefix_rfl, Nat.zero_add _, rfl, rfl⟩
  have htiles := (covers_of_scanValue hreads (List.append_nil _).symm hvalue).tiles
  rw [htokens] at hpieces htiles
  obtain ⟨before', p, after', rfl, hbefore', htoken⟩ := exists_append_of_forall₂ hpieces
  obtain ⟨-, hp, -⟩ := allStand_append.mp hstand
  obtain ⟨content, rfl⟩ := exists_triple_of_ended htexts hmem htoken hp hended
  rw [htoken.stretch_eq] at hended
  have hplace : v.toList.take t.span.start = flat before' := by
    rw [start_eq_of_tiles hbefore' htiles, Nat.zero_add, ← hflat, flat_append, List.take_left]
  rw [hplace]
  exact tokenize_unquoted_of_cut hflat hstand hstart (unended_of_forall₂ hbefore' hbefore) hended

/-- A value whose texts hold no blank and no `>`, which does not start with a quote and has no
double quote, is read between double quotes as the tokens that it has alone. It is read as the same
tokens without quotes if and only if no mustache with three braces has a blank or `>` outside its
braces. Otherwise the first that has one is reported as not closed, at the place where it starts. -/
theorem readsOne_unquoted_iff (v : String) (tokens : List Token)
    (hapostrophe : v.toList.head? ≠ some '\'') (hquote : '"' ∉ v.toList)
    (hvalue : scanValue .start v.toList = .ok tokens)
    (htexts : ∀ c ∈ textChars tokens, endsUnquoted c = false) :
    ReadsOne (oneAttribute ("\"" ++ v ++ "\"")) (tokens.map Token.lexeme) ∧
      (ReadsOne (oneAttribute v) (tokens.map Token.lexeme) ↔
        ∀ t ∈ tokens, ∀ reference, t.lexeme = .mustache .unescaped reference →
          Unended (stretch v.toList [t])) ∧
      ∀ before t after, tokens = before ++ t :: after →
        (∀ u ∈ before, Unended (stretch v.toList [u])) → ¬Unended (stretch v.toList [t]) →
        tokenize (oneAttribute v) = .error
          (ScanFault.unterminatedMustache.at (valuePlace.after (v.toList.take t.span.start))) := by
  obtain ⟨pieces, hstand, hflat, hpieces⟩ := exists_pieces_of_scanValue hvalue
  have hlexemes := map_lexeme_of_forall₂ hpieces
  have hcut : ∀ before t after, tokens = before ++ t :: after →
      (∀ u ∈ before, Unended (stretch v.toList [u])) → ¬Unended (stretch v.toList [t]) →
      tokenize (oneAttribute v) = .error
        (ScanFault.unterminatedMustache.at (valuePlace.after (v.toList.take t.span.start))) :=
    fun before t after => tokenize_unquoted_of_ended hapostrophe hquote hvalue htexts
  refine ⟨?_, ⟨fun hreads t ht reference _ => ?_, fun hall => ?_⟩, hcut⟩
  · rw [hlexemes]
    exact readsOne_quoted hflat hstand hquote
  · -- Otherwise the tag could not be read, because of the first such mustache.
    by_contra hended
    obtain ⟨first, hfirst⟩ :
        ∃ u, tokens.find? (fun u => ¬Unended (stretch v.toList [u])) = some u :=
      Option.isSome_iff_exists.mp (List.find?_isSome.mpr ⟨t, ht, decide_eq_true hended⟩)
    obtain ⟨hfirst, before, after, htokens, hbefore⟩ := List.find?_eq_some_iff_append.mp hfirst
    have herror := hcut before first after htokens
      (fun u hu => by simpa using hbefore u hu) (by simpa using hfirst)
    obtain ⟨_, _, hok, -⟩ := hreads
    rw [herror] at hok
    cases hok
  · have hunended : ∀ t ∈ tokens, Unended (stretch v.toList [t]) := by
      intro t ht
      by_contra hended
      obtain ⟨before, after, rfl⟩ := List.append_of_mem ht
      obtain ⟨before', p, after', rfl, -, htoken⟩ := exists_append_of_forall₂ hpieces
      obtain ⟨-, hp, -⟩ := allStand_append.mp hstand
      obtain ⟨content, rfl⟩ := exists_triple_of_ended htexts ht htoken hp hended
      exact hended (hall t ht _ htoken.lexeme_eq)
    rw [hlexemes]
    exact readsOne_unquoted hflat hstand
      (startsUnquoted_of_forall₂ hpieces hstand htexts hflat hapostrophe hquote)
      (unended_of_forall₂ hpieces hunended)

end

/-- A text, a mustache with a bracket in it and one in three braces: between braces nothing ends the
value, as long as these are closed. -/
theorem readsOne_unquoted_mixed :
    let v := "x\x7b\x7by > z\x7d\x7d\x7b\x7b\x7b w \x7d\x7d\x7d"
    ∃ tokens, scanValue .start v.toList = .ok tokens ∧ tokens.length = 3 ∧
      ReadsOne (oneAttribute ("\"" ++ v ++ "\"")) (tokens.map Token.lexeme) ∧
      ReadsOne (oneAttribute v) (tokens.map Token.lexeme) := by
  intro v
  obtain ⟨tokens, hvalue⟩ : ∃ tokens, scanValue .start v.toList = .ok tokens :=
    Journal.exists_of_isOk (by decide +kernel)
  have hchecks : (scanValue .start v.toList).toOption.any (fun tokens =>
      tokens.length == 3 && (textChars tokens).all (fun c => !endsUnquoted c) &&
        tokens.all fun t => decide (Unended (stretch v.toList [t]))) = true := by decide +kernel
  rw [hvalue] at hchecks
  simp only [Except.toOption, Option.any_some, Bool.and_eq_true, beq_iff_eq, List.all_eq_true,
    Bool.not_eq_true', decide_eq_true_eq] at hchecks
  obtain ⟨⟨hlength, htexts⟩, hunended⟩ := hchecks
  obtain ⟨hquoted, hunquoted, -⟩ :=
    readsOne_unquoted_iff v tokens (by decide) (by decide) hvalue htexts
  exact ⟨tokens, hvalue, hlength, hquoted, hunquoted.mpr fun t ht _ _ => hunended t ht⟩

/-- A mustache with three braces that holds two braces and a blank is read between double quotes,
and not without them. -/
theorem not_readsOne_braces_blank :
    let v := "\x7b\x7b\x7ba\x7d\x7d b\x7d\x7d\x7d"
    ∃ tokens, v.toList.head? = some '{' ∧ '"' ∉ v.toList ∧
      scanValue .start v.toList = .ok tokens ∧ textChars tokens = [] ∧
      ReadsOne (oneAttribute ("\"" ++ v ++ "\"")) (tokens.map Token.lexeme) ∧
      ¬ReadsOne (oneAttribute v) (tokens.map Token.lexeme) := by
  intro v
  have hquote : '"' ∉ v.toList := by decide
  obtain ⟨tokens, hvalue⟩ : ∃ tokens, scanValue .start v.toList = .ok tokens :=
    Journal.exists_of_isOk (by decide +kernel)
  have htexts : (scanValue .start v.toList).toOption.any (fun tokens =>
      (textChars tokens).isEmpty) = true := by decide +kernel
  have herror : (tokenize (oneAttribute v)).isOk = false := by decide +kernel
  rw [hvalue] at htexts
  obtain ⟨pieces, hstand, hflat, hpieces⟩ := exists_pieces_of_scanValue hvalue
  refine ⟨tokens, by decide, hquote, hvalue, List.isEmpty_iff.mp htexts, ?_, ?_⟩
  · rw [map_lexeme_of_forall₂ hpieces]
    exact readsOne_quoted hflat hstand hquote
  · rintro ⟨_, _, hok, -⟩
    rw [hok] at herror
    cases herror

end MustacheMarkup
