import MustacheMarkup.Token.Scan

/-!
# What reading one token can come to

For each kind of token and for each part of a tag: which tests choose how it is read, what it is if
it can be read, and what is left behind it. Each is said once, so that what is proved of tokens does
not go through the branches of the reading again.
-/

set_option autoImplicit false

namespace MustacheMarkup

variable {src later : Source} {lexeme : Lexeme}

/-! ## Mustaches, comments and text -/

/-- A mustache that is read has three braces or two, and goes on to the first braces that match.
With three, its kind does not depend on its content. -/
theorem scanMustache_eq_ok_iff : scanMustache src = .ok (lexeme, later) ↔
    (∃ content, ['{', '{', '{'].isPrefixOf src.rest = true ∧
      before? ['}', '}', '}'] (src.rest.drop 3) = some content ∧
      lexeme = .mustache .unescaped (String.ofList (Text.stripBlanks content)) ∧
      later = src.advance (content.length + 6)) ∨
    ∃ content, ['{', '{', '{'].isPrefixOf src.rest = false ∧
      before? ['}', '}'] (src.rest.drop 2) = some content ∧ lexeme = Lexeme.ofMustache content ∧
      later = src.advance (content.length + 4) := by
  unfold scanMustache
  constructor
  · intro h
    split at h
    · rename_i htriple
      split at h
      · cases h
      · rename_i content hcontent
        cases h
        exact .inl ⟨content, htriple, hcontent, rfl, rfl⟩
    · rename_i htriple
      split at h
      · cases h
      · rename_i content hcontent
        cases h
        exact .inr ⟨content, Bool.eq_false_iff.mpr htriple, hcontent, rfl, rfl⟩
  · rintro (⟨content, htriple, hcontent, rfl, rfl⟩ | ⟨content, htriple, hcontent, rfl, rfl⟩)
    · rw [if_pos htriple, hcontent]
    · rw [htriple, if_neg Bool.false_ne_true, hcontent]

/-- A mustache that cannot be read lacks the braces that match those it starts with, and the fault
is where it starts. -/
theorem scanMustache_eq_error_iff {e : ScanError} : scanMustache src = .error e ↔
    e = ScanFault.unterminatedMustache.at src.position ∧
      (['{', '{', '{'].isPrefixOf src.rest = true ∧
        before? ['}', '}', '}'] (src.rest.drop 3) = none ∨
      ['{', '{', '{'].isPrefixOf src.rest = false ∧
        before? ['}', '}'] (src.rest.drop 2) = none) := by
  unfold scanMustache
  constructor
  · intro h
    split at h
    · rename_i htriple
      split at h
      · rename_i hnone
        cases h
        exact ⟨rfl, .inl ⟨htriple, hnone⟩⟩
      · cases h
    · rename_i htriple
      split at h
      · rename_i hnone
        cases h
        exact ⟨rfl, .inr ⟨Bool.eq_false_iff.mpr htriple, hnone⟩⟩
      · cases h
  · rintro ⟨rfl, ⟨htriple, hnone⟩ | ⟨htriple, hnone⟩⟩
    · rw [if_pos htriple, hnone]
    · rw [htriple, if_neg Bool.false_ne_true, hnone]

/-- A comment that is read goes on to the first mark that ends one. -/
theorem scanComment_eq_ok_iff : scanComment src = .ok (lexeme, later) ↔
    ∃ content, before? ['-', '-', '>'] (src.rest.drop 4) = some content ∧
      lexeme = .comment (String.ofList content) ∧ later = src.advance (content.length + 7) := by
  unfold scanComment
  constructor
  · intro h
    split at h
    · cases h
    · rename_i content hcontent
      cases h
      exact ⟨content, hcontent, rfl, rfl⟩
  · rintro ⟨content, hcontent, rfl, rfl⟩
    rw [hcontent]

/-- A comment cannot be read exactly if nothing ends it, and the error stands where it starts. -/
theorem scanComment_eq_error_iff {e : ScanError} : scanComment src = .error e ↔
    e = ScanFault.unterminatedComment.at src.position ∧
      before? ['-', '-', '>'] (src.rest.drop 4) = none := by
  unfold scanComment
  constructor
  · intro h
    split at h
    · rename_i hnone
      cases h
      exact ⟨rfl, hnone⟩
    · cases h
  · rintro ⟨rfl, hnone⟩
    rw [hnone]

/-! ## Values -/

/-- In a value a mustache is read where one starts, and a text otherwise. -/
theorem scanInValue_cases {r : Except ScanError (Lexeme × Source)} (h : scanInValue src = r) :
    startsMustache src.rest = true ∧ scanMustache src = r ∨
      startsMustache src.rest = false ∧ .ok (scanText startsMustache src) = r := by
  unfold scanInValue at h
  split at h
  · rename_i hstart
    exact .inl ⟨hstart, h⟩
  · rename_i hstart
    exact .inr ⟨Bool.eq_false_iff.mpr hstart, h⟩

/-- In a value, where a mustache starts, one is read. -/
theorem scanInValue_eq_scanMustache (h : startsMustache src.rest = true) :
    scanInValue src = scanMustache src :=
  if_pos h

/-- In a value, where no mustache starts, a text is read. -/
theorem scanInValue_eq_scanText (h : startsMustache src.rest = false) :
    scanInValue src = .ok (scanText startsMustache src) := by
  rw [scanInValue, h, if_neg Bool.false_ne_true]

variable {tokens : List Token}

/-- A value between quotes goes on to the next such quote. What stands in between is read as a value
on its own. -/
theorem scanQuoted_eq_ok_iff {quote : Char} : scanQuoted quote src = .ok (tokens, later) ↔
    let inner := src.advance 1
    let value := inner.rest.takeWhile (· != quote)
    value.length < inner.rest.length ∧ scanValue inner.position value = .ok tokens ∧
      later = inner.advance (value.length + 1) := by
  unfold scanQuoted
  dsimp only
  constructor
  · intro h
    split at h
    · rename_i hclosed
      split at h
      · cases h
      · rename_i hvalue
        cases h
        exact ⟨hclosed, hvalue, rfl⟩
    · cases h
  · rintro ⟨hclosed, hvalue, rfl⟩
    rw [if_pos hclosed, hvalue]

/-- A value between quotes cannot be read if there is no such quote behind it, or if it cannot be
read itself. -/
theorem scanQuoted_eq_error_iff {quote : Char} {e : ScanError} : scanQuoted quote src = .error e ↔
    let inner := src.advance 1
    let value := inner.rest.takeWhile (· != quote)
    value.length < inner.rest.length ∧ scanValue inner.position value = .error e ∨
      ¬value.length < inner.rest.length ∧ e = ScanFault.unterminatedValue.at inner.position := by
  unfold scanQuoted
  dsimp only
  constructor
  · intro h
    split at h
    · rename_i hclosed
      split at h
      · rename_i hvalue
        cases h
        exact .inl ⟨hclosed, hvalue⟩
      · cases h
    · rename_i hopen
      cases h
      exact .inr ⟨hopen, rfl⟩
  · rintro (⟨hclosed, hvalue⟩ | ⟨hopen, rfl⟩)
    · rw [if_pos hclosed, hvalue]
    · rw [if_neg hopen]

/-- A value without quotes is as long as its end says, and these characters are read as a value on
their own. -/
theorem scanUnquoted_eq_ok_iff : scanUnquoted src = .ok (tokens, later) ↔
    ∃ n, unquotedLength src.rest = .ok n ∧ scanValue src.position (src.rest.take n) = .ok tokens ∧
      later = src.advance n := by
  unfold scanUnquoted
  constructor
  · intro h
    split at h
    · cases h
    · rename_i n hn
      split at h
      · cases h
      · rename_i hvalue
        cases h
        exact ⟨n, hn, hvalue, rfl⟩
  · rintro ⟨n, hn, hvalue, rfl⟩
    rw [hn]
    dsimp only
    rw [hvalue]

/-- A value without quotes cannot be read if its end is not found, or if it cannot be
read itself. -/
theorem scanUnquoted_eq_error_iff {e : ScanError} : scanUnquoted src = .error e ↔
    (∃ n, unquotedLength src.rest = .error n ∧
      e = ScanFault.unterminatedMustache.at (src.advance n).position) ∨
    ∃ n, unquotedLength src.rest = .ok n ∧
      scanValue src.position (src.rest.take n) = .error e := by
  unfold scanUnquoted
  constructor
  · intro h
    split at h
    · rename_i n hn
      cases h
      exact .inl ⟨n, hn, rfl⟩
    · rename_i n hn
      split at h
      · rename_i hvalue
        cases h
        exact .inr ⟨n, hn, hvalue⟩
      · cases h
  · rintro (⟨n, hn, rfl⟩ | ⟨n, hn, hvalue⟩)
    · rw [hn]
    · rw [hn]
      dsimp only
      rw [hvalue]

/-- A value has quotes if it starts with one. -/
theorem scanAttributeValue_cases {r : Except ScanError (List Token × Source)}
    (h : scanAttributeValue src = r) :
    (∃ quote rest, quote ∈ ['"', '\''] ∧ src.rest = quote :: rest ∧ scanQuoted quote src = r) ∨
      (∀ quote ∈ ['"', '\''], src.rest.head? ≠ some quote) ∧ scanUnquoted src = r := by
  unfold scanAttributeValue at h
  split at h
  · rename_i rest hrest
    exact .inl ⟨'"', rest, by simp, hrest, h⟩
  · rename_i rest hrest
    exact .inl ⟨'\'', rest, by simp, hrest, h⟩
  · rename_i hdouble hsingle
    refine .inr ⟨fun quote hquote hhead => ?_, h⟩
    obtain ⟨rest, hrest⟩ := List.head?_eq_some_iff.mp hhead
    simp only [List.mem_cons, List.not_mem_nil, or_false] at hquote
    obtain rfl | rfl := hquote
    · exact hdouble rest hrest
    · exact hsingle rest hrest

/-- Where a value starts with a quote, it is read between quotes. -/
theorem scanAttributeValue_eq_scanQuoted {quote : Char} {rest : List Char}
    (hquote : quote ∈ ['"', '\'']) (hsrc : src.rest = quote :: rest) :
    scanAttributeValue src = scanQuoted quote src := by
  unfold scanAttributeValue
  rw [hsrc]
  simp only [List.mem_cons, List.not_mem_nil, or_false] at hquote
  obtain rfl | rfl := hquote <;> rfl

/-- Where a value does not start with a quote, it is read without them. -/
theorem scanAttributeValue_eq_scanUnquoted
    (h : ∀ quote ∈ ['"', '\''], src.rest.head? ≠ some quote) :
    scanAttributeValue src = scanUnquoted src := by
  obtain ⟨quote, rest, hquote, hsrc, -⟩ | ⟨-, hscan⟩ := @scanAttributeValue_cases src _ rfl
  · exact absurd (by rw [hsrc]; rfl) (h quote hquote)
  · exact hscan.symm

/-! ## Attributes -/

/-- An attribute that is read has a value if an equals sign follows its name and the blanks behind
that. -/
theorem scanAttribute_eq_ok_iff {a : RawAttribute} : scanAttribute src = .ok (a, later) ↔
    let name := attributeName src.rest
    let named := (src.advance name.length).skipBlanks
    (∃ rest tokens, named.rest = '=' :: rest ∧
      scanAttributeValue (named.advance 1).skipBlanks = .ok (tokens, later) ∧
      a = ⟨String.ofList name, some tokens⟩) ∨
    named.rest.head? ≠ some '=' ∧ a = ⟨String.ofList name, none⟩ ∧ later = named := by
  unfold scanAttribute
  dsimp only
  constructor
  · intro h
    split at h
    · rename_i rest hequals
      split at h
      · cases h
      · rename_i hvalue
        cases h
        exact .inl ⟨rest, _, hequals, hvalue, rfl⟩
    · rename_i hequals
      cases h
      refine .inr ⟨fun hhead => ?_, rfl, rfl⟩
      obtain ⟨rest, hrest⟩ := List.head?_eq_some_iff.mp hhead
      exact hequals rest hrest
  · rintro (⟨rest, tokens, hequals, hvalue, rfl⟩ | ⟨hequals, rfl, rfl⟩)
    · split
      · rw [hvalue]
      · rename_i hnone
        exact absurd hequals (hnone rest)
    · split
      · rename_i rest hrest
        exact absurd (by rw [hrest]; rfl) hequals
      · rfl

/-- An attribute cannot be read if it has a value that cannot be read. A name there is always. -/
theorem scanAttribute_eq_error_iff {e : ScanError} : scanAttribute src = .error e ↔
    let named := (src.advance (attributeName src.rest).length).skipBlanks
    (∃ rest, named.rest = '=' :: rest) ∧
      scanAttributeValue (named.advance 1).skipBlanks = .error e := by
  unfold scanAttribute
  dsimp only
  constructor
  · intro h
    split at h
    · rename_i rest hequals
      split at h
      · rename_i hvalue
        cases h
        exact ⟨⟨rest, hequals⟩, hvalue⟩
      · cases h
    · cases h
  · rintro ⟨⟨rest, hequals⟩, hvalue⟩
    split
    · rw [hvalue]
    · rename_i hnone
      exact absurd hequals (hnone rest)

variable {unterminated : ScanError}

/-- How the attributes of a tag are read, by what stands behind the blanks that come first. A slash
that does not end the tag is passed over. -/
theorem scanAttributes_eq : scanAttributes unterminated src =
    match src.skipBlanks.rest with
    | [] => .error unterminated
    | '>' :: _ => .ok ([], false, src.skipBlanks.advance 1)
    | '/' :: '>' :: _ => .ok ([], true, src.skipBlanks.advance 2)
    | '/' :: _ => scanAttributes unterminated (src.skipBlanks.advance 1)
    | _ :: _ => (scanAttribute src.skipBlanks).bind fun first =>
      (scanAttributes unterminated first.2).map fun r => (first.1 :: r.1, r.2) := by
  rw [scanAttributes]
  split
  · rename_i h
    simp only [h]
  · rename_i h
    simp only [h]
  · rename_i h
    simp only [h]
  · rename_i hne h
    simp only [h]
  · rename_i hbracket _ hslash h
    simp only [h]
    split
    · rename_i herror
      conv => rhs; rw [herror]
      rfl
    · rename_i raw later hok
      conv => rhs; rw [hok]
      dsimp only [Except.bind]
      cases scanAttributes unterminated later <;> rfl

/-- A tag that is not closed cannot be read. -/
theorem scanAttributes_of_nil (h : src.skipBlanks.rest = []) :
    scanAttributes unterminated src = .error unterminated := by
  rw [scanAttributes_eq]
  simp only [h]

/-- A bracket ends the attributes. -/
theorem scanAttributes_of_bracket {rest : List Char} (h : src.skipBlanks.rest = '>' :: rest) :
    scanAttributes unterminated src = .ok ([], false, src.skipBlanks.advance 1) := by
  rw [scanAttributes_eq]
  simp only [h]

/-- A slash and a bracket end the attributes of a tag that closes itself. -/
theorem scanAttributes_of_slash {rest : List Char} (h : src.skipBlanks.rest = '/' :: '>' :: rest) :
    scanAttributes unterminated src = .ok ([], true, src.skipBlanks.advance 2) := by
  rw [scanAttributes_eq]
  simp only [h]

/-- A slash that does not stand before the bracket is passed over. -/
theorem scanAttributes_of_loneSlash {rest : List Char} (h : src.skipBlanks.rest = '/' :: rest)
    (hrest : ∀ more, rest ≠ '>' :: more) :
    scanAttributes unterminated src = scanAttributes unterminated (src.skipBlanks.advance 1) := by
  rw [scanAttributes_eq]
  simp only [h]

/-- Where a tag does not end, an attribute is read, and then those behind it. -/
theorem scanAttributes_eq_bind {c : Char} {rest : List Char}
    (h : src.skipBlanks.rest = c :: rest) (hbracket : c ≠ '>') (hslash : c ≠ '/') :
    scanAttributes unterminated src = (scanAttribute src.skipBlanks).bind fun first =>
      (scanAttributes unterminated first.2).map fun r => (first.1 :: r.1, r.2) := by
  rw [scanAttributes_eq, h]
  split
  · rename_i hnil
    cases hnil
  · rename_i heq
    exact absurd (List.cons.inj heq).1 hbracket
  · rename_i heq
    exact absurd (List.cons.inj heq).1 hslash
  · rename_i heq
    exact absurd (List.cons.inj heq).1 hslash
  · rfl

/-- Attributes are read one after another. -/
theorem scanAttributes_of_attribute {c : Char} {rest : List Char}
    (h : src.skipBlanks.rest = c :: rest) (hbracket : c ≠ '>') (hslash : c ≠ '/')
    {raw : RawAttribute} (hraw : scanAttribute src.skipBlanks = .ok (raw, later)) :
    scanAttributes unterminated src =
      (scanAttributes unterminated later).map fun r => (raw :: r.1, r.2) := by
  rw [scanAttributes_eq_bind h hbracket hslash, hraw]
  rfl

/-! ## Tags -/

/-- A tag starts with `<`, a mark perhaps, and a letter. The mark is the slash of a closing tag or
the one that a doctype has. -/
theorem startsTag_iff {s : List Char} : startsTag s = true ↔
    ∃ mark c rest, mark ∈ [[], ['/'], ['!']] ∧ c.isAlpha = true ∧
        s = '<' :: (mark ++ c :: rest) := by
  constructor
  · intro h
    unfold startsTag at h
    split at h
    · rename_i c rest
      exact ⟨['/'], c, rest, by simp, h, rfl⟩
    · rename_i c rest
      exact ⟨['!'], c, rest, by simp, h, rfl⟩
    · rename_i c rest _ _
      exact ⟨[], c, rest, by simp, h, rfl⟩
    · cases h
  · rintro ⟨mark, c, rest, hmark, hc, rfl⟩
    simp only [List.mem_cons, List.not_mem_nil, or_false] at hmark
    obtain rfl | rfl | rfl := hmark
    · have hslash : c ≠ '/' := by
        rintro rfl
        cases hc
      have hmark : c ≠ '!' := by
        rintro rfl
        cases hc
      rw [List.nil_append, startsTag.eq_3 _ _ (fun _ _ h => absurd h hslash)
        (fun _ _ h => absurd h hmark), hc]
    · exact hc
    · exact hc

/-- How a tag is read that starts with a certain mark. The name goes from the letter to what ends
it, and the attributes are read from there. -/
theorem scanTag_eq {mark rest : List Char} {c : Char} (hmark : mark ∈ [[], ['/'], ['!']])
    (hc : c.isAlpha = true) (hrest : src.rest = '<' :: (mark ++ c :: rest)) :
    scanTag src =
      let named := src.advance (mark.length + 1)
      let name := named.rest.takeWhile isTagNameChar
      match scanAttributes ((ScanFault.unterminatedTag (String.ofList name)).at src.position)
        (named.advance name.length) with
      | .error e => .error e
      | .ok (attributes, selfClosing, later) => .ok (.tag ⟨String.ofList name, attributes,
          mark == ['/'], selfClosing, mark == ['!']⟩, later) := by
  have hdrop : src.rest.drop 1 = mark ++ c :: rest := by
    rw [hrest]
    rfl
  unfold scanTag
  rw [hdrop]
  simp only [List.mem_cons, List.not_mem_nil, or_false] at hmark
  obtain rfl | rfl | rfl := hmark
  · obtain ⟨hslash, hexclamation⟩ : c ≠ '/' ∧ c ≠ '!' := by
      constructor <;> rintro rfl <;> cases hc
    rw [List.nil_append]
    split
    rename_i closing doctype width heq
    split at heq
    · rename_i hcons
      exact absurd (List.cons.inj hcons).1 hslash
    · rename_i hcons
      exact absurd (List.cons.inj hcons).1 hexclamation
    · cases heq
      rfl
  · rfl
  · rfl

/-- What is read as a tag is one, and its attributes are read as those of a tag. -/
theorem exists_of_scanTag (h : scanTag src = .ok (lexeme, later)) :
    ∃ (tag : Tag) (unterminated : ScanError) (named : Source), lexeme = .tag tag ∧
      scanAttributes unterminated named = .ok (tag.attributes, tag.selfClosing, later) := by
  unfold scanTag at h
  dsimp only at h
  split at h
  · cases h
  · rename_i hattributes
    cases h
    exact ⟨_, _, _, rfl, hattributes⟩

/-- The attributes of a tag that starts with a certain mark are read behind its name. -/
theorem exists_attributes_of_scanTag {mark rest : List Char} {c : Char}
    (hmark : mark ∈ [[], ['/'], ['!']]) (hc : c.isAlpha = true)
    (hrest : src.rest = '<' :: (mark ++ c :: rest)) (h : scanTag src = .ok (lexeme, later)) :
    let named := src.advance (mark.length + 1)
    let name := named.rest.takeWhile isTagNameChar
    ∃ attributes selfClosing,
      scanAttributes ((ScanFault.unterminatedTag (String.ofList name)).at src.position)
        (named.advance name.length) = .ok (attributes, selfClosing, later) ∧
      lexeme =
        .tag ⟨String.ofList name, attributes, mark == ['/'], selfClosing, mark == ['!']⟩ := by
  rw [scanTag_eq hmark hc hrest] at h
  dsimp only at h ⊢
  split at h
  · cases h
  · rename_i attributes selfClosing last hattributes
    cases h
    exact ⟨attributes, selfClosing, hattributes, rfl⟩

/-! ## Templates -/

/-- What starts a comment does not start a mustache, so the order in which the two are looked for
does not matter. -/
theorem startsMustache_of_startsComment {s : List Char} (h : startsComment s = true) :
    startsMustache s = false := by
  obtain ⟨rest, rfl⟩ := List.isPrefixOf_iff_prefix.mp h
  rfl

/-- What starts like a tag starts like nothing else. -/
theorem starts_of_startsTag {s : List Char} (h : startsTag s = true) :
    startsMustache s = false ∧ startsComment s = false := by
  obtain ⟨mark, c, rest, hmark, hc, rfl⟩ := startsTag_iff.mp h
  refine ⟨rfl, ?_⟩
  obtain ⟨hexclamation, hhyphen⟩ : ('!' == c) = false ∧ ('-' == c) = false := by
    constructor <;> rw [beq_eq_false_iff_ne] <;> rintro rfl <;> cases hc
  simp only [List.mem_cons, List.not_mem_nil, or_false] at hmark
  obtain rfl | rfl | rfl := hmark <;> simp [startsComment, List.isPrefixOf, hexclamation, hhyphen]

/-- Where a mustache starts, one is read. -/
theorem scanNext_eq_scanMustache (h : startsMustache src.rest = true) :
    scanNext src = scanMustache src :=
  if_pos h

/-- Where a comment starts, one is read. -/
theorem scanNext_eq_scanComment (h : startsComment src.rest = true) :
    scanNext src = scanComment src := by
  rw [scanNext, startsMustache_of_startsComment h, if_neg Bool.false_ne_true, if_pos h]

/-- Where a tag starts, one is read. -/
theorem scanNext_eq_scanTag (h : startsTag src.rest = true) : scanNext src = scanTag src := by
  obtain ⟨hmustache, hcomment⟩ := starts_of_startsTag h
  rw [scanNext, hmustache, hcomment, if_neg Bool.false_ne_true, if_neg Bool.false_ne_true, if_pos h]

/-- Where nothing else starts, a text is read. -/
theorem scanNext_eq_scanText (h : endsText src.rest = false) :
    scanNext src = .ok (scanText endsText src) := by
  simp only [endsText, Bool.or_eq_false_iff] at h
  obtain ⟨⟨hmustache, hcomment⟩, htag⟩ := h
  rw [scanNext, hmustache, hcomment, htag, if_neg Bool.false_ne_true, if_neg Bool.false_ne_true,
    if_neg Bool.false_ne_true]

/-- In a template a token is read as what it starts like, and as a text if that is nothing else. -/
theorem scanNext_cases {r : Except ScanError (Lexeme × Source)} (h : scanNext src = r) :
    startsMustache src.rest = true ∧ scanMustache src = r ∨
      startsComment src.rest = true ∧ scanComment src = r ∨
      startsTag src.rest = true ∧ scanTag src = r ∨
      endsText src.rest = false ∧ .ok (scanText endsText src) = r := by
  cases hmustache : startsMustache src.rest with
  | true => exact .inl ⟨rfl, (scanNext_eq_scanMustache hmustache).symm.trans h⟩
  | false =>
    cases hcomment : startsComment src.rest with
    | true => exact .inr (.inl ⟨rfl, (scanNext_eq_scanComment hcomment).symm.trans h⟩)
    | false =>
      cases htag : startsTag src.rest with
      | true => exact .inr (.inr (.inl ⟨rfl, (scanNext_eq_scanTag htag).symm.trans h⟩))
      | false =>
        have hends : endsText src.rest = false := by
          rw [endsText, hmustache, hcomment, htag]
          rfl
        exact .inr (.inr (.inr ⟨hends, (scanNext_eq_scanText hends).symm.trans h⟩))

end MustacheMarkup
