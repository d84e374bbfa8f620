import MustacheMarkup.Token.Basic

/-!
# Reading a source text as tokens

`tokenize` splits a source text into tokens. Outside mustaches a text runs up to the next
mustache, comment or tag; a tag opens with `<`, `</` or `<!` before an ASCII letter, so any other
`<` is text. The value of an attribute holds text and mustaches only.

Every token has at least one character, which is why the reading ends.
-/

set_option autoImplicit false

namespace MustacheMarkup

/-- Why a source text cannot be read: something that was opened is not closed. -/
inductive ScanFault where
  | unterminatedMustache
  | unterminatedComment
  | unterminatedTag (name : String)
  | unterminatedValue
deriving Repr, DecidableEq

/-- The wording of a fault. -/
def ScanFault.message : ScanFault → String
  | .unterminatedMustache => "Unterminated mustache"
  | .unterminatedComment => "Unterminated comment"
  | .unterminatedTag name => "Unterminated tag <" ++ name ++ ">"
  | .unterminatedValue => "Unterminated attribute value"

/-- A fault and where it is reported. -/
structure ScanError where
  fault : ScanFault
  line : Nat
  column : Nat
deriving Repr, DecidableEq

/-- The text of an error, with the stage that met it. -/
def describeFault (stage : String) (line column : Nat) (message : String) : String :=
  stage ++ " error at line " ++ toString line ++ ", column " ++ toString column ++ ": " ++ message

/-- The text of an error of reading. -/
def ScanError.message (e : ScanError) : String :=
  describeFault "Lexer" e.line e.column e.fault.message

/-- A fault that is reported at a place. -/
def ScanFault.at (fault : ScanFault) (p : Position) : ScanError :=
  ⟨fault, p.line, p.column⟩

/-! ## Where things start -/

/-- Whether a mustache starts here. -/
def startsMustache (s : List Char) : Bool :=
  ['{', '{'].isPrefixOf s

/-- Whether a comment starts here. -/
def startsComment (s : List Char) : Bool :=
  ['<', '!', '-', '-'].isPrefixOf s

/-- Whether a tag starts here. -/
def startsTag : List Char → Bool
  | '<' :: '/' :: c :: _ => c.isAlpha
  | '<' :: '!' :: c :: _ => c.isAlpha
  | '<' :: c :: _ => c.isAlpha
  | _ => false

/-- Whether a run of text outside tags ends here. -/
def endsText (s : List Char) : Bool :=
  startsMustache s || startsComment s || startsTag s

/-! ## Pieces -/

/-- What stands before the first occurrence of a delimiter. -/
def before? (delimiter : List Char) : List Char → Option (List Char)
  | [] => none
  | c :: rest =>
    if delimiter.isPrefixOf (c :: rest) then some []
    else (before? delimiter rest).map (c :: ·)

/-- The characters up to where `stops` says so. -/
def takeUntil (stops : List Char → Bool) : List Char → List Char
  | [] => []
  | c :: rest => if stops (c :: rest) then [] else c :: takeUntil stops rest

/-- The kind that the first character inside a mustache chooses, if it chooses one. -/
def MustacheKind.ofSigil? : Char → Option MustacheKind
  | '#' => some .opening
  | '^' => some .inverted
  | '/' => some .closing
  | '>' => some .inclusion
  | '!' => some .remark
  | _ => none

/-- What a mustache with two braces says. Its first character may choose the kind; blanks at the
ends do not count. -/
def Lexeme.ofMustache (content : List Char) : Lexeme :=
  match Text.stripBlanks content with
  | [] => .mustache .interpolation ""
  | c :: rest =>
    match MustacheKind.ofSigil? c with
    | some kind => .mustache kind (String.ofList (Text.stripBlanks rest))
    | none => .mustache .interpolation (String.ofList (c :: rest))

/-- Read a mustache. Three braces make a value that is not escaped. -/
def scanMustache (src : Source) : Except ScanError (Lexeme × Source) :=
  if ['{', '{', '{'].isPrefixOf src.rest then
    match before? ['}', '}', '}'] (src.rest.drop 3) with
    | none => .error (ScanFault.unterminatedMustache.at src.position)
    | some content =>
      .ok (.mustache .unescaped (String.ofList (Text.stripBlanks content)),
        src.advance (content.length + 6))
  else
    match before? ['}', '}'] (src.rest.drop 2) with
    | none => .error (ScanFault.unterminatedMustache.at src.position)
    | some content => .ok (Lexeme.ofMustache content, src.advance (content.length + 4))

/-- Read a comment. -/
def scanComment (src : Source) : Except ScanError (Lexeme × Source) :=
  match before? ['-', '-', '>'] (src.rest.drop 4) with
  | none => .error (ScanFault.unterminatedComment.at src.position)
  | some content => .ok (.comment (String.ofList content), src.advance (content.length + 7))

/-- Read a run of text. It has at least one character, whatever that is. -/
def scanText (stops : List Char → Bool) (src : Source) : Lexeme × Source :=
  let content := src.rest.take 1 ++ takeUntil stops (src.rest.drop 1)
  (.text (String.ofList content), src.advance content.length)

/-! ## Tokens one after another -/

/-- Read tokens until nothing is left, each with `scan`, which reads at least one character. -/
def scanAll (scan : Source → Except ScanError (Lexeme × Source))
    (shrinks : ∀ {src lexeme later}, src.rest ≠ [] → scan src = .ok (lexeme, later) →
      later.rest.length < src.rest.length)
    (src : Source) : Except ScanError (List Token) :=
  if hs : src.rest = [] then .ok []
  else
    match h : scan src with
    | .error e => .error e
    | .ok (lexeme, later) =>
      have := shrinks hs h
      match scanAll scan shrinks later with
      | .error e => .error e
      | .ok tokens => .ok (⟨lexeme, src.spanTo later⟩ :: tokens)
termination_by src.rest.length

/-- To read a mustache uses characters. -/
theorem length_rest_scanMustache_lt {src later : Source} {lexeme : Lexeme} (hs : src.rest ≠ [])
    (h : scanMustache src = .ok (lexeme, later)) : later.rest.length < src.rest.length := by
  unfold scanMustache at h
  split at h <;> split at h <;> simp only [reduceCtorEq, Except.ok.injEq, Prod.mk.injEq] at h
  all_goals
    obtain ⟨-, rfl⟩ := h
    exact Source.length_rest_advance_lt (by omega) hs

/-- To read a comment uses characters. -/
theorem length_rest_scanComment_lt {src later : Source} {lexeme : Lexeme} (hs : src.rest ≠ [])
    (h : scanComment src = .ok (lexeme, later)) : later.rest.length < src.rest.length := by
  unfold scanComment at h
  split at h <;> simp only [reduceCtorEq, Except.ok.injEq, Prod.mk.injEq] at h
  obtain ⟨-, rfl⟩ := h
  exact Source.length_rest_advance_lt (by omega) hs

/-- To read a text uses characters. -/
theorem length_rest_scanText_lt {stops : List Char → Bool} {src : Source} (hs : src.rest ≠ []) :
    (scanText stops src).2.rest.length < src.rest.length := by
  refine Source.length_rest_advance_lt ?_ hs
  have := List.length_pos_iff.mpr hs
  simp
  omega

/-! ## Values of attributes -/

/-- Read the next token of an attribute's value. -/
def scanInValue (src : Source) : Except ScanError (Lexeme × Source) :=
  if startsMustache src.rest then scanMustache src else .ok (scanText startsMustache src)

/-- To read the next token of a value uses characters. -/
theorem length_rest_scanInValue_lt {src later : Source} {lexeme : Lexeme} (hs : src.rest ≠ [])
    (h : scanInValue src = .ok (lexeme, later)) : later.rest.length < src.rest.length := by
  unfold scanInValue at h
  split at h
  · exact length_rest_scanMustache_lt hs h
  · simp only [Except.ok.injEq] at h
    have : (scanText startsMustache src).2.rest.length < src.rest.length :=
      length_rest_scanText_lt hs
    rwa [h] at this

/-- The tokens of a value that starts at a line and column. Offsets count from the value's start. -/
def scanValue (p : Position) (value : List Char) : Except ScanError (List Token) :=
  scanAll scanInValue length_rest_scanInValue_lt ⟨⟨0, p.line, p.column⟩, value⟩

/-- How long a value without quotes is: it ends at a blank or at `>`, but not inside a mustache.
The error is how far in a mustache stands that is not closed. -/
def unquotedLength (s : List Char) : Except Nat Nat :=
  match s with
  | [] => .ok 0
  | c :: rest =>
    if Text.isBlank c || c == '>' then .ok 0
    else if startsMustache (c :: rest) then
      match before? ['}', '}'] (rest.drop 1) with
      | none => .error 0
      | some content =>
        match unquotedLength (rest.drop (content.length + 3)) with
        | .error n => .error (content.length + 4 + n)
        | .ok n => .ok (content.length + 4 + n)
    else
      match unquotedLength rest with
      | .error n => .error (n + 1)
      | .ok n => .ok (n + 1)
termination_by s.length
decreasing_by all_goals simp only [List.length_cons, List.length_drop]; omega

/-- Read a value between quotes. An open value is reported behind its first quote. -/
def scanQuoted (quote : Char) (src : Source) : Except ScanError (List Token × Source) :=
  let inner := src.advance 1
  let value := inner.rest.takeWhile (· != quote)
  if value.length < inner.rest.length then
    match scanValue inner.position value with
    | .error e => .error e
    | .ok tokens => .ok (tokens, inner.advance (value.length + 1))
  else .error (ScanFault.unterminatedValue.at inner.position)

/-- Read a value without quotes. -/
def scanUnquoted (src : Source) : Except ScanError (List Token × Source) :=
  match unquotedLength src.rest with
  | .error n => .error (ScanFault.unterminatedMustache.at (src.advance n).position)
  | .ok n =>
    match scanValue src.position (src.rest.take n) with
    | .error e => .error e
    | .ok tokens => .ok (tokens, src.advance n)

/-- Read the value of an attribute, which follows `=` and blanks. -/
def scanAttributeValue (src : Source) : Except ScanError (List Token × Source) :=
  match src.rest with
  | '"' :: _ => scanQuoted '"' src
  | '\'' :: _ => scanQuoted '\'' src
  | _ => scanUnquoted src

/-- To read a value between quotes adds no characters. -/
theorem length_rest_scanQuoted_le {quote : Char} {src later : Source} {tokens : List Token}
    (h : scanQuoted quote src = .ok (tokens, later)) : later.rest.length ≤ src.rest.length := by
  unfold scanQuoted at h
  simp only at h
  split at h
  · split at h
    · simp at h
    · simp only [Except.ok.injEq, Prod.mk.injEq] at h
      obtain ⟨-, rfl⟩ := h
      simp
  · simp at h

/-- To read a value without quotes adds no characters. -/
theorem length_rest_scanUnquoted_le {src later : Source} {tokens : List Token}
    (h : scanUnquoted src = .ok (tokens, later)) : later.rest.length ≤ src.rest.length := by
  unfold scanUnquoted at h
  split at h
  · simp at h
  · split at h
    · simp at h
    · simp only [Except.ok.injEq, Prod.mk.injEq] at h
      obtain ⟨-, rfl⟩ := h
      simp

/-- To read a value adds no characters. -/
theorem length_rest_scanAttributeValue_le {src later : Source} {tokens : List Token}
    (h : scanAttributeValue src = .ok (tokens, later)) :
    later.rest.length ≤ src.rest.length := by
  unfold scanAttributeValue at h
  split at h
  · exact length_rest_scanQuoted_le h
  · exact length_rest_scanQuoted_le h
  · exact length_rest_scanUnquoted_le h

/-! ## Tags -/

/-- Whether a character can stand in the name of a tag. -/
def isTagNameChar (c : Char) : Bool :=
  !(Text.isBlank c || c == '/' || c == '>')

/-- Whether a character can stand in the name of an attribute. -/
def isAttributeNameChar (c : Char) : Bool :=
  !(Text.isBlank c || c == '=' || c == '/' || c == '>' || c == '"' || c == '\'')

/-- The name of the attribute that starts here. A character that no name can hold is a
name alone. -/
def attributeName (s : List Char) : List Char :=
  match s.takeWhile isAttributeNameChar with
  | [] => s.take 1
  | name => name

/-- Read an attribute: a name, and a value if `=` follows. -/
def scanAttribute (src : Source) : Except ScanError (RawAttribute × Source) :=
  let name := attributeName src.rest
  let src := (src.advance name.length).skipBlanks
  match src.rest with
  | '=' :: _ =>
    match scanAttributeValue (src.advance 1).skipBlanks with
    | .error e => .error e
    | .ok (value, src) => .ok (⟨String.ofList name, some value⟩, src)
  | _ => .ok (⟨String.ofList name, none⟩, src)

/-- The name of an attribute has a character, whatever it is. -/
theorem length_attributeName_pos {s : List Char} (hs : s ≠ []) :
    0 < (attributeName s).length := by
  unfold attributeName
  split
  · have := List.length_pos_iff.mpr hs
    simp
    omega
  · rename_i h
    exact List.length_pos_iff.mpr fun h' => h h'

/-- To read an attribute uses characters, because its name does. -/
theorem length_rest_scanAttribute_lt {src later : Source} {raw : RawAttribute}
    (hs : src.rest ≠ []) (h : scanAttribute src = .ok (raw, later)) :
    later.rest.length < src.rest.length := by
  have hname := Source.length_rest_advance_lt (length_attributeName_pos hs) hs
  have hblanks := Source.length_rest_skipBlanks_le
    (src.advance (attributeName src.rest).length)
  unfold scanAttribute at h
  simp only at h
  split at h
  · split at h
    · simp at h
    · rename_i hv
      simp only [Except.ok.injEq, Prod.mk.injEq] at h
      obtain ⟨-, rfl⟩ := h
      have h1 := length_rest_scanAttributeValue_le hv
      have h2 := Source.length_rest_skipBlanks_le
        ((src.advance (attributeName src.rest).length).skipBlanks.advance 1)
      have h3 := Source.length_rest_advance_le 1
        (src.advance (attributeName src.rest).length).skipBlanks
      omega
  · simp only [Except.ok.injEq, Prod.mk.injEq] at h
    obtain ⟨-, rfl⟩ := h
    omega

/-- Read the attributes of a tag and its end, and say whether it closes itself. A slash that does
not stand before `>` counts for nothing. -/
def scanAttributes (unterminated : ScanError) (src : Source) :
    Except ScanError (List RawAttribute × Bool × Source) :=
  match h : src.skipBlanks.rest with
  | [] => .error unterminated
  | '>' :: _ => .ok ([], false, src.skipBlanks.advance 1)
  | '/' :: '>' :: _ => .ok ([], true, src.skipBlanks.advance 2)
  | '/' :: _ =>
    have : (src.skipBlanks.advance 1).rest.length < src.rest.length :=
      Nat.lt_of_lt_of_le (Source.length_rest_advance_lt (by omega) (by simp [h]))
        (Source.length_rest_skipBlanks_le src)
    scanAttributes unterminated (src.skipBlanks.advance 1)
  | _ :: _ =>
    match ha : scanAttribute src.skipBlanks with
    | .error e => .error e
    | .ok (raw, later) =>
      have : later.rest.length < src.rest.length :=
        Nat.lt_of_lt_of_le (length_rest_scanAttribute_lt (by simp [h]) ha)
          (Source.length_rest_skipBlanks_le src)
      match scanAttributes unterminated later with
      | .error e => .error e
      | .ok (attributes, selfClosing, src) => .ok (raw :: attributes, selfClosing, src)
termination_by src.rest.length
decreasing_by all_goals assumption

/-- To read the attributes of a tag adds no characters. -/
theorem length_rest_scanAttributes_le {unterminated : ScanError} {src later : Source}
    {attributes : List RawAttribute} {selfClosing : Bool}
    (h : scanAttributes unterminated src = .ok (attributes, selfClosing, later)) :
    later.rest.length ≤ src.rest.length := by
  fun_induction scanAttributes unterminated src generalizing attributes selfClosing later with
  | case1 => simp at h
  | case2 src =>
    simp only [Except.ok.injEq, Prod.mk.injEq] at h
    obtain ⟨-, -, rfl⟩ := h
    exact Nat.le_trans (Source.length_rest_advance_le _ _) (Source.length_rest_skipBlanks_le src)
  | case3 src =>
    simp only [Except.ok.injEq, Prod.mk.injEq] at h
    obtain ⟨-, -, rfl⟩ := h
    exact Nat.le_trans (Source.length_rest_advance_le _ _) (Source.length_rest_skipBlanks_le src)
  | case4 src _ _ _ hlt ih => exact Nat.le_trans (ih h) (Nat.le_of_lt hlt)
  | case5 => simp at h
  | case6 => simp at h
  | case7 src =>
    rename_i hlt _ _ _ heq ih
    simp only [Except.ok.injEq, Prod.mk.injEq] at h
    obtain ⟨-, -, rfl⟩ := h
    exact Nat.le_trans (ih heq) (Nat.le_of_lt hlt)

/-- Read a tag. A tag that is not ended is reported where it starts. -/
def scanTag (src : Source) : Except ScanError (Lexeme × Source) :=
  let (closing, doctype, width) :=
    match src.rest.drop 1 with
    | '/' :: _ => (true, false, 2)
    | '!' :: _ => (false, true, 2)
    | _ => (false, false, 1)
  let named := src.advance width
  let name := named.rest.takeWhile isTagNameChar
  let unterminated := (ScanFault.unterminatedTag (String.ofList name)).at src.position
  match scanAttributes unterminated (named.advance name.length) with
  | .error e => .error e
  | .ok (attributes, selfClosing, src) =>
    .ok (.tag ⟨String.ofList name, attributes, closing, selfClosing, doctype⟩, src)

/-- To read a tag uses characters. -/
theorem length_rest_scanTag_lt {src later : Source} {lexeme : Lexeme} (hs : src.rest ≠ [])
    (h : scanTag src = .ok (lexeme, later)) : later.rest.length < src.rest.length := by
  unfold scanTag at h
  simp only at h
  split at h
  · simp at h
  · rename_i ha
    simp only [Except.ok.injEq, Prod.mk.injEq] at h
    obtain ⟨-, rfl⟩ := h
    refine Nat.lt_of_le_of_lt (length_rest_scanAttributes_le ha) ?_
    refine Nat.lt_of_le_of_lt (Source.length_rest_advance_le _ _) ?_
    refine Source.length_rest_advance_lt ?_ hs
    split <;> decide

/-! ## Templates -/

/-- Read the next token of a template. -/
def scanNext (src : Source) : Except ScanError (Lexeme × Source) :=
  if startsMustache src.rest then scanMustache src
  else if startsComment src.rest then scanComment src
  else if startsTag src.rest then scanTag src
  else .ok (scanText endsText src)

/-- To read the next token uses characters, which is what makes reading end. -/
theorem length_rest_scanNext_lt {src later : Source} {lexeme : Lexeme} (hs : src.rest ≠ [])
    (h : scanNext src = .ok (lexeme, later)) : later.rest.length < src.rest.length := by
  unfold scanNext at h
  split at h
  · exact length_rest_scanMustache_lt hs h
  · split at h
    · exact length_rest_scanComment_lt hs h
    · split at h
      · exact length_rest_scanTag_lt hs h
      · simp only [Except.ok.injEq] at h
        have : (scanText endsText src).2.rest.length < src.rest.length :=
          length_rest_scanText_lt hs
        rwa [h] at this

/-- The tokens of what is left of a source text. -/
def Source.tokens (src : Source) : Except ScanError (List Token) :=
  scanAll scanNext length_rest_scanNext_lt src

/-- The tokens of a source text. -/
def tokenize (source : String) : Except ScanError (List Token) :=
  (Source.ofString source).tokens

end MustacheMarkup
