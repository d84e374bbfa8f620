import MustacheMarkup.Json.Basic

/-!
# Reading JSON

`Json.read?` reads a text that is one strict JSON value with blanks around it, and nothing else.
Containers may be nested 127 deep. A number without fraction and exponent stays an integer if it
fits 64 bits. Any other number takes as many of its digits as fit 64 bits and is multiplied with,
or divided by, one power of ten in floating point, which need not give the nearest floating-point
number; if it is too large, it is no value.

A reader takes the characters that are left and gives back a value and the characters behind it.
Every step uses at least one character, so the length of the whole text bounds the steps of any
list in it; that bound is handed down as `limit`.
-/

set_option autoImplicit false

namespace MustacheMarkup.Json

/-- The characters that may stand between the parts of a value. -/
def isGap (c : Char) : Bool :=
  c == ' ' || c == '\t' || c == '\n' || c == '\r'

/-- The characters behind those that may stand between the parts of a value. -/
def dropGap (s : List Char) : List Char :=
  s.dropWhile isGap

/-! ## Texts -/

/-- The value of a hexadecimal digit. -/
def hexDigit? (c : Char) : Option Nat :=
  if '0' ≤ c ∧ c ≤ '9' then some (c.toNat - '0'.toNat)
  else if 'a' ≤ c ∧ c ≤ 'f' then some (c.toNat - 'a'.toNat + 10)
  else if 'A' ≤ c ∧ c ≤ 'F' then some (c.toNat - 'A'.toNat + 10)
  else none

/-- The 16-bit unit that four hexadecimal digits write. -/
def unit? (a b c d : Char) : Option Nat := do
  return 4096 * (← hexDigit? a) + 256 * (← hexDigit? b) + 16 * (← hexDigit? c) + (← hexDigit? d)

/-- The character that stands for itself or another behind a backslash. -/
def unescape? : Char → Option Char
  | '"' => some '"'
  | '\\' => some '\\'
  | '/' => some '/'
  | 'b' => some '\x08'
  | 'f' => some '\x0c'
  | 'n' => some '\n'
  | 'r' => some '\r'
  | 't' => some '\t'
  | _ => none

/-- Read a character behind `\u`. A first surrogate needs a second one. -/
def readUnits : List Char → Option (Char × List Char)
  | a :: b :: c :: d :: rest => do
    let n ← unit? a b c d
    if n < 0xD800 ∨ 0xE000 ≤ n then return (Char.ofNat n, rest)
    else if 0xDC00 ≤ n then none
    else
      match rest with
      | '\\' :: 'u' :: a :: b :: c :: d :: rest => do
        let m ← unit? a b c d
        if 0xDC00 ≤ m ∧ m < 0xE000 then
          return (Char.ofNat (0x10000 + (n - 0xD800) * 0x400 + (m - 0xDC00)), rest)
        else none
      | _ => none
  | _ => none

/-- Read a character inside a text: itself, or what stands behind a backslash. A control character
cannot stand for itself. -/
def readCharacter : List Char → Option (Char × List Char)
  | '\\' :: 'u' :: rest => readUnits rest
  | '\\' :: c :: rest => (unescape? c).map (·, rest)
  | c :: rest => if c.toNat < 0x20 ∨ c = '\\' then none else some (c, rest)
  | [] => none

/-- Read characters up to a quote, in at most so many steps. -/
def readCharacters : Nat → List Char → Option (List Char × List Char)
  | 0, _ => none
  | n + 1, s =>
    match s with
    | '"' :: rest => some ([], rest)
    | s => do
      let (c, rest) ← readCharacter s
      let (content, rest) ← readCharacters n rest
      return (c :: content, rest)

/-- Read a text behind its first quote. -/
def readText (limit : Nat) (s : List Char) : Option (String × List Char) := do
  let (content, rest) ← readCharacters limit s
  return (String.ofList content, rest)

/-! ## Numbers -/

/-- A number as it is written. -/
structure Numeral where
  negative : Bool
  /-- the digits before the point -/
  whole : List Char
  /-- the digits behind the point, if there is one -/
  fraction : Option (List Char)
  /-- the exponent, if there is one -/
  exponent : Option Int

/-- The number that digits write. -/
def ofDigits (digits : List Char) : Nat :=
  digits.foldl (fun n c => 10 * n + (c.toNat - '0'.toNat)) 0

/-- Put digits behind a number while it fits 64 bits, and give back how many were left over. -/
def takeDigits (significand : Nat) : List Char → Nat × Nat
  | [] => (significand, 0)
  | c :: rest =>
    let next := 10 * significand + (c.toNat - '0'.toNat)
    if next < 0x10000000000000000 then takeDigits next rest else (significand, rest.length + 1)

/-- A power of ten up to 308 in floating point. -/
def tenTo (n : Nat) : Float :=
  Float.ofScientific 1 false n

/-- A number times a power of ten, unless it is too large. Powers below the least one are taken in
steps. -/
def scale? (x : Float) (exponent : Int) : Option Float :=
  if 308 < exponent then
    if x == 0 then some x else none
  else if 0 ≤ exponent then
    let y := x * tenTo exponent.toNat
    if y.isInf then none else some y
  else if -308 ≤ exponent then some (x / tenTo exponent.natAbs)
  else if x == 0 then some x
  else scale? (x / tenTo 308) (exponent + 308)
termination_by exponent.natAbs

/-- The value of a number. -/
def Numeral.value? (n : Numeral) : Option Json :=
  let (significand, dropped) := takeDigits 0 n.whole
  if n.fraction.isNone ∧ n.exponent.isNone ∧ dropped = 0 ∧
      (n.negative → 0 < significand ∧ significand ≤ 0x8000000000000000) then
    some (.integer (if n.negative then -significand else significand))
  else
    let digits := n.fraction.getD []
    let (significand, unused) := takeDigits significand digits
    let exponent := (dropped : Int) - (digits.length - unused : Nat) + n.exponent.getD 0
    (scale? (Float.ofNat significand) exponent).map fun x => .real (if n.negative then -x else x)

/-- Read digits, at least one. -/
def readDigits (s : List Char) : Option (List Char × List Char) :=
  match s.takeWhile Char.isDigit with
  | [] => none
  | digits => some (digits, s.drop digits.length)

/-- Read the part of a number behind its point, if there is one. -/
def readFraction : List Char → Option (Option (List Char) × List Char)
  | '.' :: rest => (readDigits rest).map fun (digits, rest) => (some digits, rest)
  | s => some (none, s)

/-- Read the exponent of a number, if there is one. -/
def readExponent : List Char → Option (Option Int × List Char)
  | c :: rest =>
    if c = 'e' ∨ c = 'E' then
      match rest with
      | '-' :: rest => (readDigits rest).map fun (digits, rest) => (some (-ofDigits digits), rest)
      | '+' :: rest => (readDigits rest).map fun (digits, rest) => (some (ofDigits digits), rest)
      | rest => (readDigits rest).map fun (digits, rest) => (some (ofDigits digits), rest)
    else some (none, c :: rest)
  | [] => some (none, [])

/-- Read a number without its sign. It has no needless zero in front. -/
def readUnsigned (negative : Bool) (s : List Char) : Option (Json × List Char) := do
  let (whole, rest) ← readDigits s
  if whole.head? = some '0' ∧ whole.length ≠ 1 then none
  else
    let (fraction, rest) ← readFraction rest
    let (exponent, rest) ← readExponent rest
    let value ← Numeral.value? ⟨negative, whole, fraction, exponent⟩
    return (value, rest)

/-! ## Values -/

/-- Read values between commas up to a closing character, the first one without a comma, in at
most so many steps. -/
def readSequence {α : Type} (close : Char) (item : List Char → Option (α × List Char)) :
    Nat → List Char → Option (List α × List Char)
  | 0, _ => none
  | n + 1, s => do
    let (first, rest) ← item (dropGap s)
    match dropGap rest with
    | ',' :: rest =>
      let (items, rest) ← readSequence close item n rest
      return (first :: items, rest)
    | c :: rest => if c = close then return ([first], rest) else none
    | [] => none

/-- Read what stands between the brackets of a container. -/
def readContainer {α : Type} (limit : Nat) (close : Char)
    (item : List Char → Option (α × List Char)) (s : List Char) : Option (List α × List Char) :=
  match dropGap s with
  | [] => none
  | c :: rest => if c = close then some ([], rest) else readSequence close item limit s

/-- Read a member of an object, with a reader for its value. -/
def readMember (limit : Nat) (value : List Char → Option (Json × List Char)) (s : List Char) :
    Option ((String × Json) × List Char) :=
  match s with
  | '"' :: rest => do
    let (key, rest) ← readText limit rest
    match dropGap rest with
    | ':' :: rest =>
      let (value, rest) ← value (dropGap rest)
      return ((key, value), rest)
    | _ => none
  | _ => none

/-- The characters behind a word that must come next. -/
def dropWord? (word s : List Char) : Option (List Char) :=
  if word.isPrefixOf s then some (s.drop word.length) else none

/-- Read a value that nests containers at most so deep. -/
def readValue (limit : Nat) : Nat → List Char → Option (Json × List Char)
  | depth, s =>
    match s with
    | 'n' :: rest => (dropWord? ['u', 'l', 'l'] rest).map (.null, ·)
    | 't' :: rest => (dropWord? ['r', 'u', 'e'] rest).map (.bool true, ·)
    | 'f' :: rest => (dropWord? ['a', 'l', 's', 'e'] rest).map (.bool false, ·)
    | '"' :: rest => (readText limit rest).map fun (content, rest) => (.string content, rest)
    | '-' :: rest => readUnsigned true rest
    | '[' :: rest =>
      match depth with
      | 0 => none
      | depth + 1 =>
        (readContainer limit ']' (readValue limit depth) rest).map fun (items, rest) =>
          (.array items, rest)
    | '{' :: rest =>
      match depth with
      | 0 => none
      | depth + 1 =>
        (readContainer limit '}' (readMember limit (readValue limit depth)) rest).map
          fun (members, rest) => (.object (ofPairs members), rest)
    | s => readUnsigned false s

/-- How deep containers may be nested. -/
def maxDepth : Nat := 127

/-- The value that a whole text writes. -/
def read? (s : String) : Option Json :=
  match readValue s.length maxDepth (dropGap s.toList) with
  | some (value, rest) => if dropGap rest = [] then some value else none
  | none => none

end MustacheMarkup.Json
