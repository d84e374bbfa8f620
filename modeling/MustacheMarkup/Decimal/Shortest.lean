/-!
# The shortest decimal of a floating-point number

Every finite double stands for an interval of reals: those that round to it. Of the decimals in
that interval, `Binary.shortest` takes one with the fewest digits, and of those the nearest to the
number; if two are equally near, the one whose last digit is even. All arithmetic is exact.
-/

set_option autoImplicit false

namespace MustacheMarkup

/-- The number `digits * 10 ^ exponent`. -/
structure Decimal where
  digits : Nat
  exponent : Int
deriving Repr, DecidableEq

/-- A finite double without its sign: `significand * 2 ^ exponent`. -/
structure Binary where
  significand : Nat
  exponent : Int
  /-- whether the next smaller double is only half as far away as the next larger one -/
  narrow : Bool
deriving Repr, DecidableEq

namespace Binary

/-- The number that the bits of a finite double stand for, without its sign. -/
def ofBits (bits : UInt64) : Binary :=
  let field := (bits >>> 52 &&& 0x7FF).toNat
  let fraction := (bits &&& 0xFFFFFFFFFFFFF).toNat
  if field = 0 then ⟨fraction, -1074, false⟩
  else ⟨0x10000000000000 + fraction, field - 1075, fraction == 0 && field != 1⟩

/-- The numerator of `2 ^ exponent / 10 ^ scale`, the distance between neighbours on the scale. -/
def unit (x : Binary) (scale : Int) : Nat :=
  Nat.pow 2 x.exponent.toNat * Nat.pow 10 (-scale).toNat

/-- The denominator of `2 ^ exponent / 10 ^ scale`. -/
def denominator (x : Binary) (scale : Int) : Nat :=
  Nat.pow 2 (-x.exponent).toNat * Nat.pow 10 scale.toNat

/-- The numerator of `x / 10 ^ scale`. -/
def numerator (x : Binary) (scale : Int) : Nat :=
  x.significand * x.unit scale

/-- Whether `digits * 10 ^ scale` lies in the interval of the reals that round to `x`. The
interval reaches half way to the neighbours, and holds its ends if the significand is even. -/
def interval (x : Binary) (scale : Int) (digits : Nat) : Bool :=
  let point := 4 * digits * x.denominator scale
  let low := (4 * x.significand - if x.narrow then 1 else 2) * x.unit scale
  let high := (4 * x.significand + 2) * x.unit scale
  if x.significand % 2 = 0 then low ≤ point && point ≤ high else low < point && point < high

/-- The least power of ten above the number, for a number that is not zero. -/
def magnitude (x : Binary) : Int :=
  let guess := (x.significand.log2 + x.exponent) * 30103 / 100000
  ([guess, guess + 1, guess + 2].find? fun k => x.numerator k < x.denominator k).getD (guess + 2)

/-- The multiple of `10 ^ scale` next to the number that lies in its interval: the nearer one, at
a tie the even one. -/
def nearest? (x : Binary) (scale : Int) : Option Nat :=
  let lower := x.numerator scale / x.denominator scale
  let twice := 2 * x.numerator scale
  let middle := (2 * lower + 1) * x.denominator scale
  let choice :=
    if twice < middle then lower
    else if middle < twice then lower + 1
    else lower + lower % 2
  [choice, lower, lower + 1].find? (x.interval scale)

/-- The exact value of a number as a decimal. -/
def exact (x : Binary) : Decimal :=
  if 0 ≤ x.exponent then ⟨x.significand * Nat.pow 2 x.exponent.toNat, 0⟩
  else ⟨x.significand * Nat.pow 5 (-x.exponent).toNat, x.exponent⟩

end Binary

/-- A decimal without the zeros at its end. -/
def Decimal.strip (d : Decimal) : Decimal :=
  if h : d.digits ≠ 0 ∧ d.digits % 10 = 0 then Decimal.strip ⟨d.digits / 10, d.exponent + 1⟩ else d
termination_by d.digits
decreasing_by omega

/-- The decimal with the fewest digits that rounds to a number that is not zero. Seventeen digits
are enough for every double. -/
def Binary.shortest (x : Binary) : Decimal :=
  let k := x.magnitude
  match (List.range 17).findSome? fun (n : Nat) =>
      (x.nearest? (k - (n + 1))).map fun digits => Decimal.mk digits (k - (n + 1)) with
  | some d => d.strip
  | none => x.exact.strip

end MustacheMarkup
