/-!
The shortest decimal that reads back as a given double. A finite double is `m · 2 ^ q`, and the
reals that round to it form an interval around it. Of the decimals with one digit, two digits and
so on the first that falls into the interval is taken, of two such the nearer one, and of two that
are equally near the even one.
-/

namespace Refactor

/-- A decimal `digits · 10 ^ exponent`. -/
structure Decimal where
  digits : Nat
  exponent : Int

namespace Decimal

/-- The mantissa and the exponent of two of the absolute value of a finite double. -/
def mantissaExponent (bits : UInt64) : Nat × Int :=
  let fraction : Nat := bits.toNat % 0x10000000000000
  let biased : Nat := bits.toNat / 0x10000000000000 % 0x800
  if biased = 0 then (fraction, -1074) else (fraction + 0x10000000000000, (biased : Int) - 1075)

/-- Everything the search compares, in quarters of the last binary place. -/
structure Interval where
  low : Nat
  value : Nat
  high : Nat
  /-- The power of two that the three are multiples of. -/
  scale : Int
  closed : Bool

/-- The interval of the reals that round to `m · 2 ^ q`. Below a power of two the doubles stand
twice as close. -/
def interval (m : Nat) (q : Int) : Interval where
  low := if m = 0x10000000000000 ∧ q ≠ -1074 then 4 * m - 1 else 4 * m - 2
  value := 4 * m
  high := 4 * m + 2
  scale := q - 2
  closed := m % 2 = 0

/-- `x · 2 ^ scale / 10 ^ place` as a numerator and a denominator. -/
def ratio (x : Nat) (scale place : Int) : Nat × Nat :=
  (x * Nat.pow 2 scale.toNat * Nat.pow 10 (-place).toNat,
    Nat.pow 2 (-scale).toNat * Nat.pow 10 place.toNat)

/-- Of the two numbers next to `num / den`, the nearer one, and the even one if they are equally
near. -/
def nearest (num den : Nat) : Nat :=
  let below := num / den
  let rest := num % den
  if 2 * rest < den ∨ 2 * rest = den ∧ below % 2 = 0 then below else below + 1

/-- The multiple of `10 ^ place` nearest to the value, if the interval has one. -/
def gridPoint (i : Interval) (place : Int) : Option Nat :=
  let den := (ratio i.value i.scale place).2
  let num := (ratio i.value i.scale place).1
  let low := (ratio i.low i.scale place).1
  let high := (ratio i.high i.scale place).1
  let inside (d : Nat) : Bool :=
    if i.closed then low ≤ d * den && d * den ≤ high else low < d * den && d * den < high
  let below := num / den
  match inside below, inside (below + 1) with
  | true, true => some (nearest num den)
  | true, false => some below
  | false, true => some (below + 1)
  | false, false => none

/-- The place of the leading digit. Every positive double is above `10 ^ -400`. -/
def leadingPlace (i : Interval) : Int :=
  let (num, den) := ratio i.value i.scale (-400)
  ((Nat.toDigits 10 (num / den)).length : Int) - 401

/-- Tries the places `top`, `top - 1`, … in turn. -/
def search (i : Interval) : Nat → Int → Decimal
  | 0, place => ⟨(gridPoint i place).getD 0, place⟩
  | tries + 1, place =>
    match gridPoint i place with
    | some d => ⟨d, place⟩
    | none => search i tries (place - 1)

/-- Drops the zeros at the end, at most `count` of them. -/
def strip : Nat → Decimal → Decimal
  | 0, d => d
  | count + 1, d =>
    if d.digits ≠ 0 ∧ d.digits % 10 = 0 then strip count ⟨d.digits / 10, d.exponent + 1⟩ else d

/-- The shortest decimal of the absolute value of a finite double. -/
def shortest (bits : UInt64) : Decimal :=
  let (m, q) := mantissaExponent bits
  if m = 0 then ⟨0, 0⟩
  else
    let i := interval m q
    (search i 17 (leadingPlace i)).strip 18

/-- The sign bit is set. -/
def isNegative (bits : UInt64) : Bool := bits.toNat ≥ 0x8000000000000000

/-- The power of ten, always with a sign. -/
def powerChars (power : Int) : List Char :=
  'e' :: (if 0 ≤ power then ['+'] else ['-']) ++ Nat.toDigits 10 power.natAbs

/-- Positional notation from `10 ^ -5` up to below `10 ^ 16`, always with a point in it, and a power
of ten beyond. -/
def chars (d : Decimal) : List Char :=
  let digits := Nat.toDigits 10 d.digits
  let whole : Int := digits.length + d.exponent
  if 0 ≤ d.exponent ∧ whole ≤ 16 then
    digits ++ List.replicate d.exponent.toNat '0' ++ ['.', '0']
  else if 0 < whole ∧ whole ≤ 16 then digits.take whole.toNat ++ '.' :: digits.drop whole.toNat
  else if -5 < whole ∧ whole ≤ 0 then ['0', '.'] ++ List.replicate (-whole).toNat '0' ++ digits
  else
    let point := if digits.length = 1 then [] else ['.']
    digits.take 1 ++ point ++ digits.drop 1 ++ powerChars (whole - 1)

/-- The text of a finite double. -/
def text (bits : UInt64) : String :=
  (if isNegative bits then "-" else "") ++ String.ofList (shortest bits).chars

end Decimal

end Refactor
