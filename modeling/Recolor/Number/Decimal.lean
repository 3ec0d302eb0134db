import Recolor.Number.Basic

/-!
# Decimal text of numbers

`ofDecimal` reads a decimal to the nearest number. `Number.text` writes a number with the fewest
digits that read back to it, always positionally: `0.1`, `1`, `-0`, `100000000000000000000`.

The digits are chosen by exact integer arithmetic. The reals that round to a number form an
interval (`RoundingInterval`); of the powers of ten the greatest is taken that has a multiple in
it, and of two multiples the one closer to the number, a tie going up.
-/

set_option autoImplicit false

namespace Recolor

/-- The decimal `digits * 10 ^ exponent`. -/
structure Decimal where
  digits : Nat
  exponent : Int
deriving DecidableEq, Repr

/-- Compares `a * 10 ^ i` with `b * 2 ^ j`. -/
def compareScaled (a : Nat) (i : Int) (b : Nat) (j : Int) : Ordering :=
  compare (a * scale 10 i * scale 2 (-j)) (b * scale 2 j * scale 10 (-i))

/-- The reals from `low * 2 ^ exponent` to `high * 2 ^ exponent` around `middle * 2 ^ exponent`;
the two ends belong to it if `closed`. -/
structure RoundingInterval where
  low : Nat
  middle : Nat
  high : Nat
  exponent : Int
  closed : Bool
deriving DecidableEq, Repr

namespace RoundingInterval

/-- The magnitudes that round to that of a finite number. Its ends lie halfway to the two
neighbours, and the gap below a power of two is half as wide as the gap above it. -/
def ofNumber (d : Dyadic) : RoundingInterval :=
  let narrow := d.mantissa == 0x800000 && d.exponent != -149
  { low := 4 * d.mantissa - (if narrow then 1 else 2)
    middle := 4 * d.mantissa
    high := 4 * d.mantissa + 2
    exponent := d.exponent - 2
    closed := d.mantissa % 2 == 0 }

/-- The decimal lies in the interval. -/
def contains (r : RoundingInterval) (d : Decimal) : Bool :=
  let below := compareScaled d.digits d.exponent r.low r.exponent
  let above := compareScaled d.digits d.exponent r.high r.exponent
  (below == .gt || (r.closed && below == .eq)) && (above == .lt || (r.closed && above == .eq))

/-- The greatest multiple of `10 ^ e` that is not above the middle, as a count of `10 ^ e`. -/
def multipleBelow (r : RoundingInterval) (e : Int) : Nat :=
  r.middle * scale 2 r.exponent * scale 10 (-e) / (scale 2 (-r.exponent) * scale 10 e)

/-- The multiple of `10 ^ e` in the interval that is nearest to the middle, if there is one; of
two equally near the greater. -/
def nearestMultiple? (r : RoundingInterval) (e : Int) : Option Decimal :=
  let down : Decimal := ⟨r.multipleBelow e, e⟩
  let up : Decimal := ⟨r.multipleBelow e + 1, e⟩
  match r.contains down, r.contains up with
  | true, true =>
    if compareScaled (down.digits + up.digits) e (2 * r.middle) r.exponent == .gt then some down
    else some up
  | true, false => some down
  | false, true => some up
  | false, false => none

/-- The middle itself as a decimal. -/
def exact (r : RoundingInterval) : Decimal :=
  if 0 ≤ r.exponent then ⟨r.middle * scale 2 r.exponent, 0⟩
  else ⟨r.middle * scale 5 (-r.exponent), r.exponent⟩

/-- The decimal of the interval with the fewest digits. The powers of ten tried run from above the
greatest number down to below the least gap between two numbers. -/
def shortest (r : RoundingInterval) : Decimal :=
  ((List.range 85).findSome? fun (i : Nat) => r.nearestMultiple? (39 - (i : Int))).getD r.exact

end RoundingInterval

namespace Decimal

/-- The same decimal with trailing zeros after the point dropped, at most `fuel` of them. -/
def trim : Nat → Decimal → Decimal
  | 0, d => d
  | fuel + 1, d =>
    if d.exponent < 0 && d.digits % 10 == 0 then trim fuel ⟨d.digits / 10, d.exponent + 1⟩ else d

/-- The decimal digits of a natural number. -/
def digitChars (n : Nat) : List Char := Nat.toDigits 10 n

/-- Positional notation, without a point if nothing stands behind it. -/
def text (d : Decimal) : List Char :=
  let d := trim (-d.exponent).toNat d
  let digits := digitChars d.digits
  if 0 ≤ d.exponent then digits ++ List.replicate d.exponent.toNat '0'
  else
    let places := (-d.exponent).toNat
    let padded := List.replicate (places + 1 - digits.length) '0' ++ digits
    padded.take (padded.length - places) ++ '.' :: padded.drop (padded.length - places)

end Decimal

namespace Number

/-- The number nearest to `digits / 10 ^ places`, ties to even. -/
def ofDecimal (digits places : Nat) : Number := Float32.ofScientific digits true places

/-- The text of the magnitude of a finite number. -/
def magnitudeText (d : Dyadic) : List Char :=
  if d.mantissa = 0 then ['0'] else (RoundingInterval.ofNumber d).shortest.text

/-- The fewest digits that read back to the number, written positionally. -/
def text (x : Number) : String :=
  match x.dyadic? with
  | some d => String.ofList ((if d.negative then ['-'] else []) ++ magnitudeText d)
  | none => if x < 0 then "-inf" else if (0 : Number) < x then "inf" else "NaN"

end Number

end Recolor
