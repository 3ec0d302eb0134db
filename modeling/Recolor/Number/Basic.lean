/-!
# Numbers

All quantities of the library are 32-bit binary floating-point numbers. The arithmetic operators
are those of `Float32`. What needs the value behind the bits (the integer part, the test for an
integer, the passage to and from 64-bit integers) goes through `Dyadic`, the exact value
`± mantissa * 2 ^ exponent`, and is computed on integers.
-/

set_option autoImplicit false

namespace Recolor

/-- A 32-bit floating-point number. -/
abbrev Number := Float32

/-- The power of a base, or one if the exponent is negative. A quantity `a * base ^ i` is thus the
quotient of `a * scale base i` and `scale base (-i)`. -/
def scale (base : Nat) (exponent : Int) : Nat := Nat.pow base exponent.toNat

/-- The exact value of a finite number: `mantissa * 2 ^ exponent`, negated if `negative`. -/
structure Dyadic where
  negative : Bool
  mantissa : Nat
  exponent : Int
deriving DecidableEq, Repr

namespace Dyadic

/-- The integer part of the magnitude. -/
def magnitude (d : Dyadic) : Nat :=
  d.mantissa * scale 2 d.exponent / scale 2 (-d.exponent)

/-- The value has no fractional part. -/
def isInteger (d : Dyadic) : Bool := d.mantissa % scale 2 (-d.exponent) == 0

/-- The value with its fractional part dropped. -/
def truncate (d : Dyadic) : Int :=
  if d.negative then -(d.magnitude : Int) else d.magnitude

/-- The greatest integer that is not above the value. -/
def floor (d : Dyadic) : Int :=
  if d.negative && !d.isInteger then d.truncate - 1 else d.truncate

/-- The integer nearest to the magnitude, a half going up. -/
def nearest (d : Dyadic) : Nat :=
  (2 * d.mantissa * scale 2 d.exponent + scale 2 (-d.exponent)) / (2 * scale 2 (-d.exponent))

end Dyadic

namespace Number

/-- The exact value of a number; NaN and the infinities have none. -/
def dyadic? (x : Number) : Option Dyadic :=
  let bits : Nat := x.toBits.toNat
  let negative := decide (0x80000000 ≤ bits)
  let biased : Nat := bits / 0x800000 % 0x100
  let fraction : Nat := bits % 0x800000
  if biased = 255 then none
  else if biased = 0 then some ⟨negative, fraction, -149⟩
  else some ⟨negative, 0x800000 + fraction, (biased : Int) - 150⟩

/-- Two numbers are equal if each is at most the other: NaN equals nothing, and the two zeros
are equal. -/
def same (a b : Number) : Bool := decide (a ≤ b) && decide (b ≤ a)

/-- Two lists of numbers are equal if they have one length and equal numbers at each place. -/
def sameList : List Number → List Number → Bool
  | [], [] => true
  | a :: as, b :: bs => same a b && sameList as bs
  | _, _ => false

/-- The number is finite and has no fractional part. -/
def isInteger (x : Number) : Bool :=
  match x.dyadic? with
  | some d => d.isInteger
  | none => false

/-- The greatest integral number that is not above `x`. A zero keeps its sign, and so do NaN and
the infinities. -/
def floor (x : Number) : Number :=
  match x.dyadic? with
  | none => x
  | some d => if d.isInteger then x else Float32.ofInt d.floor

/-- Remainder of the floored division, which takes the sign of the divisor. -/
def modulo (a b : Number) : Number := a - b * floor (a / b)

/-- An integer brought into the range of 64-bit integers, values outside it going to its ends. -/
def saturate64 (i : Int) : Int64 :=
  if i < Int64.minValue.toInt then Int64.minValue
  else if Int64.maxValue.toInt < i then Int64.maxValue
  else Int64.ofInt i

/-- The number with its fractional part dropped, as a 64-bit integer. Values outside the range go
to its ends, and NaN goes to zero. -/
def toInt64 (x : Number) : Int64 :=
  match x.dyadic? with
  | some d => saturate64 d.truncate
  | none => if (0 : Number) < x then Int64.maxValue else if x < 0 then Int64.minValue else 0

/-- The number nearest to a 64-bit integer, ties to even. -/
def ofInt64 (i : Int64) : Number := Float32.ofInt i.toInt

/-- The number brought into `[low, high]`; NaN stays NaN. -/
def clamp (low high x : Number) : Number :=
  if x < low then low else if high < x then high else x

/-- The number brought into `[0, 1]`. -/
def clampUnit (x : Number) : Number := clamp 0 1 x

/-- The number, but at least `low`; NaN goes to `low`. -/
def atLeast (low x : Number) : Number := if low ≤ x then x else low

/-- The level from 0 to 255 nearest to a number of `[0, 1]`; what lies outside goes to the ends,
and NaN goes to 0. -/
def toByte (x : Number) : Nat :=
  match dyadic? (clampUnit x * 255) with
  | some d => if d.negative then 0 else d.nearest
  | none => 0

end Number

end Recolor
