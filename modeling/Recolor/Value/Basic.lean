import Recolor.Value.Range
import Recolor.Value.Slice

/-!
# Values

What expressions evaluate to. A band of an image is a plane of numbers, and a test of a band is a
mask of truth values.
-/

set_option autoImplicit false

namespace Recolor

/-- A value of the language. -/
inductive Value where
  | number (x : Number)
  | boolean (b : Bool)
  | none
  | mask (m : Mask)
  | band (p : Plane)
  | vector (items : List Number)
  | range (r : Range)
  | slice (s : Slice)

namespace Value

/-- The kind of a value. -/
def kind : Value → ValueKind
  | .number _ => .number
  | .boolean _ => .boolean
  | .none => .none
  | .mask _ => .mask
  | .band _ => .band
  | .vector _ => .vector
  | .range _ => .range
  | .slice _ => .slice

/-- The number that a value is. -/
def number? : Value → Option Number
  | .number x => some x
  | _ => Option.none

/-- The value is a vector. -/
def isVector : Value → Bool
  | .vector _ => true
  | _ => false

end Value

end Recolor
