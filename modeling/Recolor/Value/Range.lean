import Recolor.Image.Plane

/-!
# Ranges

A `Range` of numbers, each of whose ends belongs to it unless it is marked strict.
-/

set_option autoImplicit false

namespace Recolor

/-- The numbers from `min` to `max`. -/
structure Range where
  min : Number
  max : Number
  strictMin : Bool := false
  strictMax : Bool := false

namespace Range

/-- The number lies in the range. -/
def contains (r : Range) (x : Number) : Bool :=
  (if r.strictMin then decide (r.min < x) else decide (r.min ≤ x))
    && (if r.strictMax then decide (x < r.max) else decide (x ≤ r.max))

/-- The positions of a plane whose number lies in the range. -/
def containsPlane (r : Range) (p : Plane) : Mask := p.test r.contains

/-- The two ends between brackets, a round one where the end is strict. -/
def text (r : Range) : String :=
  (if r.strictMin then "(" else "[") ++ r.min.text ++ ", " ++ r.max.text
    ++ (if r.strictMax then ")" else "]")

end Range

end Recolor
