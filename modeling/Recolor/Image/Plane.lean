import Recolor.Fault

/-!
# Planes and masks

A `Plane` holds one number for each pixel of an image, a `Mask` one truth value, both row by row.
Two of them combine position by position, and only if they have the same width and height.
-/

set_option autoImplicit false

namespace Recolor

/-- Numbers laid out in rows. -/
structure Plane where
  width : Nat
  height : Nat
  values : List Number

/-- Truth values laid out in rows. -/
structure Mask where
  width : Nat
  height : Nat
  bits : List Bool
deriving DecidableEq, Repr

/-- Two sizes must be equal. -/
def requireSameSize (left right : Nat × Nat) : Except Fault Unit :=
  if left = right then .ok () else .error (.shape (.operandSizes left right))

namespace Plane

/-- Width and height. -/
def size (p : Plane) : Nat × Nat := (p.width, p.height)

/-- The plane holds one number for each of its positions. -/
def WellFormed (p : Plane) : Prop := p.values.length = p.width * p.height

/-- The plane with one number everywhere. -/
def filled (width height : Nat) (x : Number) : Plane :=
  ⟨width, height, List.replicate (width * height) x⟩

/-- The number at a column and a row, if the plane has that position. -/
def get? (p : Plane) (x y : Nat) : Option Number := p.values[y * p.width + x]?

/-- The plane with `f` applied to every number. -/
def map (f : Number → Number) (p : Plane) : Plane := ⟨p.width, p.height, p.values.map f⟩

/-- Combines two planes of one size number by number. -/
def zipWith (f : Number → Number → Number) (p q : Plane) : Except Fault Plane := do
  requireSameSize p.size q.size
  return ⟨p.width, p.height, List.zipWith f p.values q.values⟩

/-- The mask of the positions whose number passes a test. -/
def test (f : Number → Bool) (p : Plane) : Mask := ⟨p.width, p.height, p.values.map f⟩

/-- The mask of the positions at which two planes of one size pass a test. -/
def testWith (f : Number → Number → Bool) (p q : Plane) : Except Fault Mask := do
  requireSameSize p.size q.size
  return ⟨p.width, p.height, List.zipWith f p.values q.values⟩

end Plane

namespace Mask

/-- Width and height. -/
def size (m : Mask) : Nat × Nat := (m.width, m.height)

/-- The mask holds one truth value for each of its positions. -/
def WellFormed (m : Mask) : Prop := m.bits.length = m.width * m.height

/-- The mask with one truth value everywhere. -/
def filled (width height : Nat) (b : Bool) : Mask :=
  ⟨width, height, List.replicate (width * height) b⟩

/-- The truth value at a column and a row, if the mask has that position. -/
def get? (m : Mask) (x y : Nat) : Option Bool := m.bits[y * m.width + x]?

/-- The number of selected positions. -/
def count (m : Mask) : Nat := m.bits.count true

/-- Some position is selected. -/
def any (m : Mask) : Bool := m.bits.any id

/-- The mask with `f` applied to every truth value. -/
def map (f : Bool → Bool) (m : Mask) : Mask := ⟨m.width, m.height, m.bits.map f⟩

/-- Combines two masks of one size position by position. -/
def zipWith (f : Bool → Bool → Bool) (m n : Mask) : Except Fault Mask := do
  requireSameSize m.size n.size
  return ⟨m.width, m.height, List.zipWith f m.bits n.bits⟩

/-- The positions that are not selected. -/
def complement (m : Mask) : Mask := m.map (!·)

/-- The positions selected by both. -/
def and (m n : Mask) : Except Fault Mask := m.zipWith (· && ·) n

/-- The positions selected by one or both. -/
def or (m n : Mask) : Except Fault Mask := m.zipWith (· || ·) n

/-- The positions selected by exactly one. -/
def xor (m n : Mask) : Except Fault Mask := m.zipWith (· ^^ ·) n

end Mask

end Recolor
