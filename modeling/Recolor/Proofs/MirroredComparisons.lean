import Recolor.Proofs.Layout

/-!
# Comparisons from both sides

A comparison reads the same from right to left with the mirrored sign: `a < b` is `b > a`, and `==`
and `!=` are their own mirror images. Whatever kinds the operands have, both readings give one
value, or faults of one family (`Value.compare_mirror`). And `!=` is defined where `==` is, with the
opposite value (`Value.opposite_compare`). NaN is no exception: it is neither less than, nor equal
to, nor greater than any number from either side.
-/

set_option autoImplicit false

namespace Recolor

/-! ## Numbers -/

namespace Comparison

/-- The sign that stands between the operands when they are read from right to left. -/
def mirror : Comparison → Comparison
  | .lt => .gt
  | .le => .ge
  | .gt => .lt
  | .ge => .le
  | .eq => .eq
  | .ne => .ne

/-- Turning a comparison round leaves it a test for equality, or none. -/
@[simp] theorem isEquality_mirror (op : Comparison) : op.mirror.isEquality = op.isEquality := by
  cases op <;> rfl

/-- Tests for equality read the same from both sides. -/
@[simp] theorem ofEquality_mirror (op : Comparison) (equal : Bool) :
    op.mirror.ofEquality equal = op.ofEquality equal := by
  cases op <;> rfl

/-- The test for difference answers the opposite of the test for equality. -/
theorem ofEquality_ne (equal : Bool) : ofEquality .ne equal = !ofEquality .eq equal := by
  cases equal <;> rfl

end Comparison

/-- Numbers are the same in either order. -/
theorem Number.same_comm (a b : Number) : same a b = same b a := Bool.and_comm ..

/-- Lists of numbers are the same in either order. -/
theorem Number.sameList_comm (as bs : List Number) : sameList as bs = sameList bs as := by
  induction as generalizing bs with
  | nil => cases bs <;> rfl
  | cons a as ih =>
    cases bs with
    | nil => rfl
    | cons b bs => rw [sameList, sameList, same_comm, ih]

/-- A comparison of numbers reads from right to left as its mirror image does from left to right. -/
theorem Comparison.apply_mirror (op : Comparison) (a b : Number) :
    op.mirror.apply b a = op.apply a b := by
  cases op with
  | eq => exact Number.same_comm b a
  | ne => exact congrArg (!·) (Number.same_comm b a)
  | _ => rfl

/-! ## Outcomes -/

/-- Both outcomes are one and the same answer, or both are faults of one family. -/
inductive Alike {α : Type} : Except Fault α → Except Fault α → Prop where
  | ok (a : α) : Alike (.ok a) (.ok a)
  | error {e f : Fault} (h : e.code = f.code) : Alike (.error e) (.error f)

section Alike

variable {α β : Type} {x y : Except Fault α}

/-- Outcomes are alike one after another. -/
theorem Alike.bind {f g : α → Except Fault β} (h : Alike x y)
    (hnext : ∀ a, x = .ok a → Alike (f a) (g a)) : Alike (x >>= f) (y >>= g) := by
  cases h with
  | ok a => exact hnext a rfl
  | error h => exact .error h

/-- Outcomes stay alike when a function is applied to their answers. -/
theorem Alike.map (h : Alike x y) (f : α → β) : Alike (x.map f) (y.map f) := by
  cases h with
  | ok a => exact .ok (f a)
  | error h => exact .error h

end Alike

/-- Two sizes are the same from both sides. -/
theorem alike_requireSameSize (left right : Nat × Nat) :
    Alike (requireSameSize left right) (requireSameSize right left) := by
  unfold requireSameSize
  by_cases h : left = right
  · rw [if_pos h, if_pos h.symm]
    exact .ok ()
  · rw [if_neg h, if_neg (Ne.symm h)]
    exact .error rfl

/-- Planes are tested alike in both orders by tests that are mirror images of each other. -/
theorem Plane.testWith_mirror {f g : Number → Number → Bool} (h : ∀ a b, g b a = f a b)
    (p q : Plane) : Alike (p.testWith f q) (q.testWith g p) := by
  refine (alike_requireSameSize p.size q.size).bind fun _ hsize => ?_
  obtain ⟨hwidth, hheight⟩ := Prod.mk.inj (requireSameSize_eq_ok.1 hsize)
  have hbits : List.zipWith g q.values p.values = List.zipWith f p.values q.values := by
    rw [List.zipWith_comm]
    simp only [h]
  rw [hbits, hwidth, hheight]
  exact .ok _

/-- Masks combine alike in both orders if the function takes its arguments in both orders. -/
theorem Mask.zipWith_mirror {f : Bool → Bool → Bool} (h : ∀ a b, f b a = f a b) (m n : Mask) :
    Alike (m.zipWith f n) (n.zipWith f m) := by
  refine (alike_requireSameSize m.size n.size).bind fun _ hsize => ?_
  obtain ⟨hwidth, hheight⟩ := Prod.mk.inj (requireSameSize_eq_ok.1 hsize)
  have hbits : List.zipWith f n.bits m.bits = List.zipWith f m.bits n.bits := by
    rw [List.zipWith_comm]
    simp only [h]
  rw [hbits, hwidth, hheight]
  exact .ok _

/-! ## Values -/

namespace Value

/-- A comparison and its mirror image give one value, or faults of one family. -/
theorem compare_mirror (op : Comparison) (a b : Value) :
    Alike (compare op a b) (compare op.mirror b a) := by
  cases a <;> cases b
  case number.number a b =>
    simp only [compare, Comparison.apply_mirror]
    exact .ok _
  case number.band a q =>
    simp only [compare, Comparison.apply_mirror]
    exact .ok _
  case band.number p b =>
    have happly : op.mirror.apply b = (op.apply · b) := funext fun a => op.apply_mirror a b
    simp only [compare, happly]
    exact .ok _
  case band.band p q => exact (Plane.testWith_mirror op.apply_mirror p q).map Value.mask
  case boolean.boolean a b =>
    simp only [compare, Comparison.isEquality_mirror, Comparison.ofEquality_mirror,
      Bool.beq_comm (a := b)]
    split
    · exact .ok _
    · exact .error rfl
  case mask.mask m n =>
    simp only [compare, Comparison.isEquality_mirror, Comparison.ofEquality_mirror]
    split
    · have hcomm : ∀ a b : Bool, op.ofEquality (b == a) = op.ofEquality (a == b) := fun a b =>
        congrArg op.ofEquality Bool.beq_comm
      exact (Mask.zipWith_mirror hcomm m n).map Value.mask
    · exact .error rfl
  case vector.vector as bs =>
    simp only [compare, Comparison.isEquality_mirror, Comparison.ofEquality_mirror,
      Number.sameList_comm bs, eq_comm (a := bs.length)]
    split
    · split
      · exact .ok _
      · exact .error rfl
    · exact .error rfl
  -- operands of any other kinds are not compared, in either order
  all_goals exact .error rfl

/-- The first comparison gives a value and the second what inverting makes of it, or both give
faults. -/
inductive Opposite : Except Fault Value → Except Fault Value → Prop where
  | ok {v w : Value} (h : invert v = .ok w) : Opposite (.ok v) (.ok w)
  | error (e f : Fault) : Opposite (.error e) (.error f)

/-- Inverting the mask of a test gives the mask of its negation. -/
theorem invert_test (f : Number → Bool) (p : Plane) :
    invert (.mask (p.test f)) = .ok (.mask (p.test fun x => !f x)) := by
  simp [invert, Mask.complement, Mask.map, Plane.test, Function.comp_def]

/-- Opposite tests of two planes answer opposite masks, or fail alike. -/
theorem opposite_testWith (f : Number → Number → Bool) (p q : Plane) :
    Opposite ((p.testWith f q).map .mask) ((p.testWith (fun a b => !f a b) q).map .mask) := by
  unfold Plane.testWith
  cases requireSameSize p.size q.size with
  | error fault => exact .error _ _
  | ok u =>
    refine .ok ?_
    simp [invert, Mask.complement, Mask.map, List.map_zipWith]

/-- Opposite combinations of two masks answer opposite masks, or fail alike. -/
theorem opposite_zipWith (f : Bool → Bool → Bool) (m n : Mask) :
    Opposite ((m.zipWith f n).map .mask) ((m.zipWith (fun a b => !f a b) n).map .mask) := by
  unfold Mask.zipWith
  cases requireSameSize m.size n.size with
  | error fault => exact .error _ _
  | ok u =>
    refine .ok ?_
    simp [invert, Mask.complement, Mask.map, List.map_zipWith]

/-- Where two values can be tested for equality they can be tested for the opposite. -/
theorem opposite_compare (a b : Value) : Opposite (compare .eq a b) (compare .ne a b) := by
  cases a <;> cases b
  case number.number a b => exact .ok rfl
  case number.band a q => exact .ok (invert_test _ q)
  case band.number p b => exact .ok (invert_test _ p)
  case band.band p q => exact opposite_testWith _ p q
  case boolean.boolean a b =>
    refine .ok ?_
    rw [Comparison.ofEquality_ne]
    rfl
  case mask.mask m n =>
    simp only [compare, Comparison.isEquality, if_true, Comparison.ofEquality_ne]
    exact opposite_zipWith _ m n
  case vector.vector as bs =>
    simp only [compare, Comparison.isEquality, if_true, Comparison.ofEquality_ne]
    split
    · exact .ok rfl
    · exact .error _ _
  all_goals exact .error _ _

/-- Comparisons are consistent with one another. Read from the other side with the mirrored sign, a
comparison gives the same value, or a fault of the same family; so do `==` and `!=`, which are their
own mirror images. `!=` gives a value exactly where `==` does, and then the inverted one. -/
theorem compare_consistent (a b : Value) :
    (∀ op : Comparison, Alike (compare op a b) (compare op.mirror b a)) ∧
      ((∃ v, compare .ne a b = .ok v) ↔ ∃ v, compare .eq a b = .ok v) ∧
      ∀ v, compare .eq a b = .ok v → compare .ne a b = invert v := by
  refine ⟨fun op => compare_mirror op a b, ?_⟩
  have hopposite := opposite_compare a b
  generalize compare .eq a b = equal at hopposite ⊢
  generalize compare .ne a b = different at hopposite ⊢
  cases hopposite with
  | @ok v w h =>
    refine ⟨⟨fun _ => ⟨v, rfl⟩, fun _ => ⟨w, rfl⟩⟩, ?_⟩
    rintro _ ⟨⟩
    exact h.symm
  | error e f =>
    refine ⟨⟨?_, ?_⟩, ?_⟩
    · rintro ⟨v, ⟨⟩⟩
    · rintro ⟨v, ⟨⟩⟩
    · rintro v ⟨⟩

end Value

end Recolor
