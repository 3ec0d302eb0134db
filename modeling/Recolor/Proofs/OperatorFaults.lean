import Recolor.Evaluation
import Recolor.Proofs.Outcome

/-!
# The faults of operators

Operators, indices and slices fail for few reasons: the kinds or the sizes of the operands do not
fit together, or a number is no integer or out of range. All other faults are `Foreign` to them. One
lemma per operation says that it avoids these, so that any sort of faults that is foreign to
operators is seen to be avoided by all of them (`Avoids.mono`). The elements of a vector and the
bounds of a slice avoid what their expressions and the conversions of these avoid.
-/

set_option autoImplicit false

namespace Recolor

/-- A fault that no operation on values has. -/
@[simp] def Fault.Foreign : Fault → Prop
  | .shape (.vectorLengths _ _ _) | .shape (.comparedLengths _ _) | .shape (.operandSizes _ _)
  | .type (.operandKinds _ _ _) | .type (.notARange _) | .type (.membership _)
  | .type (.negation _) | .type (.inversion _) | .type (.saturation _)
  | .type (.integerOperand _ _) | .type (.numberNeeded _ _) | .type (.sliceBound _)
  | .type (.indexKind _) | .evaluation _ => False
  | _ => True

/-- The outcome is an answer, or one of the faults that operations on values have. -/
abbrev Ordinary {α : Type} (x : Except Fault α) : Prop := Avoids Fault.Foreign x

/-! ## Planes and masks -/

/-- Sizes that have to agree fail with a fault of operators if they do not. -/
theorem ordinary_requireSameSize (left right : Nat × Nat) :
    Ordinary (requireSameSize left right) := by
  unfold requireSameSize
  split <;> simp

/-- Combining planes fails for their sizes only. -/
theorem Plane.ordinary_zipWith (f : Number → Number → Number) (p q : Plane) :
    Ordinary (p.zipWith f q) :=
  (ordinary_requireSameSize _ _).bind fun _ _ => avoids_ok _

/-- Comparing planes position by position fails for their sizes only. -/
theorem Plane.ordinary_testWith (f : Number → Number → Bool) (p q : Plane) :
    Ordinary (p.testWith f q) :=
  (ordinary_requireSameSize _ _).bind fun _ _ => avoids_ok _

/-- Combining masks fails for their sizes only. -/
theorem Mask.ordinary_zipWith (f : Bool → Bool → Bool) (m n : Mask) : Ordinary (m.zipWith f n) :=
  (ordinary_requireSameSize _ _).bind fun _ _ => avoids_ok _

/-! ## Operators -/

/-- Taking a slice fails only for its step or for a bound that runs out of range. -/
theorem Slice.ordinary_apply (s : Slice) (items : List Number) : Ordinary (s.apply items) := by
  unfold apply
  extract_lets step length start stop
  split
  · exact avoids_ok _
  · split
    · exact avoids_ok _
    · simp

namespace Value

/-- Arithmetic fails for kinds, lengths and sizes of its operands only. -/
theorem ordinary_arithmetic (op : Arithmetic) (a b : Value) : Ordinary (arithmetic op a b) := by
  unfold arithmetic
  split
  case h_2 p q => exact (Plane.ordinary_zipWith _ p q).map
  -- two vectors are combined if they have one length
  case h_5 as bs =>
    split
    · split <;> simp
    · simp [mismatch]
  case h_6 => split <;> simp [mismatch]
  case h_7 => split <;> simp [mismatch]
  all_goals simp [mismatch]

/-- Comparisons fail for kinds, lengths and sizes of their operands only. -/
theorem ordinary_compare (op : Comparison) (a b : Value) : Ordinary (compare op a b) := by
  unfold compare
  split
  case h_2 p q => exact (Plane.ordinary_testWith _ p q).map
  case h_5 => split <;> simp [mismatch]
  case h_6 m n =>
    split
    · exact (Mask.ordinary_zipWith _ m n).map
    · simp [mismatch]
  -- two vectors are compared if they have one length
  case h_7 =>
    split
    · split <;> simp
    · simp [mismatch]
  all_goals simp [mismatch]

/-- A number is refused as an integer operand with a fault of operators. -/
theorem ordinary_integerOperand (sign : String) (x : Number) :
    Ordinary (integerOperand sign x) := by
  unfold integerOperand
  split <;> simp

/-- Connectives fail for kinds and sizes of their operands, or for numbers that are no integers. -/
theorem ordinary_connect (op : Connective) (a b : Value) : Ordinary (connect op a b) := by
  unfold connect
  split
  case h_1 m n => exact (Mask.ordinary_zipWith _ m n).map
  case h_5 x y =>
    refine (ordinary_integerOperand _ x).bind fun i _ => ?_
    exact (ordinary_integerOperand _ y).bind fun j _ => avoids_ok _
  all_goals simp [mismatch]

/-- Membership fails for operands that are no ranges, or that no range can contain. -/
theorem ordinary_within (a b : Value) : Ordinary (within a b) := by
  unfold within
  split
  · split <;> simp
  · simp

/-- An operator between two operands has faults of operators only. -/
theorem ordinary_binary (op : BinaryOp) (a b : Value) : Ordinary (binary op a b) := by
  cases op with
  | arithmetic op => exact ordinary_arithmetic op a b
  | comparison op => exact ordinary_compare op a b
  | connective op => exact ordinary_connect op a b
  | within => exact ordinary_within a b

/-- An operator in front of an operand has faults of operators only. -/
theorem ordinary_unary (op : UnaryOp) (a : Value) : Ordinary (unary op a) := by
  cases op with
  | negate => cases a <;> simp [unary, negate]
  | invert =>
    cases a with
    | number x => exact (ordinary_integerOperand _ x).bind fun i _ => avoids_ok _
    | _ => simp [unary, invert]

/-- Saturation fails for the kind of its operand only. -/
theorem ordinary_saturate (a : Value) : Ordinary (saturate a) := by
  cases a <;> simp [saturate]

/-- A number is refused as an index with a fault of operators. -/
theorem ordinary_indexOfNumber (x : Number) : Ordinary (indexOfNumber x) := by
  unfold indexOfNumber
  split <;> simp

/-- An index that is out of range is a fault of operators. -/
theorem ordinary_elementAt (items : List Number) (i : Int64) : Ordinary (elementAt items i) := by
  unfold elementAt
  extract_lets length place
  split <;> simp

/-- Selecting from a vector fails for the kind of the index, or for where it points. -/
theorem ordinary_select (items : List Number) (b : Value) : Ordinary (select items b) := by
  unfold select
  split
  · exact (Slice.ordinary_apply _ items).map
  · exact (ordinary_indexOfNumber _).bind fun i _ => ordinary_elementAt items i
  · simp

/-- A value that should be a number is refused with a fault of operators. -/
theorem ordinary_requireNumber (role : NumberRole) (a : Value) :
    Ordinary (a.requireNumber role) := by
  cases a <;> simp [requireNumber]

/-- A value that should bound a slice is refused with a fault of operators. -/
theorem ordinary_sliceBound (a : Value) : Ordinary a.sliceBound := by
  cases a with
  | number x => exact (ordinary_indexOfNumber x).map
  | _ => simp [sliceBound]

end Value

/-! ## Elements and bounds -/

namespace Expr

variable {bad : Fault → Prop} {env : Environment}

/-- The elements of a vector avoid the faults that their expressions avoid, and that asking for
numbers does. -/
theorem avoids_evaluateItems (hnumber : ∀ a, Avoids bad (Value.requireNumber .vectorElement a))
    {items : List Expr} (h : ∀ e ∈ items, Avoids bad (e.evaluate env)) :
    Avoids bad (evaluateItems env items) := by
  induction items with
  | nil => exact avoids_ok _
  | cons e rest ih =>
    unfold evaluateItems
    refine (h e List.mem_cons_self).bind fun a _ => (hnumber a).bind fun x _ => ?_
    exact (ih fun d hd => h d (List.mem_cons_of_mem e hd)).bind fun _ _ => avoids_ok _

/-- The bound of a slice avoids the faults that its expression avoids, and that asking for a bound
does. -/
theorem avoids_evaluateBound (hslice : ∀ a, Avoids bad (Value.sliceBound a)) {bound : Option Expr}
    (h : ∀ e ∈ bound, Avoids bad (e.evaluate env)) : Avoids bad (evaluateBound env bound) := by
  cases bound with
  | none => exact avoids_ok _
  | some e => exact (h e rfl).bind fun a _ => hslice a

end Expr

end Recolor
