import Recolor.Expr.Check
import Recolor.Proofs.StaticShape

/-!
# Refused nodes have no values

The checks of shapes refuse no expression that could be evaluated. The table of the checks
(`checkOperands`) and the operators on values are written apart from each other; they are compared
here in two steps. If an operator takes two values, the table allows it on shapes that tell all
about them (`Value.checkOperands_of_binary`), and a shape that tells less about a vector is allowed
wherever one that tells more is (`checkOperands_of_admits`). The shapes of expressions being right,
a node that is refused is one that cannot be evaluated (`Expr.evaluate_of_refused`).
-/

set_option autoImplicit false

namespace Recolor

/-- The shape that tells all about a value of a length. -/
def Shape.ofLength : Option Nat → Shape
  | none => .plain
  | some n => .vector (some n)

/-! ## The operators keep to the table -/

namespace Value

variable {a b v : Value}

/-- If two values can be calculated with, the check of their shapes passes. -/
theorem checkOperands_of_arithmetic {op : Arithmetic} (h : arithmetic op a b = .ok v) :
    checkOperands (.arithmetic op) (.ofLength a.vectorLength?) (.ofLength b.vectorLength?) =
      .ok () := by
  unfold arithmetic at h
  split at h
  · rfl
  · rfl
  · rfl
  · rfl
  next xs ys =>
    split at h
    next hadditive =>
      split at h
      next hlength =>
        -- sums of vectors are the one row of the table that looks at lengths
        show checkOperands (.arithmetic op) (.vector (some xs.length))
          (.vector (some ys.length)) = _
        rw [hlength]
        cases op with
        | add => exact if_pos rfl
        | sub => exact if_pos rfl
        | _ => cases hadditive
      next => cases h
    next => cases h
  next xs y =>
    split at h
    next => cases h
    next hadditive =>
      cases op with
      | add => exact absurd rfl hadditive
      | sub => exact absurd rfl hadditive
      | _ => rfl
  next x ys =>
    split at h
    next hmul =>
      rw [hmul]
      rfl
    next => cases h
  next => cases h

/-- If two values can be compared, the check of their shapes passes. -/
theorem checkOperands_of_compare {op : Comparison} (h : compare op a b = .ok v) :
    checkOperands (.comparison op) (.ofLength a.vectorLength?) (.ofLength b.vectorLength?) =
      .ok () := by
  unfold compare at h
  split at h
  · rfl
  · rfl
  · rfl
  · rfl
  · rfl
  · rfl
  next xs ys =>
    split at h
    next hequality =>
      cases op with
      | eq => rfl
      | ne => rfl
      | _ => cases hequality
    next => cases h
  next => cases h

/-- If two values can be connected, the check of their shapes passes. -/
theorem checkOperands_of_connect {op : Connective} (h : connect op a b = .ok v) :
    checkOperands (.connective op) (.ofLength a.vectorLength?) (.ofLength b.vectorLength?) =
      .ok () := by
  unfold connect at h
  split at h
  · rfl
  · rfl
  · rfl
  · rfl
  · rfl
  next => cases h

/-- If a value can be looked for in another, the check of their shapes passes. -/
theorem checkOperands_of_within (h : within a b = .ok v) :
    checkOperands .within (.ofLength a.vectorLength?) (.ofLength b.vectorLength?) = .ok () := by
  unfold within at h
  split at h
  · split at h
    · rfl
    · rfl
    · cases h
  · cases h

/-- An operator that takes two values is allowed on shapes that tell all about them. -/
theorem checkOperands_of_binary {op : BinaryOp} (h : binary op a b = .ok v) :
    checkOperands op (.ofLength a.vectorLength?) (.ofLength b.vectorLength?) = .ok () := by
  cases op with
  | arithmetic op => exact checkOperands_of_arithmetic h
  | comparison op => exact checkOperands_of_compare h
  | connective op => exact checkOperands_of_connect h
  | within => exact checkOperands_of_within h

end Value

/-! ## Less is known, more is allowed -/

section Admits

variable {op : BinaryOp} {s t : Shape}

/-- Operands that pass the check still do when the length of the left one is not known. -/
theorem checkOperands_forget_left {n : Nat} (h : checkOperands op (.vector (some n)) t = .ok ()) :
    checkOperands op (.vector none) t = .ok () := by
  cases t with
  | plain => exact h
  | vector m =>
    simp only [checkOperands] at h ⊢
    split at h <;> simp_all

/-- Operands that pass the check still do when the length of the right one is not known. -/
theorem checkOperands_forget_right {n : Nat} (h : checkOperands op s (.vector (some n)) = .ok ()) :
    checkOperands op s (.vector none) = .ok () := by
  cases s with
  | plain => exact h
  | vector m =>
    simp only [checkOperands] at h ⊢
    split at h <;> simp_all

/-- A shape that admits a length tells all about it, or it only tells that there is one. -/
theorem Shape.eq_of_admits {length : Option Nat} (h : s.Admits length) :
    s = .ofLength length ∨ s = .vector none ∧ ∃ n, length = some n := by
  cases s with
  | plain =>
    have hnone : length = none := h
    rw [hnone]
    exact .inl rfl
  | vector known =>
    cases known with
    | none => exact .inr ⟨rfl, Option.isSome_iff_exists.1 h⟩
    | some n =>
      have hsome : length = some n := h
      rw [hsome]
      exact .inl rfl

/-- What is allowed on shapes that tell all about two lengths is allowed on all shapes that admit
them. -/
theorem checkOperands_of_admits {left right : Option Nat} (hs : s.Admits left)
    (ht : t.Admits right) (h : checkOperands op (.ofLength left) (.ofLength right) = .ok ()) :
    checkOperands op s t = .ok () := by
  have hleft : checkOperands op s (.ofLength right) = .ok () := by
    rcases Shape.eq_of_admits hs with rfl | ⟨rfl, n, rfl⟩
    · exact h
    · exact checkOperands_forget_left h
  rcases Shape.eq_of_admits ht with rfl | ⟨rfl, n, rfl⟩
  · exact hleft
  · exact checkOperands_forget_right hleft

end Admits

/-! ## Expressions -/

namespace Expr

variable {env : Environment} {lengths : Lengths} {v : Value}

/-- A node of an operator that can be evaluated is not refused. -/
theorem binary?_of_evaluate (henv : env.Agrees lengths) {op : BinaryOp} {left right : Expr}
    (h : evaluate env (.binary op left right) = .ok v) :
    binary? lengths op left right = .ok (.binary op left right) := by
  obtain ⟨a, ha, b, hb, hv⟩ := evaluate_binary_eq_ok.1 h
  have hcheck := checkOperands_of_admits (admits_of_evaluate henv ha) (admits_of_evaluate henv hb)
    (Value.checkOperands_of_binary hv)
  rw [binary?, hcheck]
  rfl

/-- A node of an index that can be evaluated is not refused. -/
theorem index?_of_evaluate (henv : env.Agrees lengths) {vector position : Expr}
    (h : evaluate env (.index vector position) = .ok v) :
    index? lengths vector position = .ok (.index vector position) := by
  obtain ⟨items, hitems, -⟩ := evaluate_index_eq_ok.1 h
  have hadmits := admits_of_evaluate henv hitems
  rw [index?, if_pos]
  cases hs : vector.shape lengths with
  | plain =>
    rw [hs] at hadmits
    cases hadmits
  | vector n => rfl

/-- The checks of shapes refuse only what has no value: a node of an operator or of an index that is
not built cannot be evaluated wherever no variable `$name` is a vector or a slice, and the vectors
of which a length is known have that length. -/
theorem evaluate_of_refused (op : BinaryOp) (left right : Expr) (henv : env.Agrees lengths) :
    (∀ fault, binary? lengths op left right = .error fault →
      ∃ cause, evaluate env (.binary op left right) = .error cause) ∧
    ∀ fault, index? lengths left right = .error fault →
      ∃ cause, evaluate env (.index left right) = .error cause := by
  constructor
  · intro fault hrefused
    cases h : evaluate env (.binary op left right) with
    | error cause => exact ⟨cause, rfl⟩
    | ok v =>
      rw [binary?_of_evaluate henv h] at hrefused
      cases hrefused
  · intro fault hrefused
    cases h : evaluate env (.index left right) with
    | error cause => exact ⟨cause, rfl⟩
    | ok v =>
      rw [index?_of_evaluate henv h] at hrefused
      cases hrefused

/-- Three numbers are not added to a vector `$$v` of two, and a number is not indexed. -/
theorem evaluate_of_refused_lengths :
    (Environment.empty.bindVector "v" [3, 4]).Agrees [("v", 2)] ∧
      (∃ cause, evaluate (Environment.empty.bindVector "v" [3, 4])
        (.binary (.arithmetic .add) (.variable (.vector "v"))
          (.vector [.number 1, .number 2, .number 3])) = .error cause) ∧
      ∃ cause, evaluate (Environment.empty.bindVector "v" [3, 4])
        (.index (.number 1) (.number 0)) = .error cause := by
  have henv : (Environment.empty.bindVector "v" [3, 4]).Agrees [("v", 2)] := by
    apply Environment.agrees_empty.bindVector
    · intro n hn
      exact Option.some.inj hn
    · intro other hother
      exact if_neg (Ne.symm hother)
  have hadd := evaluate_of_refused (.arithmetic .add) (.variable (.vector "v"))
    (.vector [.number 1, .number 2, .number 3]) henv
  have hindex := evaluate_of_refused (.arithmetic .add) (.number 1) (.number 0) henv
  exact ⟨henv, hadd.1 _ rfl, hindex.2 _ rfl⟩

end Expr

end Recolor
