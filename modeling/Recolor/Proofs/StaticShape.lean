import Recolor.Proofs.Evaluation

/-!
# Shapes are those of the values

`Expr.shape` says without evaluating an expression whether its value is a vector, and of what
length. Here it is shown right: an expression of plain shape has no vector as its value, and one of
vector shape has a vector of the length foretold (`vectorLength?_of_shape` carries the induction).

Every operator is described by what it does to `Value.vectorLength?`, the length of a value that is
a vector. None of them makes a slice, which is why only the position in `vector[position]` has to be
looked at to tell a slice of a vector from one of its items.
-/

set_option autoImplicit false

namespace Recolor

namespace Value

/-- The length of a vector; other values have none. -/
def vectorLength? : Value → Option Nat
  | .vector items => some items.length
  | _ => Option.none

/-- The value is a slice. -/
def isSlice : Value → Bool
  | .slice _ => true
  | _ => false

/-- A value is a vector if it has a length. -/
theorem isVector_eq (v : Value) : v.isVector = v.vectorLength?.isSome := by
  cases v <;> rfl

/-- A value of some length is a vector of that length. -/
theorem vectorLength?_eq_some {v : Value} {n : Nat} :
    v.vectorLength? = some n ↔ ∃ items, v = .vector items ∧ items.length = n := by
  cases v <;> simp [vectorLength?]

/-! ## What operators make of vectors -/

variable {a b v : Value}

/-- The value of an arithmetic operator is a vector if one of its operands is, and then of the
length of the first that is. -/
theorem vectorLength?_arithmetic {op : Arithmetic} (h : arithmetic op a b = .ok v) :
    v.vectorLength? = a.vectorLength?.or b.vectorLength? ∧ v.isSlice = false := by
  unfold arithmetic at h
  split at h
  · cases h
    exact ⟨rfl, rfl⟩
  · obtain ⟨r, -, rfl⟩ := map_eq_ok.1 h
    exact ⟨rfl, rfl⟩
  · cases h
    exact ⟨rfl, rfl⟩
  · cases h
    exact ⟨rfl, rfl⟩
  · -- two vectors are added or subtracted if they have one length
    split at h
    · split at h
      next hl =>
        cases h
        exact ⟨by simp [vectorLength?, hl], rfl⟩
      next => cases h
    · cases h
  · split at h
    · cases h
    · cases h
      exact ⟨by simp [vectorLength?], rfl⟩
  · split at h
    · cases h
      exact ⟨by simp [vectorLength?], rfl⟩
    · cases h
  · cases h

/-- A comparison answers no vector. -/
theorem vectorLength?_compare {op : Comparison} (h : compare op a b = .ok v) :
    v.vectorLength? = Option.none ∧ v.isSlice = false := by
  unfold compare at h
  split at h
  · cases h
    exact ⟨rfl, rfl⟩
  · obtain ⟨m, -, rfl⟩ := map_eq_ok.1 h
    exact ⟨rfl, rfl⟩
  · cases h
    exact ⟨rfl, rfl⟩
  · cases h
    exact ⟨rfl, rfl⟩
  · split at h
    · cases h
      exact ⟨rfl, rfl⟩
    · cases h
  · split at h
    · obtain ⟨m, -, rfl⟩ := map_eq_ok.1 h
      exact ⟨rfl, rfl⟩
    · cases h
  · split at h
    · split at h
      · cases h
        exact ⟨rfl, rfl⟩
      · cases h
    · cases h
  · cases h

/-- A connective answers no vector. -/
theorem vectorLength?_connect {op : Connective} (h : connect op a b = .ok v) :
    v.vectorLength? = Option.none ∧ v.isSlice = false := by
  unfold connect at h
  split at h
  · obtain ⟨m, -, rfl⟩ := map_eq_ok.1 h
    exact ⟨rfl, rfl⟩
  · cases h
    exact ⟨rfl, rfl⟩
  · cases h
    exact ⟨rfl, rfl⟩
  · cases h
    exact ⟨rfl, rfl⟩
  · obtain ⟨i, -, h⟩ := bind_eq_ok.1 h
    obtain ⟨j, -, h⟩ := bind_eq_ok.1 h
    cases h
    exact ⟨rfl, rfl⟩
  · cases h

/-- A test of membership answers no vector. -/
theorem vectorLength?_within (h : within a b = .ok v) :
    v.vectorLength? = Option.none ∧ v.isSlice = false := by
  unfold within at h
  split at h
  · split at h
    · cases h
      exact ⟨rfl, rfl⟩
    · cases h
      exact ⟨rfl, rfl⟩
    · cases h
  · cases h

/-- Only arithmetic makes vectors of two operands. -/
theorem vectorLength?_binary {op : BinaryOp} (h : binary op a b = .ok v) :
    v.vectorLength? =
        (if op.isArithmetic then a.vectorLength?.or b.vectorLength? else Option.none) ∧
      v.isSlice = false := by
  cases op with
  | arithmetic op => exact vectorLength?_arithmetic h
  | comparison op => exact vectorLength?_compare h
  | connective op => exact vectorLength?_connect h
  | within => exact vectorLength?_within h

/-- A sign in front of a value keeps a vector a vector of its length. -/
theorem vectorLength?_unary {op : UnaryOp} (h : unary op a = .ok v) :
    v.vectorLength? = a.vectorLength? ∧ v.isSlice = false := by
  cases op with
  | negate =>
    replace h : negate a = .ok v := h
    unfold negate at h
    split at h
    · cases h
      exact ⟨rfl, rfl⟩
    · cases h
      exact ⟨rfl, rfl⟩
    · cases h
      exact ⟨by simp [vectorLength?], rfl⟩
    · cases h
  | invert =>
    replace h : invert a = .ok v := h
    unfold invert at h
    split at h
    · cases h
      exact ⟨rfl, rfl⟩
    · cases h
      exact ⟨rfl, rfl⟩
    · obtain ⟨i, -, h⟩ := bind_eq_ok.1 h
      cases h
      exact ⟨rfl, rfl⟩
    · cases h

/-- Saturation keeps a vector a vector of its length. -/
theorem vectorLength?_saturate (h : saturate a = .ok v) :
    v.vectorLength? = a.vectorLength? ∧ v.isSlice = false := by
  unfold saturate at h
  split at h
  · cases h
    exact ⟨rfl, rfl⟩
  · cases h
    exact ⟨rfl, rfl⟩
  · cases h
    exact ⟨by simp [vectorLength?], rfl⟩
  · cases h

/-- A slice selects a vector, and any other position one number. -/
theorem vectorLength?_select {items : List Number} (h : select items b = .ok v) :
    v.vectorLength?.isSome = b.isSlice ∧ v.isSlice = false := by
  unfold select at h
  split at h
  · obtain ⟨xs, -, rfl⟩ := map_eq_ok.1 h
    exact ⟨rfl, rfl⟩
  · obtain ⟨i, -, h⟩ := bind_eq_ok.1 h
    obtain ⟨x, rfl⟩ := exists_number_of_elementAt h
    exact ⟨rfl, rfl⟩
  · cases h

end Value

/-! ## Shapes -/

/-- The lengths that a shape leaves open: none at all for plain values, any length for vectors of
unknown length. -/
def Shape.Admits : Shape → Option Nat → Prop
  | .plain, length => length = none
  | .vector none, length => length.isSome
  | .vector (some n), length => length = some n

/-- No variable `$name` is a vector or a slice, and each vector of which a length is known has that
length. -/
structure Environment.Agrees (env : Environment) (lengths : Lengths) : Prop where
  scalar : ∀ name v, env.scalar? name = some v → v.isVector = false ∧ v.isSlice = false
  vector : ∀ name n items, lengths.get? name = some n → env.vector? name = some items →
    items.length = n

namespace Environment

variable {env : Environment} {lengths : Lengths} {name : String}

/-- Without variables there is nothing to agree on. -/
theorem agrees_empty : empty.Agrees [] where
  scalar name v hv := by cases hv
  vector name n items hn hv := by cases hn

/-- A new scope does not change which variables are seen. -/
theorem Agrees.child (h : env.Agrees lengths) : env.child.Agrees lengths :=
  ⟨h.scalar, h.vector⟩

/-- A variable of no vector and no slice can be bound. -/
theorem Agrees.bind {v : Value} (h : env.Agrees lengths)
    (hv : v.isVector = false ∧ v.isSlice = false) : (env.bind name v).Agrees lengths where
  scalar other w hw := by
    rw [scalar?_bind] at hw
    split at hw
    · cases hw
      exact hv
    · exact h.scalar other w hw
  vector := h.vector

/-- A vector that is bound agrees with its length, and with no length at all. -/
theorem Agrees.bindVector {items : List Number} {after : Lengths} (h : env.Agrees lengths)
    (hname : ∀ n, after.get? name = some n → items.length = n)
    (hother : ∀ other, other ≠ name → after.get? other = lengths.get? other) :
    (env.bindVector name items).Agrees after where
  scalar := h.scalar
  vector other n bound hn hbound := by
    rw [vector?_bindVector] at hbound
    split at hbound
    next heq =>
      cases hbound
      exact hname n (heq ▸ hn)
    next hne => exact h.vector other n bound (hother other hne ▸ hn) hbound

end Environment

namespace Expr

variable {env : Environment} {lengths : Lengths} {v : Value}

/-- The value of an expression is a slice only if the expression is a slice literal. -/
theorem isSlice_of_evaluate (henv : env.Agrees lengths) {e : Expr}
    (h : e.evaluate env = .ok v) : v.isSlice = e.isSlice := by
  cases e with
  | number x => cases h; rfl
  | boolean b => cases h; rfl
  | none => cases h; rfl
  | «variable» x =>
    have hx : env.lookup x = some v := evaluate_variable_eq_ok.1 h
    cases x with
    | scalar name => exact (henv.scalar name v hx).2
    | vector name =>
      obtain ⟨items, -, rfl⟩ := Option.map_eq_some_iff.1 hx
      rfl
  | binary op left right =>
    obtain ⟨a, -, b, -, hv⟩ := evaluate_binary_eq_ok.1 h
    exact (Value.vectorLength?_binary hv).2
  | unary op operand =>
    obtain ⟨a, -, hv⟩ := evaluate_unary_eq_ok.1 h
    exact (Value.vectorLength?_unary hv).2
  | range min max strictMin strictMax =>
    obtain ⟨low, -, high, -, rfl⟩ := evaluate_range_eq_ok.1 h
    rfl
  | slice start stop step =>
    obtain ⟨first, -, last, -, stride, -, rfl⟩ := evaluate_slice_eq_ok.1 h
    rfl
  | vector items =>
    obtain ⟨xs, -, rfl⟩ := evaluate_vector_eq_ok.1 h
    rfl
  | index vector position =>
    obtain ⟨items, -, b, -, hv⟩ := evaluate_index_eq_ok.1 h
    exact (Value.vectorLength?_select hv).2
  | saturated inner =>
    obtain ⟨a, -, hv⟩ := evaluate_saturated_eq_ok.1 h
    exact (Value.vectorLength?_saturate hv).2

/-- The shape of an arithmetic node is that of its first operand that is a vector. -/
theorem shape_arithmetic (op : Arithmetic) (left right : Expr) :
    (binary (.arithmetic op) left right).shape lengths =
      if (left.shape lengths).isVector then left.shape lengths else right.shape lengths := by
  simp only [shape]
  cases left.shape lengths <;> rfl

/-- The shape of an expression admits the value that the expression has. -/
theorem admits_of_evaluate (henv : env.Agrees lengths) {e : Expr} (h : e.evaluate env = .ok v) :
    (e.shape lengths).Admits v.vectorLength? := by
  induction e generalizing v with
  | number x => cases h; rfl
  | boolean b => cases h; rfl
  | none => cases h; rfl
  | var x =>
    have hx : env.lookup x = some v := evaluate_variable_eq_ok.1 h
    cases x with
    | scalar name =>
      have hv : v.isVector = false := (henv.scalar name v hx).1
      simpa [shape, Shape.Admits, Value.isVector_eq] using hv
    | vector name =>
      obtain ⟨items, hitems, rfl⟩ := Option.map_eq_some_iff.1 hx
      simp only [shape]
      cases hn : lengths.get? name with
      | none => rfl
      | some n => exact congrArg some (henv.vector name n items hn hitems)
  | binary op left right ihl ihr =>
    obtain ⟨a, ha, b, hb, hv⟩ := evaluate_binary_eq_ok.1 h
    have hlen := (Value.vectorLength?_binary hv).1
    cases op with
    | arithmetic op =>
      rw [hlen, shape_arithmetic]
      have hl := ihl ha
      cases hs : left.shape lengths with
      | plain =>
        -- the left operand is no vector, so the shape and the length are those of the right one
        rw [hs] at hl
        have hnone : a.vectorLength? = Option.none := hl
        simpa [Shape.isVector, BinaryOp.isArithmetic, hnone] using ihr hb
      | vector n =>
        rw [hs] at hl
        cases n with
        | none =>
          have hsome : a.vectorLength?.isSome := hl
          obtain ⟨m, hm⟩ := Option.isSome_iff_exists.1 hsome
          simp [Shape.isVector, BinaryOp.isArithmetic, Shape.Admits, hm]
        | some n =>
          have hsome : a.vectorLength? = some n := hl
          simp [Shape.isVector, BinaryOp.isArithmetic, Shape.Admits, hsome]
    | comparison op => exact hlen
    | connective op => exact hlen
    | within => exact hlen
  | unary op operand ih =>
    obtain ⟨a, ha, hv⟩ := evaluate_unary_eq_ok.1 h
    rw [(Value.vectorLength?_unary hv).1]
    simpa [shape] using ih ha
  | range min max strictMin strictMax _ _ =>
    obtain ⟨low, -, high, -, rfl⟩ := evaluate_range_eq_ok.1 h
    rfl
  | slice start stop step _ _ _ =>
    obtain ⟨first, -, last, -, stride, -, rfl⟩ := evaluate_slice_eq_ok.1 h
    rfl
  | vector items _ =>
    obtain ⟨xs, hxs, rfl⟩ := evaluate_vector_eq_ok.1 h
    exact congrArg some (length_of_evaluateItems hxs)
  | index vector position _ _ =>
    obtain ⟨items, -, b, hb, hv⟩ := evaluate_index_eq_ok.1 h
    have hslice : v.vectorLength?.isSome = position.isSlice := by
      rw [(Value.vectorLength?_select hv).1, isSlice_of_evaluate henv hb]
    cases hp : position.isSlice with
    | true => simpa [shape, hp, Shape.Admits] using hslice
    | false => simpa [shape, hp, Shape.Admits] using hslice
  | saturated inner ih =>
    obtain ⟨a, ha, hv⟩ := evaluate_saturated_eq_ok.1 h
    rw [(Value.vectorLength?_saturate hv).1]
    simpa [shape] using ih ha

/-- Shapes are sound: whatever an expression evaluates to is no vector if its shape is plain, a
vector if its shape is that of a vector, and a vector of the right length if its shape has one. -/
theorem evaluate_of_shape (e : Expr) (henv : env.Agrees lengths) (h : e.evaluate env = .ok v) :
    (e.shape lengths = .plain → v.isVector = false) ∧
      (e.shape lengths = .vector Option.none → v.isVector = true) ∧
        ∀ n, e.shape lengths = .vector (some n) →
          ∃ items, v = .vector items ∧ items.length = n := by
  have hadmits := admits_of_evaluate henv h
  refine ⟨fun hs => ?_, fun hs => ?_, fun n hs => ?_⟩
  · rw [hs] at hadmits
    have hnone : v.vectorLength? = Option.none := hadmits
    simp [Value.isVector_eq, hnone]
  · rw [hs] at hadmits
    rw [Value.isVector_eq]
    exact hadmits
  · rw [hs] at hadmits
    exact Value.vectorLength?_eq_some.1 hadmits

/-- The sum of `[1, 2]` and a variable `$$v` of two items has the shape of two items, and so has its
value. -/
theorem evaluate_of_shape_sum :
    (Environment.empty.bindVector "v" [3, 4]).Agrees [("v", 2)] ∧
      evaluate (Environment.empty.bindVector "v" [3, 4])
        (.binary (.arithmetic .add) (.vector [.number 1, .number 2]) (.variable (.vector "v"))) =
          .ok (.vector [1 + 3, 2 + 4]) ∧
      ∃ items, Value.vector [1 + 3, 2 + 4] = .vector items ∧ items.length = 2 := by
  have henv : (Environment.empty.bindVector "v" [3, 4]).Agrees [("v", 2)] := by
    refine ⟨fun name v hv => ?_, fun name n items hn hitems => ?_⟩
    · cases hv
    · by_cases hname : "v" = name
      · subst hname
        cases hn
        cases hitems
        rfl
      · simp [Bindings.get?, hname] at hn
  have h : evaluate (Environment.empty.bindVector "v" [3, 4])
      (.binary (.arithmetic .add) (.vector [.number 1, .number 2]) (.variable (.vector "v"))) =
        .ok (.vector [1 + 3, 2 + 4]) := rfl
  exact ⟨henv, h, (evaluate_of_shape _ henv h).2.2 2 rfl⟩

end Expr

end Recolor
