import Recolor.Evaluation
import Recolor.Proofs.Outcome

/-!
# Evaluation, constructor by constructor

`Expr.induction` is induction over expressions in which the elements of a vector and the bounds of a
slice are spoken of as members. The lemmas after it say for each constructor when its evaluation
succeeds, in terms of the evaluations of its parts, so that proofs about evaluation do not unfold
the evaluator again.
-/

set_option autoImplicit false

namespace Recolor

namespace Expr

/-! ## Induction -/

section Induction

variable {motive : Expr → Prop}
  (number : ∀ x, motive (.number x)) (boolean : ∀ b, motive (.boolean b)) (none : motive .none)
  (var : ∀ v, motive (.variable v))
  (binary : ∀ op left right, motive left → motive right → motive (.binary op left right))
  (unary : ∀ op operand, motive operand → motive (.unary op operand))
  (range : ∀ min max strictMin strictMax, motive min → motive max →
    motive (.range min max strictMin strictMax))
  (slice : ∀ start stop step, (∀ e ∈ start, motive e) → (∀ e ∈ stop, motive e) →
    (∀ e ∈ step, motive e) → motive (.slice start stop step))
  (vector : ∀ items, (∀ e ∈ items, motive e) → motive (.vector items))
  (index : ∀ vector position, motive vector → motive position → motive (.index vector position))
  (saturated : ∀ inner, motive inner → motive (.saturated inner))

include number boolean none var binary unary range slice vector index saturated

/-- What passes from the parts of an expression to the expression holds of all expressions. -/
@[elab_as_elim, induction_eliminator]
theorem induction (e : Expr) : motive e :=
  @Expr.rec motive (fun o => ∀ e ∈ o, motive e) (fun es => ∀ e ∈ es, motive e)
    number boolean none var binary unary range slice vector index saturated
    (fun _ h => nomatch h) (fun _ h _ hmem => Option.mem_some.1 hmem ▸ h)
    (fun _ h => nomatch h)
    (fun _ _ h hs _ hmem => (List.mem_cons.1 hmem).elim (fun heq => heq ▸ h) (hs _)) e

end Induction

/-! ## When evaluation succeeds -/

variable {env : Environment} {v : Value}

/-- A variable has the value that it is bound to. -/
theorem evaluate_variable_eq_ok {x : Variable} :
    evaluate env (.variable x) = .ok v ↔ env.lookup x = some v := by
  simp only [evaluate]
  cases env.lookup x with
  | some value => simp
  | none => simp

/-- Both operands have values, and the operator takes them. -/
theorem evaluate_binary_eq_ok {op : BinaryOp} {left right : Expr} :
    evaluate env (.binary op left right) = .ok v ↔
      ∃ a, left.evaluate env = .ok a ∧ ∃ b, right.evaluate env = .ok b ∧
        Value.binary op a b = .ok v := by
  simp only [evaluate, bind_eq_ok]

/-- The operand has a value, and the operator takes it. -/
theorem evaluate_unary_eq_ok {op : UnaryOp} {operand : Expr} :
    evaluate env (.unary op operand) = .ok v ↔
      ∃ a, operand.evaluate env = .ok a ∧ Value.unary op a = .ok v := by
  simp only [evaluate, bind_eq_ok]

/-- The inner expression has a value that can be saturated. -/
theorem evaluate_saturated_eq_ok {inner : Expr} :
    evaluate env (.saturated inner) = .ok v ↔
      ∃ a, inner.evaluate env = .ok a ∧ Value.saturate a = .ok v := by
  simp only [evaluate, bind_eq_ok]

/-- A value is a number if a number is what it is needed as. -/
theorem requireNumber_eq_ok {role : NumberRole} {a : Value} {x : Number} :
    a.requireNumber role = .ok x ↔ a = .number x := by
  cases a <;> simp [Value.requireNumber]

/-- Both ends of a range are numbers. -/
theorem evaluate_range_eq_ok {min max : Expr} {strictMin strictMax : Bool} :
    evaluate env (.range min max strictMin strictMax) = .ok v ↔
      ∃ low, min.evaluate env = .ok (.number low) ∧ ∃ high, max.evaluate env = .ok (.number high) ∧
        v = .range ⟨low, high, strictMin, strictMax⟩ := by
  simp only [evaluate, bind_eq_ok, requireNumber_eq_ok, pure_eq_ok, Except.ok.injEq]
  constructor
  · rintro ⟨a, ha, low, rfl, b, hb, high, rfl, rfl⟩
    exact ⟨low, ha, high, hb, rfl⟩
  · rintro ⟨low, ha, high, hb, rfl⟩
    exact ⟨_, ha, low, rfl, _, hb, high, rfl, rfl⟩

/-- The elements of a vector are numbers. -/
theorem evaluateItems_cons_eq_ok {e : Expr} {rest : List Expr} {xs : List Number} :
    evaluateItems env (e :: rest) = .ok xs ↔
      ∃ x, e.evaluate env = .ok (.number x) ∧ ∃ more, evaluateItems env rest = .ok more ∧
        xs = x :: more := by
  simp only [evaluateItems, bind_eq_ok, requireNumber_eq_ok, pure_eq_ok, Except.ok.injEq]
  constructor
  · rintro ⟨a, ha, x, rfl, more, hmore, rfl⟩
    exact ⟨x, ha, more, hmore, rfl⟩
  · rintro ⟨x, ha, more, hmore, rfl⟩
    exact ⟨_, ha, x, rfl, more, hmore, rfl⟩

/-- There is one number for each element. -/
theorem length_of_evaluateItems {items : List Expr} {xs : List Number}
    (h : evaluateItems env items = .ok xs) : xs.length = items.length := by
  induction items generalizing xs with
  | nil =>
    obtain rfl : [] = xs := by simpa [evaluateItems] using h
    rfl
  | cons e rest ih =>
    obtain ⟨x, -, more, hmore, rfl⟩ := evaluateItems_cons_eq_ok.1 h
    simp [ih hmore]

/-- The value of a vector literal is the vector of the numbers of its elements. -/
theorem evaluate_vector_eq_ok {items : List Expr} :
    evaluate env (.vector items) = .ok v ↔
      ∃ xs, evaluateItems env items = .ok xs ∧ v = .vector xs := by
  simp only [evaluate, bind_eq_ok, pure_eq_ok, Except.ok.injEq, @eq_comm _ v]

/-- A slice literal has the slice of the values of its bounds as its value. -/
theorem evaluate_slice_eq_ok {start stop step : Option Expr} :
    evaluate env (.slice start stop step) = .ok v ↔
      ∃ first, evaluateBound env start = .ok first ∧ ∃ last, evaluateBound env stop = .ok last ∧
        ∃ stride, evaluateBound env step = .ok stride ∧ v = .slice ⟨first, last, stride⟩ := by
  simp only [evaluate, bind_eq_ok, pure_eq_ok, Except.ok.injEq, @eq_comm _ v]

/-- Only vectors can be indexed. -/
theorem indexedItems_eq_ok {a : Value} {items : List Number} :
    Value.indexedItems a = .ok items ↔ a = .vector items := by
  cases a <;> simp [Value.indexedItems]

/-- The indexed expression is a vector, and the position selects from it. -/
theorem evaluate_index_eq_ok {vector position : Expr} :
    evaluate env (.index vector position) = .ok v ↔
      ∃ items, vector.evaluate env = .ok (.vector items) ∧ ∃ b, position.evaluate env = .ok b ∧
        Value.select items b = .ok v := by
  simp only [evaluate, bind_eq_ok, indexedItems_eq_ok]
  constructor
  · rintro ⟨a, ha, items, rfl, b, hb, h⟩
    exact ⟨items, ha, b, hb, h⟩
  · rintro ⟨items, ha, b, hb, h⟩
    exact ⟨_, ha, items, rfl, b, hb, h⟩

end Expr

/-- What stands at an index is a number. -/
theorem Value.exists_number_of_elementAt {items : List Number} {i : Int64} {v : Value}
    (h : elementAt items i = .ok v) : ∃ x, v = .number x := by
  unfold elementAt at h
  extract_lets length place at h
  split at h
  · cases h
  · cases h
    exact ⟨_, rfl⟩

/-! ## When assignments succeed -/

/-- What an assignment does to an environment: `$$name` takes vectors, and `$name` all else. -/
theorem Environment.cases_of_assign {env next : Environment} {x : Variable} {v : Value}
    (h : env.assign x v = .ok next) :
    (∃ name items, x = .vector name ∧ v = .vector items ∧ next = env.bindVector name items) ∨
      ∃ name, x = .scalar name ∧ v.isVector = false ∧ next = env.bind name v := by
  cases x with
  | scalar name =>
    cases v with
    | vector items => cases h
    | _ =>
      cases h
      exact .inr ⟨name, rfl, rfl, rfl⟩
  | vector name =>
    cases v with
    | vector items =>
      cases h
      exact .inl ⟨name, items, rfl, rfl, rfl⟩
    | _ => cases h

/-- What an assignment does if it runs. -/
theorem Assignment.cases_of_run {a : Assignment} {env next : Environment}
    (h : a.run env = .ok next) :
    (∃ name items, a.target = .vector name ∧ a.value.evaluate env = .ok (.vector items) ∧
      next = env.bindVector name items) ∨
    ∃ name v, a.target = .scalar name ∧ a.value.evaluate env = .ok v ∧ v.isVector = false ∧
      next = env.bind name v := by
  obtain ⟨v, hv, h⟩ := bind_eq_ok.1 h
  rcases Environment.cases_of_assign h with
    ⟨name, items, htarget, rfl, rfl⟩ | ⟨name, htarget, hvector, rfl⟩
  · exact .inl ⟨name, items, htarget, hv, rfl⟩
  · exact .inr ⟨name, v, htarget, hv, hvector, rfl⟩

end Recolor
