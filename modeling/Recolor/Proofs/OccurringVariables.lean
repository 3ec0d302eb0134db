import Recolor.Proofs.Evaluation
import Recolor.Proofs.OperatorFaults

/-!
# The variables that an expression reads

`Expr.vars` lists the variables that occur in an expression. Evaluation reads no other: two
environments that agree on these variables give the same outcome, fault or value, whatever layers
they are made of and whatever else they bind. As no operator is lazy, it also reads each of them: an
expression that has a value has all of its variables bound.

Operations on values never look up a variable. So a fault that is foreign to them comes up only
where an unbound variable is read (`Expr.avoids_evaluate`), and the fault that calls a variable
unbound only for one that occurs.
-/

set_option autoImplicit false

namespace Recolor

namespace Expr

/-! ## Occurrence -/

mutual

/-- The variables that occur in an expression, from left to right. -/
def vars : Expr → List Variable
  | .number _ | .boolean _ | .none => []
  | .variable v => [v]
  | .binary _ left right => vars left ++ vars right
  | .unary _ operand => vars operand
  | .saturated inner => vars inner
  | .range min max _ _ => vars min ++ vars max
  | .vector items => varsOfItems items
  | .slice start stop step =>
    varsOfBound start ++ varsOfBound stop ++ varsOfBound step
  | .index indexed position => vars indexed ++ vars position

/-- The vars that occur in the elements of a vector. -/
def varsOfItems : List Expr → List Variable
  | [] => []
  | e :: rest => vars e ++ varsOfItems rest

/-- The vars that occur in the bound of a slice. -/
def varsOfBound : Option Expr → List Variable
  | Option.none => []
  | some e => vars e

end

/-- A variable occurs in a list of elements exactly if it occurs in one of them. -/
theorem mem_varsOfItems {items : List Expr} {v : Variable} :
    v ∈ varsOfItems items ↔ ∃ e ∈ items, v ∈ e.vars := by
  induction items with
  | nil => simp [varsOfItems]
  | cons e rest ih => simp [varsOfItems, ih]

/-- A variable occurs in a bound exactly if the bound is there and it occurs in that. -/
theorem mem_varsOfBound {bound : Option Expr} {v : Variable} :
    v ∈ varsOfBound bound ↔ ∃ e ∈ bound, v ∈ e.vars := by
  cases bound with
  | none => simp [varsOfBound]
  | some e => simp [varsOfBound]

/-! ## Environments that agree -/

section Agreement

variable {env other : Environment}

/-- Elements that have the same outcomes give the same vector. -/
theorem evaluateItems_congr {items : List Expr}
    (h : ∀ e ∈ items, e.evaluate env = e.evaluate other) :
    evaluateItems env items = evaluateItems other items := by
  induction items with
  | nil => simp only [evaluateItems]
  | cons e rest ih =>
    have hfirst : e.evaluate env = e.evaluate other := h e List.mem_cons_self
    have hrest : evaluateItems env rest = evaluateItems other rest :=
      ih fun e he => h e (List.mem_cons_of_mem _ he)
    simp only [evaluateItems, hfirst, hrest]

/-- A bound that has the same outcome is the same bound. -/
theorem evaluateBound_congr {bound : Option Expr}
    (h : ∀ e ∈ bound, e.evaluate env = e.evaluate other) :
    evaluateBound env bound = evaluateBound other bound := by
  cases bound with
  | none => simp only [evaluateBound]
  | some e =>
    have he : e.evaluate env = e.evaluate other := h e rfl
    simp only [evaluateBound, he]

/-- Environments that agree on the variables of an expression give it the same outcome. -/
theorem evaluate_congr {e : Expr} (h : ∀ v ∈ e.vars, env.lookup v = other.lookup v) :
    e.evaluate env = e.evaluate other := by
  induction e with
  | number | boolean | none => simp only [evaluate]
  | var v =>
    have hv : env.lookup v = other.lookup v := h v (by simp [vars])
    simp only [evaluate, hv]
  | binary op left right ihl ihr =>
    simp only [vars, List.forall_mem_append] at h
    simp only [evaluate, ihl h.1, ihr h.2]
  | unary op operand ih =>
    simp only [vars] at h
    simp only [evaluate, ih h]
  | range min max strictMin strictMax ihmin ihmax =>
    simp only [vars, List.forall_mem_append] at h
    simp only [evaluate, ihmin h.1, ihmax h.2]
  | slice start stop step ihstart ihstop ihstep =>
    simp only [vars, List.forall_mem_append] at h
    obtain ⟨⟨hstart, hstop⟩, hstep⟩ := h
    have hbound : ∀ bound : Option Expr, (∀ v ∈ varsOfBound bound,
        env.lookup v = other.lookup v) → ∀ e ∈ bound, ∀ v ∈ e.vars,
        env.lookup v = other.lookup v :=
      fun bound h e he v hv => h v (mem_varsOfBound.2 ⟨e, he, hv⟩)
    simp only [evaluate,
      evaluateBound_congr fun e he => ihstart e he (hbound start hstart e he),
      evaluateBound_congr fun e he => ihstop e he (hbound stop hstop e he),
      evaluateBound_congr fun e he => ihstep e he (hbound step hstep e he)]
  | vector items ih =>
    simp only [vars] at h
    have hitems : evaluateItems env items = evaluateItems other items := by
      apply evaluateItems_congr
      intro e he
      exact ih e he fun v hv => h v (mem_varsOfItems.2 ⟨e, he, hv⟩)
    simp only [evaluate, hitems]
  | index indexed position ihi ihp =>
    simp only [vars, List.forall_mem_append] at h
    simp only [evaluate, ihi h.1, ihp h.2]
  | saturated inner ih =>
    simp only [vars] at h
    simp only [evaluate, ih h]

end Agreement

/-! ## Unbound variables -/

section Unbound

variable {env : Environment} {bad : Fault → Prop}

/-- Faults that operations and indices do not have come up in evaluation only where a variable is
looked up that is not bound. -/
theorem avoids_evaluate (hforeign : ∀ fault, bad fault → fault.Foreign)
    (hindexed : ∀ a : Value, Avoids bad a.indexedItems) {e : Expr}
    (hunbound : ∀ v ∈ e.vars, env.lookup v = Option.none → ¬bad (.undefinedVariable v)) :
    Avoids bad (e.evaluate env) := by
  induction e with
  | number | boolean | none => simp [evaluate]
  | var v =>
    simp only [evaluate]
    cases hv : env.lookup v with
    | some value => exact avoids_ok _
    | none => exact avoids_error.2 (hunbound v (by simp [vars]) hv)
  | binary op left right ihl ihr =>
    simp only [vars, List.forall_mem_append] at hunbound
    simp only [evaluate]
    refine (ihl hunbound.1).bind fun a _ => (ihr hunbound.2).bind fun b _ => ?_
    exact (Value.ordinary_binary op a b).mono hforeign
  | unary op operand ih =>
    simp only [evaluate]
    exact (ih hunbound).bind fun a _ => (Value.ordinary_unary op a).mono hforeign
  | range min max strictMin strictMax ihmin ihmax =>
    simp only [vars, List.forall_mem_append] at hunbound
    simp only [evaluate]
    refine (ihmin hunbound.1).bind fun a _ => ?_
    refine ((Value.ordinary_requireNumber _ a).mono hforeign).bind fun low _ => ?_
    refine (ihmax hunbound.2).bind fun b _ => ?_
    exact ((Value.ordinary_requireNumber _ b).mono hforeign).bind fun high _ => avoids_ok _
  | slice start stop step ihstart ihstop ihstep =>
    simp only [vars, List.forall_mem_append] at hunbound
    obtain ⟨⟨hstart, hstop⟩, hstep⟩ := hunbound
    simp only [evaluate]
    have hslice : ∀ a : Value, Avoids bad a.sliceBound := fun a =>
      (Value.ordinary_sliceBound a).mono hforeign
    refine (avoids_evaluateBound hslice fun e he => ihstart e he fun v hv =>
      hstart v (mem_varsOfBound.2 ⟨e, he, hv⟩)).bind fun first _ => ?_
    refine (avoids_evaluateBound hslice fun e he => ihstop e he fun v hv =>
      hstop v (mem_varsOfBound.2 ⟨e, he, hv⟩)).bind fun last _ => ?_
    exact (avoids_evaluateBound hslice fun e he => ihstep e he fun v hv =>
      hstep v (mem_varsOfBound.2 ⟨e, he, hv⟩)).bind fun stride _ => avoids_ok _
  | vector items ih =>
    simp only [evaluate]
    refine (avoids_evaluateItems (fun a => ?_) fun e he => ih e he fun v hv =>
      hunbound v (mem_varsOfItems.2 ⟨e, he, hv⟩)).bind fun numbers _ => avoids_ok _
    exact (Value.ordinary_requireNumber _ a).mono hforeign
  | index indexed position ihi ihp =>
    simp only [vars, List.forall_mem_append] at hunbound
    simp only [evaluate]
    refine (ihi hunbound.1).bind fun a _ => (hindexed a).bind fun items _ => ?_
    refine (ihp hunbound.2).bind fun b _ => ?_
    exact (Value.ordinary_select items b).mono hforeign
  | saturated inner ih =>
    simp only [evaluate]
    exact (ih hunbound).bind fun a _ => (Value.ordinary_saturate a).mono hforeign

/-- A variable that evaluation calls unbound occurs, and is unbound. -/
theorem unbound_of_evaluate {e : Expr} {v : Variable}
    (h : e.evaluate env = .error (.undefinedVariable v)) :
    v ∈ e.vars ∧ env.lookup v = Option.none := by
  -- otherwise the fault that calls it unbound is avoided
  apply Classical.byContradiction
  intro hstray
  have havoids : Avoids (· = Fault.undefinedVariable v) (e.evaluate env) := by
    apply avoids_evaluate
    · rintro _ rfl
      trivial
    · intro a
      cases a <;> simp [Value.indexedItems]
    · intro w hw hnone heq
      cases heq
      exact hstray ⟨hw, hnone⟩
  exact havoids _ h rfl

end Unbound

/-! ## Bound variables -/

section Bound

variable {env : Environment}

/-- If the elements of a vector have values, all variables that occur in them are bound. -/
theorem bound_of_evaluateItems {items : List Expr} {xs : List Number}
    (h : ∀ e ∈ items, ∀ a, e.evaluate env = .ok a → ∀ v ∈ e.vars, (env.lookup v).isSome)
    (hxs : evaluateItems env items = .ok xs) :
    ∀ v ∈ varsOfItems items, (env.lookup v).isSome := by
  induction items generalizing xs with
  | nil => simp [varsOfItems]
  | cons e rest ih =>
    obtain ⟨x, hx, more, hmore, -⟩ := evaluateItems_cons_eq_ok.1 hxs
    simp only [varsOfItems, List.forall_mem_append]
    exact ⟨h e List.mem_cons_self _ hx, ih (fun e he => h e (List.mem_cons_of_mem _ he)) hmore⟩

/-- If the bound of a slice has a value, all variables that occur in it are bound. -/
theorem bound_of_evaluateBound {bound : Option Expr} {i : Option Int64}
    (h : ∀ e ∈ bound, ∀ a, e.evaluate env = .ok a → ∀ v ∈ e.vars, (env.lookup v).isSome)
    (hi : evaluateBound env bound = .ok i) :
    ∀ v ∈ varsOfBound bound, (env.lookup v).isSome := by
  cases bound with
  | none => simp [varsOfBound]
  | some e =>
    simp only [evaluateBound] at hi
    obtain ⟨a, ha, -⟩ := bind_eq_ok.1 hi
    exact h e rfl a ha

/-- All variables of an expression that has a value are bound. -/
theorem bound_of_evaluate {e : Expr} {a : Value} (h : e.evaluate env = .ok a) :
    ∀ v ∈ e.vars, (env.lookup v).isSome := by
  induction e generalizing a with
  | number | boolean | none => simp [vars]
  | var v =>
    have hv : env.lookup v = some a := evaluate_variable_eq_ok.1 h
    simp [vars, hv]
  | binary op left right ihl ihr =>
    obtain ⟨b, hb, c, hc, -⟩ := evaluate_binary_eq_ok.1 h
    simp only [vars, List.forall_mem_append]
    exact ⟨ihl hb, ihr hc⟩
  | unary op operand ih =>
    obtain ⟨b, hb, -⟩ := evaluate_unary_eq_ok.1 h
    exact ih hb
  | range min max strictMin strictMax ihmin ihmax =>
    obtain ⟨low, hlow, high, hhigh, -⟩ := evaluate_range_eq_ok.1 h
    simp only [vars, List.forall_mem_append]
    exact ⟨ihmin hlow, ihmax hhigh⟩
  | slice start stop step ihstart ihstop ihstep =>
    obtain ⟨first, hfirst, last, hlast, stride, hstride, -⟩ := evaluate_slice_eq_ok.1 h
    simp only [vars, List.forall_mem_append]
    refine ⟨⟨?_, ?_⟩, ?_⟩
    · exact bound_of_evaluateBound (fun e he b hb => ihstart e he hb) hfirst
    · exact bound_of_evaluateBound (fun e he b hb => ihstop e he hb) hlast
    · exact bound_of_evaluateBound (fun e he b hb => ihstep e he hb) hstride
  | vector items ih =>
    obtain ⟨xs, hxs, -⟩ := evaluate_vector_eq_ok.1 h
    exact bound_of_evaluateItems (fun e he b hb => ih e he hb) hxs
  | index indexed position ihi ihp =>
    obtain ⟨items, hitems, b, hb, -⟩ := evaluate_index_eq_ok.1 h
    simp only [vars, List.forall_mem_append]
    exact ⟨ihi hitems, ihp hb⟩
  | saturated inner ih =>
    obtain ⟨b, hb, -⟩ := evaluate_saturated_eq_ok.1 h
    exact ih hb

end Bound

/-! ## What evaluation reads -/

/-- Evaluation depends on the variables that occur in an expression and on nothing else. Two
environments that agree on them give the same value or the same fault; only such a variable is
called unbound, and only if it is, so that an expression whose variables are all bound never fails
for want of one; and an expression that has a value has all its variables bound. -/
theorem evaluation_reads_occurring_variables (e : Expr) (env : Environment) :
    (∀ other : Environment, (∀ v ∈ e.vars, env.lookup v = other.lookup v) →
      e.evaluate env = e.evaluate other) ∧
    (∀ v, e.evaluate env = .error (.undefinedVariable v) →
      v ∈ e.vars ∧ env.lookup v = Option.none) ∧
    ((∀ v ∈ e.vars, (env.lookup v).isSome) →
      ∀ v, e.evaluate env ≠ .error (.undefinedVariable v)) ∧
    ∀ a, e.evaluate env = .ok a → ∀ v ∈ e.vars, (env.lookup v).isSome := by
  refine ⟨fun other h => evaluate_congr h, fun v h => unbound_of_evaluate h, ?_,
    fun a h => bound_of_evaluate h⟩
  intro hbound v h
  obtain ⟨hoccurs, hunbound⟩ := unbound_of_evaluate h
  have hsome : (env.lookup v).isSome := hbound v hoccurs
  rw [hunbound] at hsome
  cases hsome

/-- `$x * $$v[$n]`, an expression with variables of both sorts. -/
def scaledItem : Expr :=
  .binary (.arithmetic .mul) (.variable (.scalar "x"))
    (.index (.variable (.vector "v")) (.variable (.scalar "n")))

/-- An inner `$x` hides a truth value of that name. -/
def scalarHiding : Environment where
  inner := { scalars := [("x", .number 2)] }
  outer := [{ scalars := [("x", .boolean true), ("n", .number 0)], vectors := [("v", [3, 4])] }]

/-- An inner `$$v` hides a vector without elements, and `$y` is bound as well. -/
def vectorHiding : Environment where
  inner := { scalars := [("n", .number 0), ("y", .none)], vectors := [("v", [3, 4])] }
  outer := [{ scalars := [("x", .number 2)] },
    { scalars := [("x", .none)], vectors := [("v", [])] }]

/-- Two environments in which different layers hide each other, and a variable only one binds. -/
theorem evaluation_reads_occurring_variables_layered :
    ((∀ v ∈ scaledItem.vars, scalarHiding.lookup v = vectorHiding.lookup v) ∧
      scaledItem.evaluate scalarHiding = scaledItem.evaluate vectorHiding) ∧
    (Expr.evaluate scalarHiding (.binary (.arithmetic .add) scaledItem (.variable (.scalar "y"))) =
        .error (.undefinedVariable (.scalar "y")) ∧
      scalarHiding.lookup (.scalar "y") = Option.none) ∧
    ((∀ v ∈ scaledItem.vars, (vectorHiding.lookup v).isSome) ∧
      ∀ v, scaledItem.evaluate vectorHiding ≠ .error (.undefinedVariable v)) ∧
    ∃ a, scaledItem.evaluate scalarHiding = .ok a ∧ (scalarHiding.lookup (.vector "v")).isSome := by
  have hvariables : scaledItem.vars = [.scalar "x", .vector "v", .scalar "n"] := by
    simp [scaledItem, vars]
  have hagree : ∀ v ∈ scaledItem.vars, scalarHiding.lookup v = vectorHiding.lookup v := by
    simp only [hvariables, List.forall_mem_cons]
    exact ⟨rfl, rfl, rfl, List.forall_mem_nil _⟩
  have hbound : ∀ v ∈ scaledItem.vars, (vectorHiding.lookup v).isSome := by
    simp only [hvariables, List.forall_mem_cons]
    exact ⟨rfl, rfl, rfl, List.forall_mem_nil _⟩
  have hok : (scaledItem.evaluate scalarHiding).isOk = true := by decide +kernel
  obtain ⟨a, ha⟩ := exists_of_isOk hok
  have hfault : Expr.evaluate scalarHiding
      (.binary (.arithmetic .add) scaledItem (.variable (.scalar "y"))) =
        .error (.undefinedVariable (.scalar "y")) := by
    simp only [evaluate, ha]
    rfl
  obtain ⟨hsame, -, -, hread⟩ := evaluation_reads_occurring_variables scaledItem scalarHiding
  obtain ⟨-, -, hnever, -⟩ := evaluation_reads_occurring_variables scaledItem vectorHiding
  obtain ⟨-, hunbound, -, -⟩ := evaluation_reads_occurring_variables
    (.binary (.arithmetic .add) scaledItem (.variable (.scalar "y"))) scalarHiding
  refine ⟨⟨hagree, hsame vectorHiding hagree⟩, ⟨hfault, (hunbound _ hfault).2⟩,
    ⟨hbound, hnever hbound⟩, a, ha, hread a ha _ ?_⟩
  simp [hvariables]

end Expr

end Recolor
