import Recolor.Proofs.Layout

/-!
# Values at one position

The cell of a plane or a mask at a position is the plane or mask of one position that holds what
stands there. Every operator works position by position, and no fault of an operator on planes and
masks of one size depends on what they hold. So computing with cells is the same as computing with
the whole and looking at the cell (`Value.binary_cell` and its like), and hence so is evaluating
expressions (`Expr.evaluate_cell`) and running assignments (`execute_cell`), faults included.
-/

set_option autoImplicit false

namespace Recolor

/-- The plane of one position that holds the number at position `i`. -/
def Plane.cell (i : Nat) (p : Plane) : Plane := ⟨1, 1, [p.values.getD i 0]⟩

/-- The mask of one position that holds the truth value at position `i`. -/
def Mask.cell (i : Nat) (m : Mask) : Mask := ⟨1, 1, [m.bits.getD i false]⟩

/-- The value with what it holds at position `i` in the place of a plane or a mask. -/
def Value.cell (i : Nat) : Value → Value
  | .band p => .band (p.cell i)
  | .mask m => .mask (m.cell i)
  | v => v

/-- The scope with the cells of all its values. -/
def Layer.cell (i : Nat) (scope : Layer) : Layer :=
  { scope with scalars := scope.scalars.map fun (name, v) => (name, v.cell i) }

/-- The environment with the cells of all its values. -/
def Environment.cell (i : Nat) (env : Environment) : Environment :=
  ⟨env.inner.cell i, env.outer.map (Layer.cell i)⟩

/-- The scope with a function applied to the values of its scalar variables. -/
def Layer.mapScalars (f : Value → Value) (scope : Layer) : Layer :=
  { scope with scalars := scope.scalars.map fun (name, v) => (name, f v) }

/-- The environment with a function applied to the values of its scalar variables. -/
def Environment.mapScalars (f : Value → Value) (env : Environment) : Environment :=
  ⟨env.inner.mapScalars f, env.outer.map (Layer.mapScalars f)⟩

/-! ## Planes and masks -/

section Buffers

variable {size : Nat × Nat} {i : Nat}

/-- A position of a size stands for an item of each list that is laid out in it. -/
theorem Plane.lt_length {p : Plane} (hp : (Value.band p).Laid (.ofSize size))
    (hi : i < size.1 * size.2) : i < p.values.length := by
  obtain ⟨rfl, hlength⟩ := hp
  rwa [hlength]

/-- A position of a size stands for an item of each list that is laid out in it. -/
theorem Mask.lt_length {m : Mask} (hm : (Value.mask m).Laid (.ofSize size))
    (hi : i < size.1 * size.2) : i < m.bits.length := by
  obtain ⟨rfl, hlength⟩ := hm
  rwa [hlength]

/-- Inside both lists, what stands at a position of their combination is the combination of what
stands there. -/
theorem getD_zipWith {α β γ : Type} {f : α → β → γ} {xs : List α} {ys : List β} {a : α} {b : β}
    {c : γ} (hx : i < xs.length) (hy : i < ys.length) :
    (List.zipWith f xs ys).getD i c = f (xs.getD i a) (ys.getD i b) := by
  have hboth : i < (List.zipWith f xs ys).length := by
    rw [List.length_zipWith]
    omega
  simp only [List.getD_eq_getElem?_getD, List.getElem?_eq_getElem, hboth, hx, hy,
    List.getElem_zipWith, Option.getD_some]

/-- Planes are combined position by position. -/
theorem Plane.cell_zipWith {f : Number → Number → Number} {p q : Plane}
    (hp : (Value.band p).Laid (.ofSize size)) (hq : (Value.band q).Laid (.ofSize size))
    (hi : i < size.1 * size.2) :
    (p.cell i).zipWith f (q.cell i) = (p.zipWith f q).map (Plane.cell i) := by
  have hsize : p.size = q.size := hp.1.trans hq.1.symm
  rw [zipWith_eq_ok.2 ⟨hsize, rfl⟩]
  refine zipWith_eq_ok.2 ⟨rfl, ?_⟩
  rw [cell, getD_zipWith (p.lt_length hp hi) (q.lt_length hq hi)]
  rfl

/-- Planes are compared position by position. -/
theorem Plane.cell_testWith {f : Number → Number → Bool} {p q : Plane}
    (hp : (Value.band p).Laid (.ofSize size)) (hq : (Value.band q).Laid (.ofSize size))
    (hi : i < size.1 * size.2) :
    (p.cell i).testWith f (q.cell i) = (p.testWith f q).map (Mask.cell i) := by
  have hsize : p.size = q.size := hp.1.trans hq.1.symm
  rw [testWith_eq_ok.2 ⟨hsize, rfl⟩]
  refine testWith_eq_ok.2 ⟨rfl, ?_⟩
  rw [Mask.cell, getD_zipWith (p.lt_length hp hi) (q.lt_length hq hi)]
  rfl

/-- Masks are combined position by position. -/
theorem Mask.cell_zipWith {f : Bool → Bool → Bool} {m n : Mask}
    (hm : (Value.mask m).Laid (.ofSize size)) (hn : (Value.mask n).Laid (.ofSize size))
    (hi : i < size.1 * size.2) :
    (m.cell i).zipWith f (n.cell i) = (m.zipWith f n).map (Mask.cell i) := by
  have hsize : m.size = n.size := hm.1.trans hn.1.symm
  rw [zipWith_eq_ok.2 ⟨hsize, rfl⟩]
  refine zipWith_eq_ok.2 ⟨rfl, ?_⟩
  rw [cell, getD_zipWith (m.lt_length hm hi) (n.lt_length hn hi)]
  rfl

/-- A function is applied to a plane position by position. -/
theorem Plane.cell_map {f : Number → Number} {p : Plane}
    (hp : (Value.band p).Laid (.ofSize size)) (hi : i < size.1 * size.2) :
    (p.map f).cell i = (p.cell i).map f := by
  simp [cell, Plane.map, List.getD_eq_getElem?_getD, p.lt_length hp hi]

/-- A test is made of a plane position by position. -/
theorem Plane.cell_test {f : Number → Bool} {p : Plane}
    (hp : (Value.band p).Laid (.ofSize size)) (hi : i < size.1 * size.2) :
    (p.test f).cell i = (p.cell i).test f := by
  simp [cell, Mask.cell, Plane.test, List.getD_eq_getElem?_getD, p.lt_length hp hi]

/-- A function is applied to a mask position by position. -/
theorem Mask.cell_map {f : Bool → Bool} {m : Mask}
    (hm : (Value.mask m).Laid (.ofSize size)) (hi : i < size.1 * size.2) :
    (m.map f).cell i = (m.cell i).map f := by
  simp [cell, Mask.map, List.getD_eq_getElem?_getD, m.lt_length hm hi]

end Buffers

/-! ## Operators -/

namespace Value

variable {size : Nat × Nat} {i : Nat} {a b v : Value}

/-- The cell of a value is a value of the same kind. -/
@[simp] theorem kind_cell (i : Nat) (v : Value) : (v.cell i).kind = v.kind := by
  cases v <;> rfl

/-- Arithmetic works position by position. -/
theorem arithmetic_cell (op : Arithmetic) (ha : a.Laid (.ofSize size)) (hb : b.Laid (.ofSize size))
    (hi : i < size.1 * size.2) :
    arithmetic op (a.cell i) (b.cell i) = (arithmetic op a b).map (cell i) := by
  cases a with
  | band p =>
    cases b with
    | band q =>
      simp only [cell, arithmetic, Plane.cell_zipWith ha hb hi]
      cases p.zipWith op.apply q <;> rfl
    | number y => simp only [cell, arithmetic, map_ok, Plane.cell_map ha hi]
    | _ => rfl
  | number x =>
    cases b with
    | band q => simp only [cell, arithmetic, map_ok, Plane.cell_map hb hi]
    | vector ys =>
      simp only [cell, arithmetic]
      split <;> rfl
    | _ => rfl
  | vector xs =>
    cases b with
    | vector ys =>
      simp only [cell, arithmetic]
      split
      · split <;> rfl
      · rfl
    | number y =>
      simp only [cell, arithmetic]
      split <;> rfl
    | _ => rfl
  | _ => cases b <;> rfl

/-- Comparisons work position by position. -/
theorem compare_cell (op : Comparison) (ha : a.Laid (.ofSize size)) (hb : b.Laid (.ofSize size))
    (hi : i < size.1 * size.2) :
    compare op (a.cell i) (b.cell i) = (compare op a b).map (cell i) := by
  cases a with
  | band p =>
    cases b with
    | band q =>
      simp only [cell, compare, Plane.cell_testWith ha hb hi]
      cases p.testWith op.apply q <;> rfl
    | number y => simp only [cell, compare, map_ok, Plane.cell_test ha hi]
    | _ => rfl
  | number x =>
    cases b with
    | band q => simp only [cell, compare, map_ok, Plane.cell_test hb hi]
    | _ => rfl
  | boolean x =>
    cases b with
    | boolean y =>
      simp only [cell, compare]
      split <;> rfl
    | _ => rfl
  | mask m =>
    cases b with
    | mask n =>
      simp only [cell, compare, Mask.cell_zipWith ha hb hi]
      split
      · cases m.zipWith _ n <;> rfl
      · rfl
    | _ => rfl
  | vector xs =>
    cases b with
    | vector ys =>
      simp only [cell, compare]
      split
      · split <;> rfl
      · rfl
    | _ => rfl
  | _ => cases b <;> rfl

/-- Connectives work position by position. -/
theorem connect_cell (op : Connective) (ha : a.Laid (.ofSize size)) (hb : b.Laid (.ofSize size))
    (hi : i < size.1 * size.2) :
    connect op (a.cell i) (b.cell i) = (connect op a b).map (cell i) := by
  cases a with
  | mask m =>
    cases b with
    | mask n =>
      simp only [cell, connect, Mask.cell_zipWith ha hb hi]
      cases m.zipWith op.apply n <;> rfl
    | boolean y => simp only [cell, connect, map_ok, Mask.cell_map ha hi]
    | _ => rfl
  | boolean x =>
    cases b with
    | mask n => simp only [cell, connect, map_ok, Mask.cell_map hb hi]
    | _ => rfl
  | number x =>
    cases b with
    | number y =>
      simp only [cell, connect]
      cases integerOperand op.text x with
      | ok j => cases integerOperand op.text y <;> rfl
      | error fault => rfl
    | _ => rfl
  | _ => cases b <;> rfl

/-- Membership in a range is tested position by position. -/
theorem within_cell (ha : a.Laid (.ofSize size)) (hi : i < size.1 * size.2) :
    within (a.cell i) (b.cell i) = (within a b).map (cell i) := by
  cases b with
  | range r =>
    cases a with
    | band p => simp only [cell, within, Range.containsPlane, map_ok, Plane.cell_test ha hi]
    | _ => rfl
  | _ => cases a <;> rfl

/-- An operator works position by position. -/
theorem binary_cell (op : BinaryOp) (ha : a.Laid (.ofSize size)) (hb : b.Laid (.ofSize size))
    (hi : i < size.1 * size.2) :
    binary op (a.cell i) (b.cell i) = (binary op a b).map (cell i) := by
  cases op with
  | arithmetic op => exact arithmetic_cell op ha hb hi
  | comparison op => exact compare_cell op ha hb hi
  | connective op => exact connect_cell op ha hb hi
  | within => exact within_cell ha hi

/-- A sign works position by position. -/
theorem unary_cell (op : UnaryOp) (ha : a.Laid (.ofSize size)) (hi : i < size.1 * size.2) :
    unary op (a.cell i) = (unary op a).map (cell i) := by
  cases op with
  | negate =>
    cases a with
    | band p => simp only [cell, unary, negate, map_ok, Plane.cell_map ha hi]
    | _ => rfl
  | invert =>
    cases a with
    | mask m => simp only [cell, unary, invert, Mask.complement, map_ok, Mask.cell_map ha hi]
    | number x =>
      simp only [cell, unary, invert]
      cases integerOperand "~" x <;> rfl
    | _ => rfl

/-- Saturation works position by position. -/
theorem saturate_cell (ha : a.Laid (.ofSize size)) (hi : i < size.1 * size.2) :
    saturate (a.cell i) = (saturate a).map (cell i) := by
  cases a with
  | band p => simp only [cell, saturate, map_ok, Plane.cell_map ha hi]
  | _ => rfl

/-- No plane or mask is a number. -/
@[simp] theorem requireNumber_cell (role : NumberRole) (i : Nat) (a : Value) :
    (a.cell i).requireNumber role = a.requireNumber role := by
  cases a <;> rfl

/-- No plane or mask bounds a slice. -/
@[simp] theorem sliceBound_cell (i : Nat) (a : Value) : (a.cell i).sliceBound = a.sliceBound := by
  cases a <;> rfl

/-- No plane or mask has items. -/
@[simp] theorem indexedItems_cell (i : Nat) (a : Value) :
    indexedItems (a.cell i) = indexedItems a := by
  cases a <;> rfl

/-- No plane or mask is selected from a vector, or selects from one. -/
theorem select_cell (items : List Number) (i : Nat) (b : Value) :
    select items (b.cell i) = (select items b).map (cell i) := by
  cases b with
  | slice s =>
    simp only [cell, select]
    cases s.apply items <;> rfl
  | number x =>
    simp only [cell, select]
    cases indexOfNumber x with
    | error fault => rfl
    | ok j =>
      rw [ok_bind]
      cases h : elementAt items j with
      | error fault => rfl
      | ok v =>
        obtain ⟨y, rfl⟩ := exists_number_of_elementAt h
        rfl
  | _ => rfl

end Value

/-! ## Variables -/

namespace Bindings

variable {α β : Type}

/-- A function applied to all values is applied to the one that is found. -/
theorem get?_map (f : α → β) (bs : Bindings α) (name : String) :
    get? (bs.map fun (key, value) => (key, f value)) name = (get? bs name).map f := by
  induction bs with
  | nil => rfl
  | cons b rest ih =>
    simp only [List.map_cons, get?, ih]
    split <;> rfl

/-- Names can be dropped before or after a function is applied to all values. -/
theorem erase_map (f : α → β) (bs : Bindings α) (name : String) :
    erase (bs.map fun (key, value) => (key, f value)) name =
      (erase bs name).map fun (key, value) => (key, f value) := by
  simp only [erase, List.filter_map]
  rfl

/-- Values can be bound before or after a function is applied to all values. -/
theorem insert_map (f : α → β) (bs : Bindings α) (name : String) (value : α) :
    insert (bs.map fun (key, value) => (key, f value)) name (f value) =
      (insert bs name value).map fun (key, value) => (key, f value) := by
  simp only [insert, erase_map, List.map_cons]

end Bindings

namespace Environment

variable {i : Nat} {env : Environment}

/-- A new scope has no values whose cells could differ. -/
theorem child_cell (i : Nat) (env : Environment) : (env.cell i).child = env.child.cell i := rfl

/-- The cell of a value can be bound where the value can. -/
theorem bind_cell (i : Nat) (env : Environment) (name : String) (value : Value) :
    (env.cell i).bind name (value.cell i) = (env.bind name value).cell i := by
  simp only [Environment.bind, cell, Layer.cell, Bindings.insert_map]

/-- What can be taken out of an environment of cells is the cell of what can be taken out, and
leaves the cells of what is left. -/
theorem take_cell (i : Nat) (env : Environment) (name : String) :
    (env.cell i).take name = ((env.take name).1.map (Value.cell i), (env.take name).2.cell i) := by
  simp only [take, cell, Layer.cell, Bindings.get?_map, Bindings.erase_map]

/-- Where a function is applied to the values of all scalar variables and keeps vectors, it is
applied to what is found for any variable. -/
theorem lookup_mapScalars {f : Value → Value} (hf : ∀ items, f (.vector items) = .vector items)
    (env : Environment) (x : Variable) :
    (env.mapScalars f).lookup x = (env.lookup x).map f := by
  have hlayers : (env.mapScalars f).layers = env.layers.map (Layer.mapScalars f) := rfl
  cases x with
  | scalar name =>
    simp only [lookup, scalar?, hlayers, List.findSome?_map]
    induction env.layers with
    | nil => rfl
    | cons scope rest ih =>
      simp only [List.findSome?_cons, Function.comp_apply, Layer.mapScalars, Bindings.get?_map]
      cases scope.scalars.get? name with
      | some v => rfl
      | none => simpa using ih
  | vector name =>
    have hvalues : f ∘ Value.vector = Value.vector := funext hf
    simp only [lookup, vector?, hlayers, List.findSome?_map, Option.map_map, hvalues]
    rfl

/-- A variable has the cell of its value. -/
theorem lookup_cell (i : Nat) (env : Environment) (x : Variable) :
    (env.cell i).lookup x = (env.lookup x).map (Value.cell i) :=
  lookup_mapScalars (fun _ => rfl) env x

/-- Cells can be assigned where their values can. -/
theorem assign_cell (i : Nat) (env : Environment) (x : Variable) (value : Value) :
    (env.cell i).assign x (value.cell i) = (env.assign x value).map (cell i) := by
  cases x with
  | scalar name => cases value <;> simp [assign, Value.cell, ← bind_cell]
  | vector name => cases value <;> rfl

end Environment

/-! ## Evaluation -/

variable {size : Nat × Nat} {i : Nat} {env : Environment}

/-- Expressions can be evaluated position by position. -/
theorem Expr.evaluate_cell (henv : env.Laid (.ofSize size)) (hi : i < size.1 * size.2) (e : Expr) :
    e.evaluate (env.cell i) = (e.evaluate env).map (Value.cell i) := by
  induction e with
  | number x => rfl
  | boolean b => rfl
  | none => rfl
  | var x =>
    simp only [evaluate, Environment.lookup_cell]
    cases env.lookup x <;> rfl
  | binary op left right ihl ihr =>
    simp only [evaluate, ihl, ihr, bind_map, map_bind]
    refine bind_congr_ok fun a ha => bind_congr_ok fun b hb => ?_
    exact Value.binary_cell op (laid_of_evaluate henv ha) (laid_of_evaluate henv hb) hi
  | unary op operand ih =>
    simp only [evaluate, ih, bind_map, map_bind]
    exact bind_congr_ok fun a ha => Value.unary_cell op (laid_of_evaluate henv ha) hi
  | range min max strictMin strictMax ihmin ihmax =>
    simp only [evaluate, ihmin, ihmax, bind_map, map_bind, Value.requireNumber_cell]
    rfl
  | slice start stop step ihstart ihstop ihstep =>
    have hbound : ∀ o : Option Expr,
        (∀ e ∈ o, e.evaluate (env.cell i) = (e.evaluate env).map (Value.cell i)) →
        evaluateBound (env.cell i) o = evaluateBound env o := by
      rintro (_ | e) h
      · rfl
      · simp only [evaluateBound, h e rfl, bind_map, Value.sliceBound_cell]
    simp only [evaluate, hbound start ihstart, hbound stop ihstop, hbound step ihstep, map_bind]
    rfl
  | vector items ih =>
    have hitems : evaluateItems (env.cell i) items = evaluateItems env items := by
      induction items with
      | nil => rfl
      | cons e rest ihrest =>
        simp only [evaluateItems, ih e List.mem_cons_self, bind_map, Value.requireNumber_cell,
          ihrest fun e he => ih e (List.mem_cons_of_mem _ he)]
    simp only [evaluate, hitems, map_bind]
    rfl
  | index vector position ihv ihp =>
    simp only [evaluate, ihv, ihp, bind_map, map_bind, Value.indexedItems_cell, Value.select_cell]
  | saturated inner ih =>
    simp only [evaluate, ih, bind_map, map_bind]
    exact bind_congr_ok fun a ha => Value.saturate_cell (laid_of_evaluate henv ha) hi

/-- Assignments can be run position by position. -/
theorem execute_cell (henv : env.Laid (.ofSize size)) (hi : i < size.1 * size.2)
    (statements : List Assignment) :
    execute statements (env.cell i) = (execute statements env).map (Environment.cell i) := by
  induction statements generalizing env with
  | nil => rfl
  | cons a rest ih =>
    have hrun : a.run (env.cell i) = (a.run env).map (Environment.cell i) := by
      simp only [Assignment.run, Expr.evaluate_cell henv hi, bind_map, map_bind,
        Environment.assign_cell]
    simp only [execute, hrun, bind_map, map_bind]
    exact bind_congr_ok fun next hnext => ih (Assignment.laid_of_run henv hnext)

/-- An environment in which no plane or mask is bound. -/
structure Environment.Plain (env : Environment) : Prop where
  laid : ∀ layout, env.Laid layout
  cell : ∀ i, env.cell i = env

/-- Assignments that start from nothing bind no planes and masks. -/
theorem plain_of_execute {statements : List Assignment}
    (h : execute statements .empty = .ok env) : env.Plain := by
  refine ⟨fun layout => laid_of_execute Environment.laid_empty h, fun i => ?_⟩
  have hcell := @execute_cell (i + 1, 1) i .empty Environment.laid_empty (by simp) statements
  rw [show Environment.empty.cell i = .empty from rfl, h] at hcell
  exact (Except.ok.inj hcell).symm

end Recolor
