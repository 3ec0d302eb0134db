import Recolor.Proofs.Evaluation

/-!
# The layout of computed planes and masks

A `Layout` is a condition on the width, the height and the number of values of a plane or a mask.
Operators make planes and masks out of others position by position, so that what they make is laid
out like one of their operands. Hence whatever layout the variables of an environment have, the
values of all expressions have it (`Expr.laid_of_evaluate`), and so have the variables after any
assignments (`laid_of_execute`).

Two layouts matter: to hold as many values as there are positions (`Layout.full`), and to do so in
one given size (`Layout.ofSize`).
-/

set_option autoImplicit false

namespace Recolor

/-- A condition on the width, the height and the number of values of a plane or a mask. -/
abbrev Layout := Nat → Nat → Nat → Prop

namespace Layout

/-- There are as many values as positions. -/
def full : Layout := fun width height count => count = width * height

/-- There are as many values as positions, in one given size. -/
def ofSize (size : Nat × Nat) : Layout :=
  fun width height count => (width, height) = size ∧ count = width * height

end Layout

namespace Value

/-- The value is no plane or mask, or one of the layout. -/
def Laid (layout : Layout) : Value → Prop
  | .band p => layout p.width p.height p.values.length
  | .mask m => layout m.width m.height m.bits.length
  | _ => True

end Value

/-! ## Planes and masks -/

section Buffers

variable {layout : Layout}

/-- Sizes that are required to be the same are. -/
theorem requireSameSize_eq_ok {left right : Nat × Nat} {u : Unit} :
    requireSameSize left right = .ok u ↔ left = right := by
  unfold requireSameSize
  split <;> simp_all

/-- Planes that combine have one size. -/
theorem Plane.zipWith_eq_ok {f : Number → Number → Number} {p q r : Plane} :
    p.zipWith f q = .ok r ↔
      p.size = q.size ∧ r = ⟨p.width, p.height, List.zipWith f p.values q.values⟩ := by
  simp only [Plane.zipWith, bind_eq_ok, requireSameSize_eq_ok, pure_eq_ok, Except.ok.injEq,
    exists_const, @eq_comm _ r]

/-- Planes that are tested together have one size. -/
theorem Plane.testWith_eq_ok {f : Number → Number → Bool} {p q : Plane} {m : Mask} :
    p.testWith f q = .ok m ↔
      p.size = q.size ∧ m = ⟨p.width, p.height, List.zipWith f p.values q.values⟩ := by
  simp only [Plane.testWith, bind_eq_ok, requireSameSize_eq_ok, pure_eq_ok, Except.ok.injEq,
    exists_const, @eq_comm _ m]

/-- Masks that combine have one size. -/
theorem Mask.zipWith_eq_ok {f : Bool → Bool → Bool} {m n r : Mask} :
    m.zipWith f n = .ok r ↔
      m.size = n.size ∧ r = ⟨m.width, m.height, List.zipWith f m.bits n.bits⟩ := by
  simp only [Mask.zipWith, bind_eq_ok, requireSameSize_eq_ok, pure_eq_ok, Except.ok.injEq,
    exists_const, @eq_comm _ r]

/-- The shorter of two lists is one of them, so a layout of both lists is one of their pairs. -/
theorem laid_min {width height m n : Nat} (hm : layout width height m)
    (hn : layout width height n) : layout width height (min m n) := by
  rcases Nat.le_total m n with h | h
  · rwa [Nat.min_eq_left h]
  · rwa [Nat.min_eq_right h]

/-- Two planes of a layout combine to a plane of the layout. -/
theorem Plane.laid_zipWith {f : Number → Number → Number} {p q r : Plane}
    (hp : (Value.band p).Laid layout) (hq : (Value.band q).Laid layout)
    (h : p.zipWith f q = .ok r) : (Value.band r).Laid layout := by
  obtain ⟨hsize, rfl⟩ := Plane.zipWith_eq_ok.1 h
  obtain ⟨hw, hh⟩ := Prod.mk.injEq .. ▸ hsize
  simp only [Value.Laid, List.length_zipWith] at hp hq ⊢
  exact laid_min hp (by rwa [hw, hh])

/-- Two planes of a layout are tested to a mask of the layout. -/
theorem Plane.laid_testWith {f : Number → Number → Bool} {p q : Plane} {m : Mask}
    (hp : (Value.band p).Laid layout) (hq : (Value.band q).Laid layout)
    (h : p.testWith f q = .ok m) : (Value.mask m).Laid layout := by
  obtain ⟨hsize, rfl⟩ := Plane.testWith_eq_ok.1 h
  obtain ⟨hw, hh⟩ := Prod.mk.injEq .. ▸ hsize
  simp only [Value.Laid, List.length_zipWith] at hp hq ⊢
  exact laid_min hp (by rwa [hw, hh])

/-- Two masks of a layout combine to a mask of the layout. -/
theorem Mask.laid_zipWith {f : Bool → Bool → Bool} {m n r : Mask}
    (hm : (Value.mask m).Laid layout) (hn : (Value.mask n).Laid layout)
    (h : m.zipWith f n = .ok r) : (Value.mask r).Laid layout := by
  obtain ⟨hsize, rfl⟩ := Mask.zipWith_eq_ok.1 h
  obtain ⟨hw, hh⟩ := Prod.mk.injEq .. ▸ hsize
  simp only [Value.Laid, List.length_zipWith] at hm hn ⊢
  exact laid_min hm (by rwa [hw, hh])

/-- A plane changed value by value keeps its layout. -/
theorem Plane.laid_map {f : Number → Number} {p : Plane} (hp : (Value.band p).Laid layout) :
    (Value.band (p.map f)).Laid layout := by
  simpa [Value.Laid, Plane.map] using hp

/-- A plane is tested to a mask of its layout. -/
theorem Plane.laid_test {f : Number → Bool} {p : Plane} (hp : (Value.band p).Laid layout) :
    (Value.mask (p.test f)).Laid layout := by
  simpa [Value.Laid, Plane.test] using hp

/-- A mask changed position by position keeps its layout. -/
theorem Mask.laid_map {f : Bool → Bool} {m : Mask} (hm : (Value.mask m).Laid layout) :
    (Value.mask (m.map f)).Laid layout := by
  simpa [Value.Laid, Mask.map] using hm

end Buffers

/-! ## Operators -/

namespace Value

variable {layout : Layout} {a b v : Value}

/-- Arithmetic on values of one layout makes a value of that layout. -/
theorem laid_arithmetic {op : Arithmetic} (ha : a.Laid layout) (hb : b.Laid layout)
    (h : arithmetic op a b = .ok v) : v.Laid layout := by
  unfold arithmetic at h
  split at h
  · cases h
    trivial
  · obtain ⟨r, hr, rfl⟩ := map_eq_ok.1 h
    exact Plane.laid_zipWith ha hb hr
  · cases h
    exact Plane.laid_map ha
  · cases h
    exact Plane.laid_map hb
  · split at h
    · split at h
      · cases h
        trivial
      · cases h
    · cases h
  · split at h
    · cases h
    · cases h
      trivial
  · split at h
    · cases h
      trivial
    · cases h
  · cases h

/-- Comparing values of one layout makes a value of that layout. -/
theorem laid_compare {op : Comparison} (ha : a.Laid layout) (hb : b.Laid layout)
    (h : compare op a b = .ok v) : v.Laid layout := by
  unfold compare at h
  split at h
  · cases h
    trivial
  · obtain ⟨m, hm, rfl⟩ := map_eq_ok.1 h
    exact Plane.laid_testWith ha hb hm
  · cases h
    exact Plane.laid_test ha
  · cases h
    exact Plane.laid_test hb
  · split at h
    · cases h
      trivial
    · cases h
  · split at h
    · obtain ⟨m, hm, rfl⟩ := map_eq_ok.1 h
      exact Mask.laid_zipWith ha hb hm
    · cases h
  · split at h
    · split at h
      · cases h
        trivial
      · cases h
    · cases h
  · cases h

/-- Joining values of one layout makes a value of that layout. -/
theorem laid_connect {op : Connective} (ha : a.Laid layout) (hb : b.Laid layout)
    (h : connect op a b = .ok v) : v.Laid layout := by
  unfold connect at h
  split at h
  · obtain ⟨m, hm, rfl⟩ := map_eq_ok.1 h
    exact Mask.laid_zipWith ha hb hm
  · cases h
    exact Mask.laid_map ha
  · cases h
    exact Mask.laid_map hb
  · cases h
    trivial
  · obtain ⟨i, -, h⟩ := bind_eq_ok.1 h
    obtain ⟨j, -, h⟩ := bind_eq_ok.1 h
    cases h
    trivial
  · cases h

/-- Testing a value for membership in a range makes a value of its layout. -/
theorem laid_within (ha : a.Laid layout) (h : within a b = .ok v) : v.Laid layout := by
  unfold within at h
  split at h
  · split at h
    · cases h
      trivial
    · cases h
      exact Plane.laid_test ha
    · cases h
  · cases h

/-- The value of an operator on two values of a layout has the layout. -/
theorem laid_binary {op : BinaryOp} (ha : a.Laid layout) (hb : b.Laid layout)
    (h : binary op a b = .ok v) : v.Laid layout := by
  cases op with
  | arithmetic op => exact laid_arithmetic ha hb h
  | comparison op => exact laid_compare ha hb h
  | connective op => exact laid_connect ha hb h
  | within => exact laid_within ha h

/-- Negating a value keeps its layout. -/
theorem laid_negate (ha : a.Laid layout) (h : negate a = .ok v) : v.Laid layout := by
  unfold negate at h
  split at h
  · cases h
    trivial
  · cases h
    exact Plane.laid_map ha
  · cases h
    trivial
  · cases h

/-- Inverting a value keeps its layout. -/
theorem laid_invert (ha : a.Laid layout) (h : invert a = .ok v) : v.Laid layout := by
  unfold invert at h
  split at h
  · cases h
    trivial
  · cases h
    exact Mask.laid_map ha
  · obtain ⟨i, -, h⟩ := bind_eq_ok.1 h
    cases h
    trivial
  · cases h

/-- The value of a sign in front of a value of a layout has the layout. -/
theorem laid_unary {op : UnaryOp} (ha : a.Laid layout) (h : unary op a = .ok v) :
    v.Laid layout := by
  cases op with
  | negate => exact laid_negate ha h
  | invert => exact laid_invert ha h

/-- A saturated value keeps its layout. -/
theorem laid_saturate (ha : a.Laid layout) (h : saturate a = .ok v) : v.Laid layout := by
  unfold saturate at h
  split at h
  · cases h
    trivial
  · cases h
    exact Plane.laid_map ha
  · cases h
    trivial
  · cases h

/-- What is selected from a vector is no plane or mask. -/
theorem laid_select {items : List Number} (h : select items b = .ok v) : v.Laid layout := by
  unfold select at h
  split at h
  · obtain ⟨xs, -, rfl⟩ := map_eq_ok.1 h
    trivial
  · obtain ⟨i, -, h⟩ := bind_eq_ok.1 h
    obtain ⟨x, rfl⟩ := exists_number_of_elementAt h
    trivial
  · cases h

end Value

/-! ## Environments and evaluation -/

/-- All values that are bound in a scope have a layout. -/
def Layer.Laid (layout : Layout) (scope : Layer) : Prop :=
  ∀ name v, scope.scalars.get? name = some v → v.Laid layout

namespace Environment

/-- All values that are bound in any scope have a layout. -/
def Laid (layout : Layout) (env : Environment) : Prop :=
  ∀ scope ∈ env.layers, scope.Laid layout

variable {layout : Layout} {env : Environment}

/-- Nothing is bound in the empty environment. -/
theorem laid_empty : empty.Laid layout := by
  intro scope hscope name v hv
  obtain rfl : scope = {} := by simpa [layers, empty] using hscope
  cases hv

/-- A new scope binds nothing. -/
theorem Laid.child (h : env.Laid layout) : env.child.Laid layout := by
  intro scope hscope
  rcases List.mem_cons.1 hscope with rfl | hmem
  · intro name v hv
    cases hv
  · exact h scope hmem

/-- A bound value of the layout does not disturb it. -/
theorem Laid.bind {name : String} {value : Value} (h : env.Laid layout)
    (hvalue : value.Laid layout) : (env.bind name value).Laid layout := by
  intro scope hscope
  rcases List.mem_cons.1 hscope with rfl | hmem
  · intro other v hv
    rw [Environment.bind, Bindings.get?_insert] at hv
    split at hv
    · cases hv
      exact hvalue
    · exact h env.inner List.mem_cons_self other v hv
  · exact h scope (List.mem_cons_of_mem _ hmem)

/-- Vectors are no planes or masks. -/
theorem Laid.bindVector {name : String} {items : List Number} (h : env.Laid layout) :
    (env.bindVector name items).Laid layout := by
  intro scope hscope
  rcases List.mem_cons.1 hscope with rfl | hmem
  · exact h env.inner List.mem_cons_self
  · exact h scope (List.mem_cons_of_mem _ hmem)

/-- Taking a variable out of its scope binds nothing. -/
theorem Laid.take (h : env.Laid layout) (name : String) : (env.take name).2.Laid layout := by
  intro scope hscope
  rcases List.mem_cons.1 hscope with rfl | hmem
  · intro other v hv
    rw [Environment.take, Bindings.get?_erase] at hv
    split at hv
    · cases hv
    · exact h env.inner List.mem_cons_self other v hv
  · exact h scope (List.mem_cons_of_mem _ hmem)

/-- A value that is taken out of the innermost scope has the layout. -/
theorem Laid.of_take (h : env.Laid layout) {name : String} {value : Value}
    (hvalue : (env.take name).1 = some value) : value.Laid layout :=
  h env.inner List.mem_cons_self name value hvalue

/-- A value that is found for a variable has the layout. -/
theorem Laid.of_lookup (h : env.Laid layout) {x : Variable} {v : Value}
    (hv : env.lookup x = some v) : v.Laid layout := by
  cases x with
  | scalar name =>
    obtain ⟨scope, hscope, hget⟩ := List.exists_of_findSome?_eq_some hv
    exact h scope hscope name v hget
  | vector name =>
    obtain ⟨items, -, rfl⟩ := Option.map_eq_some_iff.1 hv
    trivial

/-- All values that can be seen have a layout, while those that are hidden need not. -/
def Visible (layout : Layout) (env : Environment) : Prop :=
  ∀ x v, env.lookup x = some v → v.Laid layout

/-- What is laid out in an environment is so where it can be seen. -/
theorem Laid.visible (h : env.Laid layout) : env.Visible layout := fun _ _ hv => h.of_lookup hv

/-- An assignment of a value of the layout keeps it. -/
theorem Laid.assign (h : env.Laid layout) {x : Variable} {value : Value} {next : Environment}
    (hvalue : value.Laid layout) (hnext : env.assign x value = .ok next) : next.Laid layout := by
  rcases cases_of_assign hnext with ⟨name, items, -, -, rfl⟩ | ⟨name, -, -, rfl⟩
  · exact h.bindVector
  · exact h.bind hvalue

end Environment

variable {layout : Layout} {env : Environment}

/-- If all variables that can be seen have a layout, the value of an expression has it. -/
theorem Expr.laid_of_evaluate_visible {e : Expr} {v : Value} (henv : env.Visible layout)
    (h : e.evaluate env = .ok v) : v.Laid layout := by
  induction e generalizing v with
  | number x => cases h; trivial
  | boolean b => cases h; trivial
  | none => cases h; trivial
  | var x => exact henv x v (evaluate_variable_eq_ok.1 h)
  | binary op left right ihl ihr =>
    obtain ⟨a, ha, b, hb, hv⟩ := evaluate_binary_eq_ok.1 h
    exact Value.laid_binary (ihl ha) (ihr hb) hv
  | unary op operand ih =>
    obtain ⟨a, ha, hv⟩ := evaluate_unary_eq_ok.1 h
    exact Value.laid_unary (ih ha) hv
  | range min max strictMin strictMax _ _ =>
    obtain ⟨low, -, high, -, rfl⟩ := evaluate_range_eq_ok.1 h
    trivial
  | slice start stop step _ _ _ =>
    obtain ⟨first, -, last, -, stride, -, rfl⟩ := evaluate_slice_eq_ok.1 h
    trivial
  | vector items _ =>
    obtain ⟨xs, -, rfl⟩ := evaluate_vector_eq_ok.1 h
    trivial
  | index vector position _ _ =>
    obtain ⟨items, -, b, -, hv⟩ := evaluate_index_eq_ok.1 h
    exact Value.laid_select hv
  | saturated inner ih =>
    obtain ⟨a, ha, hv⟩ := evaluate_saturated_eq_ok.1 h
    exact Value.laid_saturate (ih ha) hv

/-- If all variables have a layout, the value of an expression has it. -/
theorem Expr.laid_of_evaluate {e : Expr} {v : Value} (henv : env.Laid layout)
    (h : e.evaluate env = .ok v) : v.Laid layout :=
  laid_of_evaluate_visible henv.visible h

/-- One assignment keeps the layout of the variables. -/
theorem Assignment.laid_of_run {a : Assignment} {next : Environment} (henv : env.Laid layout)
    (h : a.run env = .ok next) : next.Laid layout := by
  obtain ⟨value, hvalue, hnext⟩ := bind_eq_ok.1 h
  exact henv.assign (Expr.laid_of_evaluate henv hvalue) hnext

/-- Assignments keep the layout of the variables. -/
theorem laid_of_execute {statements : List Assignment} {final : Environment}
    (henv : env.Laid layout) (h : execute statements env = .ok final) : final.Laid layout := by
  induction statements generalizing env with
  | nil =>
    cases h
    exact henv
  | cons a rest ih =>
    obtain ⟨next, hnext, hrest⟩ := bind_eq_ok.1 h
    exact ih (Assignment.laid_of_run henv hnext) hrest

end Recolor
