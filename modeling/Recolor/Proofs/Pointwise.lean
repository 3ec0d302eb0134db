import Recolor.Proofs.Cell

/-!
# Expressions over bands are formulas for pixels

At one position a plane is a number and a mask is a truth value. Whatever an operator makes of
planes and masks of one size, at each position it makes the same of the numbers and the truth values
there (`Value.binary_atPosition` and its like), so that an expression over bands is evaluated pixel
by pixel with the rules for numbers and truth values alone (`Expr.evaluate_atPosition`).

Only success passes to a position. The connectives do not take planes, but they take the integers
that planes may hold.
-/

set_option autoImplicit false

namespace Recolor

/-- The number that a plane holds at position `i`. -/
def Plane.valueAt (i : Nat) (p : Plane) : Number := p.values.getD i 0

/-- The truth value that a mask holds at position `i`. -/
def Mask.valueAt (i : Nat) (m : Mask) : Bool := m.bits.getD i false

/-- The value with what it holds at position `i` in the place of a plane or a mask: a number, or a
truth value. -/
def Value.atPosition (i : Nat) : Value → Value
  | .band p => .number (p.valueAt i)
  | .mask m => .boolean (m.valueAt i)
  | v => v

/-- The environment as it is at position `i`. -/
def Environment.atPosition (i : Nat) (env : Environment) : Environment :=
  env.mapScalars (Value.atPosition i)

/-! ## Planes and masks -/

section Buffers

variable {size : Nat × Nat} {i : Nat}

/-- A function is applied to the number that a plane has at a position. -/
theorem Plane.valueAt_map {f : Number → Number} {p : Plane}
    (hp : (Value.band p).Laid (.ofSize size)) (hi : i < size.1 * size.2) :
    (p.map f).valueAt i = f (p.valueAt i) := by
  have hcell := congrArg Plane.values (Plane.cell_map (f := f) hp hi)
  exact List.singleton_inj.1 hcell

/-- A test is made of the number that a plane has at a position. -/
theorem Plane.valueAt_test {f : Number → Bool} {p : Plane}
    (hp : (Value.band p).Laid (.ofSize size)) (hi : i < size.1 * size.2) :
    (p.test f).valueAt i = f (p.valueAt i) := by
  have hcell := congrArg Mask.bits (Plane.cell_test (f := f) hp hi)
  exact List.singleton_inj.1 hcell

/-- A function is applied to the truth value that a mask has at a position. -/
theorem Mask.valueAt_map {f : Bool → Bool} {m : Mask}
    (hm : (Value.mask m).Laid (.ofSize size)) (hi : i < size.1 * size.2) :
    (m.map f).valueAt i = f (m.valueAt i) := by
  have hcell := congrArg Mask.bits (Mask.cell_map (f := f) hm hi)
  exact List.singleton_inj.1 hcell

/-- A combination of planes has at a position the combination of the numbers there. -/
theorem Plane.valueAt_zipWith {f : Number → Number → Number} {p q r : Plane}
    (hp : (Value.band p).Laid (.ofSize size)) (hq : (Value.band q).Laid (.ofSize size))
    (hi : i < size.1 * size.2) (h : p.zipWith f q = .ok r) :
    r.valueAt i = f (p.valueAt i) (q.valueAt i) := by
  have hcell := Plane.cell_zipWith (f := f) hp hq hi
  rw [h] at hcell
  obtain ⟨-, hr⟩ := Plane.zipWith_eq_ok.1 hcell
  exact List.singleton_inj.1 (congrArg Plane.values hr)

/-- A comparison of planes has at a position the comparison of the numbers there. -/
theorem Plane.valueAt_testWith {f : Number → Number → Bool} {p q : Plane} {m : Mask}
    (hp : (Value.band p).Laid (.ofSize size)) (hq : (Value.band q).Laid (.ofSize size))
    (hi : i < size.1 * size.2) (h : p.testWith f q = .ok m) :
    m.valueAt i = f (p.valueAt i) (q.valueAt i) := by
  have hcell := Plane.cell_testWith (f := f) hp hq hi
  rw [h] at hcell
  obtain ⟨-, hm⟩ := Plane.testWith_eq_ok.1 hcell
  exact List.singleton_inj.1 (congrArg Mask.bits hm)

/-- A combination of masks has at a position the combination of the truth values there. -/
theorem Mask.valueAt_zipWith {f : Bool → Bool → Bool} {m n r : Mask}
    (hm : (Value.mask m).Laid (.ofSize size)) (hn : (Value.mask n).Laid (.ofSize size))
    (hi : i < size.1 * size.2) (h : m.zipWith f n = .ok r) :
    r.valueAt i = f (m.valueAt i) (n.valueAt i) := by
  have hcell := Mask.cell_zipWith (f := f) hm hn hi
  rw [h] at hcell
  obtain ⟨-, hr⟩ := Mask.zipWith_eq_ok.1 hcell
  exact List.singleton_inj.1 (congrArg Mask.bits hr)

end Buffers

/-! ## Operators -/

namespace Value

variable {size : Nat × Nat} {i : Nat} {a b v : Value}

/-- Arithmetic on the values at a position makes the value at that position. -/
theorem arithmetic_atPosition {op : Arithmetic} (ha : a.Laid (.ofSize size))
    (hb : b.Laid (.ofSize size)) (hi : i < size.1 * size.2) (h : arithmetic op a b = .ok v) :
    arithmetic op (a.atPosition i) (b.atPosition i) = .ok (v.atPosition i) := by
  unfold arithmetic at h
  split at h
  · cases h
    rfl
  next p q =>
    obtain ⟨r, hr, rfl⟩ := map_eq_ok.1 h
    show arithmetic op (.number (p.valueAt i)) (.number (q.valueAt i)) = .ok (.number (r.valueAt i))
    rw [Plane.valueAt_zipWith ha hb hi hr]
    rfl
  next p y =>
    cases h
    show arithmetic op (.number (p.valueAt i)) (.number y) = .ok (.number (Plane.valueAt i _))
    rw [Plane.valueAt_map ha hi]
    rfl
  next x q =>
    -- the number stays the left operand at each position
    cases h
    show arithmetic op (.number x) (.number (q.valueAt i)) = .ok (.number (Plane.valueAt i _))
    rw [Plane.valueAt_map hb hi]
    rfl
  next xs ys =>
    split at h
    next hadditive =>
      split at h
      next hlength =>
        cases h
        simp [atPosition, arithmetic, hadditive, hlength]
      next => cases h
    next => cases h
  next xs y =>
    split at h
    next => cases h
    next hadditive =>
      cases h
      simp [atPosition, arithmetic, hadditive]
  next x ys =>
    split at h
    next hmul =>
      cases h
      simp [atPosition, arithmetic, hmul]
    next => cases h
  next => cases h

/-- Comparing the values at a position makes the value at that position. -/
theorem compare_atPosition {op : Comparison} (ha : a.Laid (.ofSize size))
    (hb : b.Laid (.ofSize size)) (hi : i < size.1 * size.2) (h : compare op a b = .ok v) :
    compare op (a.atPosition i) (b.atPosition i) = .ok (v.atPosition i) := by
  unfold compare at h
  split at h
  · cases h
    rfl
  next p q =>
    obtain ⟨m, hm, rfl⟩ := map_eq_ok.1 h
    show compare op (.number (p.valueAt i)) (.number (q.valueAt i)) = .ok (.boolean (m.valueAt i))
    rw [Plane.valueAt_testWith ha hb hi hm]
    rfl
  next p y =>
    cases h
    show compare op (.number (p.valueAt i)) (.number y) = .ok (.boolean (Mask.valueAt i _))
    rw [Plane.valueAt_test ha hi]
    rfl
  next x q =>
    cases h
    show compare op (.number x) (.number (q.valueAt i)) = .ok (.boolean (Mask.valueAt i _))
    rw [Plane.valueAt_test hb hi]
    rfl
  next x y =>
    split at h
    next hequality =>
      cases h
      simp [atPosition, compare, hequality]
    next => cases h
  next m n =>
    -- masks are equal position by position, so at a position two truth values are compared
    split at h
    next hequality =>
      obtain ⟨r, hr, rfl⟩ := map_eq_ok.1 h
      show compare op (.boolean (m.valueAt i)) (.boolean (n.valueAt i)) =
        .ok (.boolean (r.valueAt i))
      rw [Mask.valueAt_zipWith ha hb hi hr, compare, if_pos hequality]
    next => cases h
  next xs ys =>
    split at h
    next hequality =>
      split at h
      next hlength =>
        cases h
        simp [atPosition, compare, hequality, hlength]
      next => cases h
    next => cases h
  next => cases h

/-- Joining the values at a position makes the value at that position. -/
theorem connect_atPosition {op : Connective} (ha : a.Laid (.ofSize size))
    (hb : b.Laid (.ofSize size)) (hi : i < size.1 * size.2) (h : connect op a b = .ok v) :
    connect op (a.atPosition i) (b.atPosition i) = .ok (v.atPosition i) := by
  unfold connect at h
  split at h
  next m n =>
    obtain ⟨r, hr, rfl⟩ := map_eq_ok.1 h
    show connect op (.boolean (m.valueAt i)) (.boolean (n.valueAt i)) = .ok (.boolean (r.valueAt i))
    rw [Mask.valueAt_zipWith ha hb hi hr]
    rfl
  next m y =>
    cases h
    show connect op (.boolean (m.valueAt i)) (.boolean y) = .ok (.boolean (Mask.valueAt i _))
    rw [Mask.valueAt_map ha hi]
    rfl
  next x n =>
    cases h
    show connect op (.boolean x) (.boolean (n.valueAt i)) = .ok (.boolean (Mask.valueAt i _))
    rw [Mask.valueAt_map hb hi]
    rfl
  · cases h
    rfl
  next x y =>
    obtain ⟨j, hj, hv⟩ := bind_eq_ok.1 h
    obtain ⟨k, hk, hv⟩ := bind_eq_ok.1 hv
    cases hv
    exact h
  next => cases h

/-- Testing the value at a position for membership makes the value at that position. -/
theorem within_atPosition (ha : a.Laid (.ofSize size)) (hi : i < size.1 * size.2)
    (h : within a b = .ok v) : within (a.atPosition i) (b.atPosition i) = .ok (v.atPosition i) := by
  unfold within at h
  split at h
  next r =>
    split at h
    next x =>
      cases h
      rfl
    next p =>
      cases h
      show within (.number (p.valueAt i)) (.range r) =
        .ok (.boolean ((p.test r.contains).valueAt i))
      rw [Plane.valueAt_test ha hi]
      rfl
    next => cases h
  next => cases h

/-- What an operator makes of two values, it makes of them at each position. -/
theorem binary_atPosition {op : BinaryOp} (ha : a.Laid (.ofSize size)) (hb : b.Laid (.ofSize size))
    (hi : i < size.1 * size.2) (h : binary op a b = .ok v) :
    binary op (a.atPosition i) (b.atPosition i) = .ok (v.atPosition i) := by
  cases op with
  | arithmetic op => exact arithmetic_atPosition ha hb hi h
  | comparison op => exact compare_atPosition ha hb hi h
  | connective op => exact connect_atPosition ha hb hi h
  | within => exact within_atPosition ha hi h

/-- Negating the value at a position makes the value at that position. -/
theorem negate_atPosition (ha : a.Laid (.ofSize size)) (hi : i < size.1 * size.2)
    (h : negate a = .ok v) : negate (a.atPosition i) = .ok (v.atPosition i) := by
  unfold negate at h
  split at h
  · cases h
    rfl
  next p =>
    cases h
    show negate (.number (p.valueAt i)) = .ok (.number (Plane.valueAt i _))
    rw [Plane.valueAt_map ha hi]
    rfl
  · cases h
    rfl
  next => cases h

/-- Inverting the value at a position makes the value at that position. -/
theorem invert_atPosition (ha : a.Laid (.ofSize size)) (hi : i < size.1 * size.2)
    (h : invert a = .ok v) : invert (a.atPosition i) = .ok (v.atPosition i) := by
  unfold invert at h
  split at h
  · cases h
    rfl
  next m =>
    cases h
    show invert (.boolean (m.valueAt i)) = .ok (.boolean ((m.map (!·)).valueAt i))
    rw [Mask.valueAt_map ha hi]
    rfl
  next x =>
    obtain ⟨j, hj, hv⟩ := bind_eq_ok.1 h
    cases hv
    exact h
  next => cases h

/-- What a sign makes of a value, it makes of it at each position. -/
theorem unary_atPosition {op : UnaryOp} (ha : a.Laid (.ofSize size)) (hi : i < size.1 * size.2)
    (h : unary op a = .ok v) : unary op (a.atPosition i) = .ok (v.atPosition i) := by
  cases op with
  | negate => exact negate_atPosition ha hi h
  | invert => exact invert_atPosition ha hi h

/-- Saturating the value at a position makes the value at that position. -/
theorem saturate_atPosition (ha : a.Laid (.ofSize size)) (hi : i < size.1 * size.2)
    (h : saturate a = .ok v) : saturate (a.atPosition i) = .ok (v.atPosition i) := by
  unfold saturate at h
  split at h
  · cases h
    rfl
  next p =>
    cases h
    show saturate (.number (p.valueAt i)) = .ok (.number (Plane.valueAt i _))
    rw [Plane.valueAt_map ha hi]
    rfl
  · cases h
    rfl
  next => cases h

/-- Planes and masks neither bound slices nor stand for absent bounds. -/
theorem sliceBound_atPosition {bound : Option Int64} (h : a.sliceBound = .ok bound) :
    (a.atPosition i).sliceBound = .ok bound := by
  cases a with
  | none => exact h
  | number x => exact h
  | _ => cases h

/-- What is selected from a vector is selected at each position, planes and masks selecting
nothing. -/
theorem select_atPosition {items : List Number} (h : select items b = .ok v) :
    select items (b.atPosition i) = .ok (v.atPosition i) := by
  cases b with
  | slice s =>
    obtain ⟨xs, hxs, rfl⟩ := map_eq_ok.1 h
    exact h
  | number x =>
    obtain ⟨j, hj, hv⟩ := bind_eq_ok.1 h
    obtain ⟨y, rfl⟩ := exists_number_of_elementAt hv
    exact h
  | _ => cases h

end Value

/-! ## Expressions -/

namespace Expr

variable {env : Environment} {i : Nat}

/-- The elements of a vector are the same at each position. -/
theorem evaluateItems_atPosition {items : List Expr} {xs : List Number}
    (ih : ∀ e ∈ items, ∀ {v : Value}, e.evaluate env = .ok v →
      e.evaluate (env.atPosition i) = .ok (v.atPosition i))
    (h : evaluateItems env items = .ok xs) : evaluateItems (env.atPosition i) items = .ok xs := by
  induction items generalizing xs with
  | nil => exact h
  | cons e rest ihrest =>
    obtain ⟨x, hx, more, hmore, rfl⟩ := evaluateItems_cons_eq_ok.1 h
    have hfirst := ih e List.mem_cons_self hx
    have hrest := ihrest (fun e he => ih e (List.mem_cons_of_mem _ he)) hmore
    exact evaluateItems_cons_eq_ok.2 ⟨x, hfirst, more, hrest, rfl⟩

/-- The bound of a slice is the same at each position. -/
theorem evaluateBound_atPosition {o : Option Expr} {bound : Option Int64}
    (ih : ∀ e ∈ o, ∀ {v : Value}, e.evaluate env = .ok v →
      e.evaluate (env.atPosition i) = .ok (v.atPosition i))
    (h : evaluateBound env o = .ok bound) : evaluateBound (env.atPosition i) o = .ok bound := by
  cases o with
  | none => exact h
  | some e =>
    obtain ⟨a, ha, hbound⟩ := bind_eq_ok.1 h
    exact bind_eq_ok.2 ⟨_, ih e rfl ha, Value.sliceBound_atPosition hbound⟩

/-- An expression over planes and masks of one size means its formula for each position: with the
numbers and truth values at a position in the place of all planes and masks, it has the value that
it has at this position. Planes and masks that are hidden by other variables may have any size. -/
theorem evaluate_atPosition {width height : Nat} (e : Expr)
    (henv : env.Visible (.ofSize (width, height))) (hi : i < width * height) {v : Value}
    (h : e.evaluate env = .ok v) : e.evaluate (env.atPosition i) = .ok (v.atPosition i) := by
  induction e generalizing v with
  | number x =>
    cases h
    rfl
  | boolean b =>
    cases h
    rfl
  | none =>
    cases h
    rfl
  | var x =>
    have hx : env.lookup x = some v := evaluate_variable_eq_ok.1 h
    apply evaluate_variable_eq_ok.2
    rw [Environment.atPosition, Environment.lookup_mapScalars (fun _ => rfl), hx]
    rfl
  | binary op left right ihl ihr =>
    obtain ⟨a, ha, b, hb, hv⟩ := evaluate_binary_eq_ok.1 h
    have halaid := laid_of_evaluate_visible henv ha
    have hblaid := laid_of_evaluate_visible henv hb
    have hop := Value.binary_atPosition halaid hblaid hi hv
    exact evaluate_binary_eq_ok.2 ⟨_, ihl ha, _, ihr hb, hop⟩
  | unary op operand ih =>
    obtain ⟨a, ha, hv⟩ := evaluate_unary_eq_ok.1 h
    have hop := Value.unary_atPosition (laid_of_evaluate_visible henv ha) hi hv
    exact evaluate_unary_eq_ok.2 ⟨_, ih ha, hop⟩
  | range min max strictMin strictMax ihmin ihmax =>
    obtain ⟨low, hlow, high, hhigh, rfl⟩ := evaluate_range_eq_ok.1 h
    exact evaluate_range_eq_ok.2 ⟨low, ihmin hlow, high, ihmax hhigh, rfl⟩
  | slice start stop step ihstart ihstop ihstep =>
    obtain ⟨first, hfirst, last, hlast, stride, hstride, rfl⟩ := evaluate_slice_eq_ok.1 h
    have hfirst := evaluateBound_atPosition ihstart hfirst
    have hlast := evaluateBound_atPosition ihstop hlast
    have hstride := evaluateBound_atPosition ihstep hstride
    exact evaluate_slice_eq_ok.2 ⟨first, hfirst, last, hlast, stride, hstride, rfl⟩
  | vector items ih =>
    obtain ⟨xs, hxs, rfl⟩ := evaluate_vector_eq_ok.1 h
    exact evaluate_vector_eq_ok.2 ⟨xs, evaluateItems_atPosition ih hxs, rfl⟩
  | index vector position ihv ihp =>
    obtain ⟨items, hitems, b, hb, hv⟩ := evaluate_index_eq_ok.1 h
    exact evaluate_index_eq_ok.2 ⟨items, ihv hitems, _, ihp hb, Value.select_atPosition hv⟩
  | saturated inner ih =>
    obtain ⟨a, ha, hv⟩ := evaluate_saturated_eq_ok.1 h
    have hop := Value.saturate_atPosition (laid_of_evaluate_visible henv ha) hi hv
    exact evaluate_saturated_eq_ok.2 ⟨_, ih ha, hop⟩

/-- The expression `0.5 - $g < $g` over a band of two numbers, and at the second of them. -/
theorem evaluate_atPosition_half :
    (Environment.empty.bind "g" (.band ⟨2, 1, [0.25, 0.75]⟩)).Visible (.ofSize (2, 1)) ∧
      evaluate (Environment.empty.bind "g" (.band ⟨2, 1, [0.25, 0.75]⟩))
        (.binary (.comparison .lt) (.binary (.arithmetic .sub) (.number 0.5)
          (.variable (.scalar "g"))) (.variable (.scalar "g"))) =
            .ok (.mask ⟨2, 1, [false, true]⟩) ∧
      evaluate ((Environment.empty.bind "g" (.band ⟨2, 1, [0.25, 0.75]⟩)).atPosition 1)
        (.binary (.comparison .lt) (.binary (.arithmetic .sub) (.number 0.5)
          (.variable (.scalar "g"))) (.variable (.scalar "g"))) = .ok (.boolean true) := by
  have hvisible :
      (Environment.empty.bind "g" (.band ⟨2, 1, [0.25, 0.75]⟩)).Visible (.ofSize (2, 1)) := by
    intro x v hv
    cases x with
    | scalar name =>
      replace hv : (Environment.empty.bind "g" _).scalar? name = some v := hv
      rw [Environment.scalar?_bind] at hv
      split at hv
      · cases hv
        exact ⟨rfl, rfl⟩
      · cases hv
    | vector name => cases hv
  have hfirst : decide ((0.5 : Number) - 0.25 < 0.25) = false := by decide +kernel
  have hsecond : decide ((0.5 : Number) - 0.75 < 0.75) = true := by decide +kernel
  have h : evaluate (Environment.empty.bind "g" (.band ⟨2, 1, [0.25, 0.75]⟩))
      (.binary (.comparison .lt) (.binary (.arithmetic .sub) (.number 0.5)
        (.variable (.scalar "g"))) (.variable (.scalar "g"))) =
      .ok (.mask ⟨2, 1, [decide ((0.5 : Number) - 0.25 < 0.25),
        decide ((0.5 : Number) - 0.75 < 0.75)]⟩) := rfl
  rw [hfirst, hsecond] at h
  exact ⟨hvisible, h, evaluate_atPosition _ hvisible (by decide) h⟩

end Expr

end Recolor
