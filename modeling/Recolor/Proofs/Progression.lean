import Mathlib.Tactic.NormNum
import Mathlib.Tactic.Ring
import Recolor.Proofs.Outcome
import Recolor.Value.Slice

/-!
# Slices are arithmetic progressions

A slice walks through a list on 64-bit integers: it brings its bounds into range, and adds the step
until it has come to the last place or the sum is no 64-bit integer any more. Over unbounded
integers it is an arithmetic progression that is read for as long as it stays in front of its limit
(`Progression`). Both are the same on every list whose length is a 64-bit integer: a bound is only
moved where the sum is in range (`toInt_resolve`), and a sum that is out of range lies behind the
limit (`progression_ascend`, `progression_descend`).
-/

set_option autoImplicit false

namespace Recolor.Slice

/-! ## Slices over unbounded integers -/

/-- A bound with `n` added if it is negative, brought between `low` and `high`. -/
def place (n low high bound : Int) : Int :=
  max low (min high (if bound < 0 then bound + n else bound))

/-- The step, or one. -/
def stride (s : Slice) : Int := (s.step.getD 1).toInt

/-- The first place in a list of `n` items. -/
def first (s : Slice) (n : Int) : Int :=
  if 0 < s.stride then (s.start.map fun bound => place n 0 n bound.toInt).getD 0
  else (s.start.map fun bound => place n (-1) (n - 1) bound.toInt).getD (n - 1)

/-- The place to stop before in a list of `n` items. -/
def limit (s : Slice) (n : Int) : Int :=
  if 0 < s.stride then (s.stop.map fun bound => place n 0 n bound.toInt).getD n
  else (s.stop.map fun bound => place n (-1) (n - 1) bound.toInt).getD (-1)

/-- The place `i` is not yet the limit: it lies below for a positive step, and above for another. -/
def Before (step limit i : Int) : Prop := if 0 < step then i < limit else limit < i

/-- The items at `first`, `first + step`, … for as long as the place lies before the limit. None of
these places lies outside of the list. -/
structure Progression (items : List Number) (step first limit : Int) (out : List Number) :
    Prop where
  before : ∀ k < out.length, Before step limit (first + k * step)
  stops : ¬Before step limit (first + out.length * step)
  inside : ∀ k < out.length, 0 ≤ first + k * step ∧ first + k * step < items.length
  item : ∀ k < out.length, out[k]? = items[(first + k * step).toNat]?

section Progression

variable {items out : List Number} {step first limit : Int} {x : Number}

/-- There are no items if the first place is not before the limit. -/
theorem Progression.nil (h : ¬Before step limit first) :
    Progression items step first limit [] where
  before k hk := absurd hk (Nat.not_lt_zero k)
  stops := by simpa using h
  inside k hk := absurd hk (Nat.not_lt_zero k)
  item k hk := absurd hk (Nat.not_lt_zero k)

/-- A progression can be prolonged by a step in front. -/
theorem Progression.cons (h : Before step limit first)
    (hinside : 0 ≤ first ∧ first < items.length) (hx : items[first.toNat]? = some x)
    (hrest : Progression items step (first + step) limit out) :
    Progression items step first limit (x :: out) := by
  have hnext : ∀ k : Nat, first + step + k * step = first + (k + 1 : Nat) * step := by
    intro k
    push_cast
    ring
  refine ⟨?_, ?_, ?_, ?_⟩
  · intro k hk
    cases k with
    | zero => simpa using h
    | succ k => exact hnext k ▸ hrest.before k (Nat.lt_of_succ_lt_succ hk)
  · rw [List.length_cons, ← hnext]
    exact hrest.stops
  · intro k hk
    cases k with
    | zero => simpa using hinside
    | succ k => exact hnext k ▸ hrest.inside k (Nat.lt_of_succ_lt_succ hk)
  · intro k hk
    cases k with
    | zero => simpa using hx.symm
    | succ k => exact hnext k ▸ hrest.item k (Nat.lt_of_succ_lt_succ hk)

end Progression

/-! ## Sums of 64-bit integers -/

section Words

variable {a b c i step stop : Int64} {items : List Number}

/-- A checked sum is missing exactly if the sum is no 64-bit integer. -/
theorem checkedAdd_eq_none_iff :
    checkedAdd a b = none ↔ ¬(-2 ^ 63 ≤ a.toInt + b.toInt ∧ a.toInt + b.toInt < 2 ^ 63) := by
  have low : Int64.minValue.toInt = -2 ^ 63 := by decide
  have high : Int64.maxValue.toInt = 2 ^ 63 - 1 := by decide
  unfold checkedAdd
  rw [low, high]
  split
  next h => simp only [reduceCtorEq, false_iff, not_not]; omega
  next h => simp only [true_iff]; omega

/-- The number of items does not change as a 64-bit integer. -/
theorem toInt_ofNat_length (h : items.length < 2 ^ 63) :
    (Int64.ofNat items.length).toInt = items.length :=
  Int64.toInt_ofNat_of_lt h

/-- A negative bound can be counted from the end without leaving the 64-bit integers. -/
theorem toInt_add_length (hlength : items.length < 2 ^ 63) (hbound : b < 0) :
    (b + Int64.ofNat items.length).toInt = b.toInt + items.length := by
  have hlow := Int64.le_toInt b
  have hneg : b.toInt < 0 := Int64.lt_iff_toInt_lt.1 hbound
  rw [Int64.toInt_add, toInt_ofNat_length hlength]
  exact Int.bmod_eq_of_le (by omega) (by omega)

/-- The place of the last item, or minus one, does not change as a 64-bit integer either. -/
theorem toInt_length_sub_one (h : items.length < 2 ^ 63) :
    (Int64.ofNat items.length - 1).toInt = items.length - 1 := by
  have hone : (1 : Int64).toInt = 1 := by decide
  rw [Int64.toInt_sub, toInt_ofNat_length h, hone]
  exact Int.bmod_eq_of_le (by omega) (by omega)

/-- A bound is brought into range on 64-bit integers as it is on unbounded ones. -/
theorem toInt_resolve {low high bound : Int64} (hlength : items.length < 2 ^ 63)
    (h : low.toInt ≤ high.toInt) :
    (resolve (Int64.ofNat items.length) low high bound).toInt =
      place items.length low.toInt high.toInt bound.toInt := by
  have hzero : (0 : Int64).toInt = 0 := by decide
  have hmoved : (if bound < 0 then bound + Int64.ofNat items.length else bound).toInt =
      if bound.toInt < 0 then bound.toInt + items.length else bound.toInt := by
    simp only [Int64.lt_iff_toInt_lt, hzero]
    split
    next hneg => exact toInt_add_length hlength (Int64.lt_iff_toInt_lt.2 hneg)
    next => rfl
  unfold resolve place
  rw [← hmoved]
  generalize (if bound < 0 then bound + Int64.ofNat items.length else bound) = moved
  simp only [Int64.lt_iff_toInt_lt]
  split
  next => omega
  next =>
    split <;> omega

/-! ## Walks -/

/-- The item that is answered for a place inside a list is the one at that place. -/
theorem item_eq (h : 0 ≤ i.toInt ∧ i.toInt < items.length) :
    items[i.toInt.toNat]? = some (item items i) := by
  have hlt : i.toNatClampNeg < items.length := by
    rw [← Int64.toNat_toInt]
    omega
  rw [Int64.toNat_toInt, item, List.getD_eq_getElem?_getD, List.getElem?_eq_getElem hlt]
  rfl

/-- A walk that goes on takes the item at its place, and goes on from the sum with the step if that
is a 64-bit integer. -/
theorem ascend_of_lt (positive : 0 < step.toInt) (h : i.toInt < stop.toInt) :
    ascend items step stop i positive = item items i ::
      ((checkedAdd i step).map fun next => ascend items step stop next positive).getD [] := by
  rw [ascend, if_pos h]
  split
  next next hnext => rw [hnext, Option.map_some, Option.getD_some]
  next hnone => rw [hnone, Option.map_none, Option.getD_none]

/-- A slice with a negative step takes an item above its stop, and goes on if the next place is a
64-bit integer. -/
theorem descend_of_lt (negative : step.toInt < 0) (h : stop.toInt < i.toInt) :
    descend items step stop i negative = item items i ::
      ((checkedAdd i step).map fun next => descend items step stop next negative).getD [] := by
  rw [descend, if_pos h]
  split
  next next hnext => rw [hnext, Option.map_some, Option.getD_some]
  next hnone => rw [hnone, Option.map_none, Option.getD_none]

/-- A step of a walk in either direction. If its sum is no 64-bit integer, it must not lie before
the limit. -/
theorem progression_step {walk : Int64 → List Number} {limit : Int}
    (hbefore : Before step.toInt limit i.toInt) (hinside : 0 ≤ i.toInt ∧ i.toInt < items.length)
    (hnext : ∀ next, checkedAdd i step = some next →
      Progression items step.toInt next.toInt limit (walk next))
    (hnone : checkedAdd i step = none → ¬Before step.toInt limit (i.toInt + step.toInt)) :
    Progression items step.toInt i.toInt limit
      (item items i :: ((checkedAdd i step).map walk).getD []) := by
  refine .cons hbefore hinside (item_eq hinside) ?_
  cases h : checkedAdd i step with
  | some next =>
    rw [← toInt_of_checkedAdd h]
    exact hnext next h
  | none => exact .nil (hnone h)

/-- A walk upwards that begins in or behind the list, and ends in it or at its end. -/
theorem progression_ascend (positive : 0 < step.toInt) (hi : 0 ≤ i.toInt)
    (hstop : stop.toInt ≤ items.length) (hlength : items.length < 2 ^ 63) :
    Progression items step.toInt i.toInt stop.toInt (ascend items step stop i positive) := by
  have hbefore : ∀ j, Before step.toInt stop.toInt j ↔ j < stop.toInt := by
    intro j
    rw [Before, if_pos positive]
  induction i using ascend.induct step stop positive with
  | case1 i hlt ih =>
    rw [ascend_of_lt positive hlt]
    have hinside : 0 ≤ i.toInt ∧ i.toInt < items.length := by omega
    refine progression_step ((hbefore _).2 hlt) hinside ?_ ?_
    · intro next hnext
      have hsum := toInt_of_checkedAdd hnext
      exact ih next hnext (by omega)
    · -- the sum is too great for a 64-bit integer, and so for the list
      intro hnone
      have hsum := checkedAdd_eq_none_iff.1 hnone
      rw [hbefore]
      omega
  | case2 i hlt =>
    rw [ascend, if_neg hlt]
    exact .nil (mt (hbefore _).1 hlt)

/-- A walk downwards that begins in or in front of the list, and ends in it or in front of it. -/
theorem progression_descend (negative : step.toInt < 0) (hi : i.toInt < items.length)
    (hstop : -1 ≤ stop.toInt) (hlength : items.length < 2 ^ 63) :
    Progression items step.toInt i.toInt stop.toInt (descend items step stop i negative) := by
  have hbefore : ∀ j, Before step.toInt stop.toInt j ↔ stop.toInt < j := by
    intro j
    rw [Before, if_neg (by omega)]
  induction i using descend.induct step stop negative with
  | case1 i hlt ih =>
    rw [descend_of_lt negative hlt]
    have hinside : 0 ≤ i.toInt ∧ i.toInt < items.length := by omega
    refine progression_step ((hbefore _).2 hlt) hinside ?_ ?_
    · intro next hnext
      have hsum := toInt_of_checkedAdd hnext
      exact ih next hnext (by omega)
    · -- the sum is too small for a 64-bit integer, and so for the list
      intro hnone
      have hsum := checkedAdd_eq_none_iff.1 hnone
      rw [hbefore]
      omega
  | case2 i hlt =>
    rw [descend, if_neg hlt]
    exact .nil (mt (hbefore _).1 hlt)

end Words

/-! ## Slices -/

section Slices

variable {s : Slice} {items : List Number}

/-- An optional bound that is brought into range lies there, if the place for a missing one does. -/
theorem getD_place_mem {n low high default : Int} (h : low ≤ default ∧ default ≤ high)
    (bound : Option Int64) :
    low ≤ (bound.map fun b => place n low high b.toInt).getD default ∧
      (bound.map fun b => place n low high b.toInt).getD default ≤ high := by
  cases bound with
  | none => exact h
  | some b =>
    simp only [Option.map_some, Option.getD_some, place]
    omega

/-- An optional bound is brought into range on 64-bit integers as it is on unbounded ones. -/
theorem toInt_getD_resolve (low high default : Int64) (hlength : items.length < 2 ^ 63)
    (h : low.toInt ≤ high.toInt) (bound : Option Int64) :
    ((bound.map (resolve (Int64.ofNat items.length) low high)).getD default).toInt =
      (bound.map fun b => place items.length low.toInt high.toInt b.toInt).getD default.toInt := by
  cases bound with
  | none => rfl
  | some b => exact toInt_resolve hlength h

/-- With a positive step, the items of a slice are a progression upwards. -/
theorem apply_of_pos (hlength : items.length < 2 ^ 63) (hstep : 0 < s.stride) :
    ∃ out, s.apply items = .ok out ∧
      Progression items s.stride (s.first items.length) (s.limit items.length) out := by
  have hzero : (0 : Int64).toInt = 0 := by decide
  have hn := toInt_ofNat_length hlength
  have hresolve := fun default => toInt_getD_resolve 0 (Int64.ofNat items.length) default hlength
    (by omega)
  simp only [hzero, hn] at hresolve
  have hfirst := hresolve 0 s.start
  have hlimit := hresolve (Int64.ofNat items.length) s.stop
  rw [hzero] at hfirst
  rw [hn] at hlimit
  have hfirstMem := @getD_place_mem items.length 0 items.length 0 (by omega) s.start
  have hlimitMem := @getD_place_mem items.length 0 items.length items.length (by omega) s.stop
  rw [← hfirst] at hfirstMem
  rw [← hlimit] at hlimitMem
  rw [first, limit, if_pos hstep, if_pos hstep, ← hfirst, ← hlimit, apply]
  refine ⟨_, dif_pos hstep, ?_⟩
  exact progression_ascend hstep hfirstMem.1 hlimitMem.2 hlength

/-- With a negative step, the items of a slice are a progression downwards. -/
theorem apply_of_neg (hlength : items.length < 2 ^ 63) (hstep : s.stride < 0) :
    ∃ out, s.apply items = .ok out ∧
      Progression items s.stride (s.first items.length) (s.limit items.length) out := by
  have hone : (-1 : Int64).toInt = -1 := by decide
  have hn := toInt_length_sub_one hlength
  have hresolve := fun default => toInt_getD_resolve (-1) (Int64.ofNat items.length - 1) default
    hlength (by omega)
  simp only [hone, hn] at hresolve
  have hfirst := hresolve (Int64.ofNat items.length - 1) s.start
  have hlimit := hresolve (-1) s.stop
  rw [hn] at hfirst
  rw [hone] at hlimit
  have hfirstMem := @getD_place_mem items.length (-1) (items.length - 1) (items.length - 1)
    (by omega) s.start
  have hlimitMem := @getD_place_mem items.length (-1) (items.length - 1) (-1) (by omega) s.stop
  rw [← hfirst] at hfirstMem
  rw [← hlimit] at hlimitMem
  have hup : ¬0 < s.stride := by omega
  rw [first, limit, if_neg hup, if_neg hup, ← hfirst, ← hlimit, apply]
  refine ⟨_, (dif_neg hup).trans (dif_pos hstep), ?_⟩
  exact progression_descend hstep (by omega) hlimitMem.1 hlength

/-- The step is zero only if it is written down, since it is one by default. -/
theorem stride_eq_zero_iff : s.stride = 0 ↔ s.step = some 0 := by
  unfold stride
  cases s.step with
  | none => simp
  | some step =>
    have hzero : (0 : Int64).toInt = 0 := by decide
    rw [Option.getD_some, Option.some.injEq, ← hzero, Int64.toInt_inj]

/-- A slice whose step is zero is refused, whatever it is taken of. -/
theorem apply_of_zero (h : s.step = some 0) (items : List Number) :
    s.apply items = .error (.evaluation .zeroStep) := by
  have hzero : ¬0 < (s.step.getD 1).toInt := by
    rw [h]
    decide
  have hzero' : ¬(s.step.getD 1).toInt < 0 := by
    rw [h]
    decide
  rw [apply]
  exact (dif_neg hzero).trans (dif_neg hzero')

/-- A slice of a list selects an arithmetic progression over unbounded integers; a step of zero is
its only fault. Sums of 64-bit integers on the way are those of integers: a negative bound and the
length add up to one, the last place of a list is one, and whenever a checked sum is none, it is
reported as missing. -/
theorem apply_progression (s : Slice) (items : List Number) (hlength : items.length < 2 ^ 63) :
    (∀ fault, s.apply items = .error fault ↔
      s.step = some 0 ∧ fault = .evaluation .zeroStep) ∧
    (s.step ≠ some 0 → ∃ out, s.apply items = .ok out ∧
      Progression items s.stride (s.first items.length) (s.limit items.length) out) ∧
    (∀ bound : Int64, bound < 0 →
      (bound + Int64.ofNat items.length).toInt = bound.toInt + items.length) ∧
    (Int64.ofNat items.length - 1).toInt = items.length - 1 ∧
    ∀ i step : Int64,
      (checkedAdd i step = none ↔
        ¬(-2 ^ 63 ≤ i.toInt + step.toInt ∧ i.toInt + step.toInt < 2 ^ 63)) ∧
      ∀ next, checkedAdd i step = some next → next.toInt = i.toInt + step.toInt := by
  have hok : s.step ≠ some 0 → ∃ out, s.apply items = .ok out ∧
      Progression items s.stride (s.first items.length) (s.limit items.length) out := by
    intro hstep
    have hne : s.stride ≠ 0 := mt stride_eq_zero_iff.1 hstep
    rcases Int.lt_or_gt_of_ne hne with hneg | hpos
    · exact apply_of_neg hlength hneg
    · exact apply_of_pos hlength hpos
  refine ⟨?_, hok, fun bound => toInt_add_length hlength, toInt_length_sub_one hlength,
    fun i step => ⟨checkedAdd_eq_none_iff, fun next => toInt_of_checkedAdd⟩⟩
  intro fault
  constructor
  · intro hfault
    by_cases hstep : s.step = some 0
    · rw [apply_of_zero hstep] at hfault
      exact ⟨hstep, (Except.error.inj hfault).symm⟩
    · obtain ⟨out, hout, -⟩ := hok hstep
      rw [hout] at hfault
      cases hfault
  · rintro ⟨hstep, rfl⟩
    exact apply_of_zero hstep items

/-- Every second of three items backwards: the missing stop lies in front of the list, and is not
the place `-1` that counts from the end; the start lies far behind the list. -/
theorem apply_progression_backwards :
    ([1, 2, 3] : List Number).length < 2 ^ 63 ∧
      ∃ out, apply ⟨some Int64.maxValue, none, some (-2)⟩ [1, 2, 3] = .ok out ∧
        Progression [1, 2, 3] (-2) 2 (-1) out ∧ out = [3, 1] := by
  have hlength : ([1, 2, 3] : List Number).length < 2 ^ 63 := by decide
  obtain ⟨-, hok, -⟩ := apply_progression ⟨some Int64.maxValue, none, some (-2)⟩ _ hlength
  obtain ⟨out, hout, hwalk⟩ := hok (by decide)
  have hstride : stride ⟨some Int64.maxValue, none, some (-2)⟩ = -2 := by decide
  have hfirst : first ⟨some Int64.maxValue, none, some (-2)⟩ (3 : Nat) = 2 := by decide
  have hlimit : limit ⟨some Int64.maxValue, none, some (-2)⟩ (3 : Nat) = -1 := by decide
  rw [hstride, show ([1, 2, 3] : List Number).length = 3 from rfl, hfirst, hlimit] at hwalk
  refine ⟨hlength, out, hout, hwalk, ?_⟩
  have hstops := hwalk.stops
  have hbefore := hwalk.before 2
  have htwo : out.length = 2 := by
    norm_num [Before] at hstops hbefore
    omega
  match out, htwo with
  | [x, y], _ =>
    have hx : x = 3 := by simpa using hwalk.item 0 (by simp)
    have hy : y = 1 := by simpa using hwalk.item 1 (by simp)
    rw [hx, hy]

end Slices

end Recolor.Slice
