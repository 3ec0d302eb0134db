import Recolor.Fault

/-!
# Slices

A `Slice` selects items of a list by a first place, a place to stop before, and a step. Negative
places count from the end. The arithmetic is that of 64-bit integers: `start?` and `stop?` bring
the bounds into range, and a step that would leave the 64-bit integers ends the walk.
-/

set_option autoImplicit false

namespace Recolor

/-- A selection `start:stop:step`. -/
structure Slice where
  start : Option Int64
  stop : Option Int64
  step : Option Int64
deriving DecidableEq

namespace Slice

/-- The sum of two 64-bit integers, if it is one. -/
def checkedAdd (a b : Int64) : Option Int64 :=
  if Int64.minValue.toInt ≤ a.toInt + b.toInt ∧ a.toInt + b.toInt ≤ Int64.maxValue.toInt then
    some (a + b)
  else none

/-- A checked sum is the sum. -/
theorem toInt_of_checkedAdd {a b c : Int64} (h : checkedAdd a b = some c) :
    c.toInt = a.toInt + b.toInt := by
  unfold checkedAdd at h
  split at h
  · rename_i hr
    obtain ⟨lower, upper⟩ := hr
    have low : Int64.minValue.toInt = -2 ^ 63 := by decide
    have high : Int64.maxValue.toInt = 2 ^ 63 - 1 := by decide
    rw [low] at lower
    rw [high] at upper
    cases h
    rw [Int64.toInt_add]
    exact Int.bmod_eq_of_le (by omega) (by omega)
  · cases h

/-- A bound with `length` added if it is negative, brought between `low` and `high`. -/
def resolve (length low high bound : Int64) : Int64 :=
  let bound := if bound < 0 then bound + length else bound
  if bound < low then low else if high < bound then high else bound

/-- The item at a place, or zero if there is none. -/
def item (items : List Number) (i : Int64) : Number := items.getD i.toNatClampNeg 0

/-- The items at `i`, `i + step`, … below `stop`. -/
def ascend (items : List Number) (step stop i : Int64) (positive : 0 < step.toInt) : List Number :=
  if i.toInt < stop.toInt then
    item items i ::
      match _h : checkedAdd i step with
      | some next => ascend items step stop next positive
      | none => []
  else []
termination_by (stop.toInt - i.toInt).toNat
decreasing_by
  have := toInt_of_checkedAdd ‹_›
  omega

/-- The items at `i`, `i + step`, … above `stop`. -/
def descend (items : List Number) (step stop i : Int64) (negative : step.toInt < 0) :
    List Number :=
  if stop.toInt < i.toInt then
    item items i ::
      match _h : checkedAdd i step with
      | some next => descend items step stop next negative
      | none => []
  else []
termination_by (i.toInt - stop.toInt).toNat
decreasing_by
  have := toInt_of_checkedAdd ‹_›
  omega

/-- The selected items in the order of the walk. -/
def apply (s : Slice) (items : List Number) : Except Fault (List Number) :=
  let step := s.step.getD 1
  let length := Int64.ofNat items.length
  if up : 0 < step.toInt then
    let start := (s.start.map (resolve length 0 length)).getD 0
    let stop := (s.stop.map (resolve length 0 length)).getD length
    .ok (ascend items step stop start up)
  else if down : step.toInt < 0 then
    let start := (s.start.map (resolve length (-1) (length - 1))).getD (length - 1)
    let stop := (s.stop.map (resolve length (-1) (length - 1))).getD (-1)
    .ok (descend items step stop start down)
  else .error (.evaluation .zeroStep)

end Slice

end Recolor
