import Recolor.Proofs.Buffers

/-!
# Gathering and scattering undo each other

What is scattered is what is gathered afterwards, and scattering what was gathered changes nothing,
so that the selected pixels are a part of the raster that can be read and replaced on its own
(`Raster.scatter_lens`). Two parts that have no pixel in common can be replaced in either order.

Scattering may also be done in place, one pixel after another, in a raster that keeps what was
written until then if a later step fails (`Raster.scatterInPlace`). As the sizes are checked before
the first pixel is written, this leaves a raster behind that is either the scattered one or the one
from before (`Raster.run_scatterInPlace`).
-/

set_option autoImplicit false

namespace Recolor

/-! ## Writing one item after another -/

/-- Writing new items one by one at the selected places, in order and as far as they last. The
places are counted from the end of the items that stand in front. -/
theorem foldl_set_selected {α : Type} (bits : List Bool) (before xs ys : List α) :
    ((selected bits (List.range' before.length xs.length)).zip ys).foldl
      (fun items write => items.set write.1 write.2) (before ++ xs) =
        before ++ replaceSelected bits xs ys := by
  induction bits generalizing before xs ys with
  | nil => simp [selected, replaceSelected]
  | cons b bs ih =>
    cases xs with
    | nil => cases b <;> simp [selected, replaceSelected]
    | cons x xs =>
      have hrange : List.range' before.length (x :: xs).length =
          before.length :: List.range' (before.length + 1) xs.length := List.range'_succ
      rw [hrange]
      -- the first place goes over to the items in front, with what stands there then
      cases b with
      | false =>
        have hrest := ih (before ++ [x]) xs ys
        simpa [selected, replaceSelected] using hrest
      | true =>
        cases ys with
        | nil => simp [replaceSelected]
        | cons y ys =>
          have hrest := ih (before ++ [y]) xs ys
          simpa [selected, replaceSelected] using hrest

namespace Raster

/-! ## Scattering in place -/

/-- Overwrites the pixel at a place, if there is one. -/
def overwrite (r : Raster) (place : Nat) (pixel : Pixel) : Raster :=
  { r with pixels := r.pixels.set place pixel }

/-- Scattering in place: the chunk must have as many channels as the raster and as many pixels as
are selected; then its pixels overwrite the selected ones, one after another. -/
def scatterInPlace (m : Mask) (chunk : Raster) : ExceptT Fault (StateM Raster) Unit := do
  let r ← get
  if chunk.channels = r.channels ∧ chunk.area = m.count then
    ((selected m.bits (List.range r.pixels.length)).zip chunk.pixels).forM fun (place, pixel) =>
      modify (·.overwrite place pixel)
  else
    throw (.shape (.chunkSize chunk.area chunk.channels m.count r.channels))

/-- The raster after scattering in place, whether that succeeds or fails. -/
def afterScatter (r : Raster) (m : Mask) (chunk : Raster) : Raster :=
  ((scatterInPlace m chunk).run.run r).2

variable {r s t chunk other : Raster} {m n : Mask}

/-- A loop that changes the pixels of a raster step by step leaves behind what a fold over its steps
makes of the pixels. -/
theorem run_forM_pixels {α : Type} (step : α → List Pixel → List Pixel) (steps : List α)
    (r : Raster) :
    (steps.forM fun a => modify fun r => { r with pixels := step a r.pixels } :
      ExceptT Fault (StateM Raster) Unit).run.run r =
        (.ok (), { r with pixels := steps.foldl (fun pixels a => step a pixels) r.pixels }) := by
  induction steps generalizing r with
  | nil => rfl
  | cons a steps ih => exact ih { r with pixels := step a r.pixels }

/-- Single writes that follow one another make the image that the list of writes makes, and do not
fail. -/
theorem run_forM_overwrite (writes : List (Nat × Pixel)) (r : Raster) :
    (writes.forM fun (place, pixel) => modify (·.overwrite place pixel) :
      ExceptT Fault (StateM Raster) Unit).run.run r =
        (.ok (), { r with
          pixels := writes.foldl (fun pixels write => pixels.set write.1 write.2) r.pixels }) :=
  run_forM_pixels (fun (write : Nat × Pixel) pixels => pixels.set write.1 write.2) writes r

/-- Scattering in place leaves the scattered raster behind, or else the raster as it was. -/
theorem run_scatterInPlace (r : Raster) (m : Mask) (chunk : Raster) :
    (scatterInPlace m chunk).run.run r =
      ((r.scatter m chunk).map fun _ => (), (r.scatter m chunk).toOption.getD r) := by
  have hwrites := foldl_set_selected m.bits [] r.pixels chunk.pixels
  simp only [List.nil_append, List.length_nil, ← List.range_eq_range'] at hwrites
  show (if chunk.channels = r.channels ∧ chunk.area = m.count then
      ((selected m.bits (List.range r.pixels.length)).zip chunk.pixels).forM
        fun (place, pixel) => modify (·.overwrite place pixel)
    else throw (.shape (.chunkSize chunk.area chunk.channels m.count r.channels)) :
      ExceptT Fault (StateM Raster) Unit).run.run r = _
  rw [scatter]
  split
  next =>
    rw [run_forM_overwrite, hwrites]
    rfl
  next => rfl

/-- What is left of an image after a write of selected pixels is the new image if the chunk fits,
and otherwise the old one. -/
theorem afterScatter_eq (r : Raster) (m : Mask) (chunk : Raster) :
    r.afterScatter m chunk = if chunk.channels = r.channels ∧ chunk.area = m.count then
      { r with pixels := replaceSelected m.bits r.pixels chunk.pixels } else r := by
  rw [afterScatter, run_scatterInPlace, scatter]
  by_cases hfits : chunk.channels = r.channels ∧ chunk.area = m.count
  · rw [if_pos hfits, if_pos hfits]
    rfl
  · rw [if_neg hfits, if_neg hfits]
    rfl

/-! ## The laws -/

/-- Selected pixels can be written exactly if the chunk has the channels of the image and as many
pixels as are selected. -/
theorem exists_scatter :
    (∃ s, r.scatter m chunk = .ok s) ↔ chunk.channels = r.channels ∧ chunk.area = m.count := by
  simp only [scatter_eq_ok, exists_and_left, exists_eq, and_true]

/-- Scattering what was gathered changes nothing. -/
theorem scatter_gather (h : m.bits.length ≤ r.pixels.length) :
    r.scatter m (r.gather m) = .ok r := by
  refine scatter_eq_ok.2 ⟨⟨rfl, area_gather h⟩, ?_⟩
  rw [gather, replaceSelected_selected]

/-- Gathering after scattering gives the pixels that were scattered, in one row. -/
theorem gather_of_scatter (hlength : m.bits.length ≤ r.pixels.length)
    (hchunk : chunk.pixels.length = chunk.area) (h : r.scatter m chunk = .ok s) :
    s.gather m = ⟨m.count, 1, r.channels, chunk.pixels⟩ := by
  obtain ⟨⟨-, hcount⟩, rfl⟩ := scatter_eq_ok.1 h
  have hpixels : selected m.bits (replaceSelected m.bits r.pixels chunk.pixels) = chunk.pixels :=
    selected_replaceSelected hlength (hchunk.trans hcount)
  rw [gather, hpixels, hchunk, hcount]

section Disjoint

variable (hdisjoint : ∀ i, m.selects i = true → n.selects i = false)

include hdisjoint

/-- Pixels that are selected by masks without a common position can be replaced in either order. -/
theorem replaceSelected_comm_of_disjoint (pixels first second : List Pixel) :
    replaceSelected n.bits (replaceSelected m.bits pixels first) second =
      replaceSelected m.bits (replaceSelected n.bits pixels second) first := by
  refine replaceSelected_comm (fun i hi => ?_) pixels first second
  rw [ne_eq, ← Mask.selects_iff, hdisjoint i (Mask.selects_iff.2 hi)]
  exact Bool.false_ne_true

/-- Chunks that fit two disjoint masks can be scattered in either order. -/
theorem exists_scatter_comm (hs : r.scatter m chunk = .ok s) (ht : r.scatter n other = .ok t) :
    ∃ u, s.scatter n other = .ok u ∧ t.scatter m chunk = .ok u := by
  obtain ⟨hchunk, rfl⟩ := scatter_eq_ok.1 hs
  obtain ⟨hother, rfl⟩ := scatter_eq_ok.1 ht
  refine ⟨_, scatter_eq_ok.2 ⟨hother, rfl⟩, scatter_eq_ok.2 ⟨hchunk, ?_⟩⟩
  rw [replaceSelected_comm_of_disjoint hdisjoint]

/-- In place the order does not matter for chunks that do not fit either. -/
theorem afterScatter_comm :
    (r.afterScatter m chunk).afterScatter n other =
      (r.afterScatter n other).afterScatter m chunk := by
  have hpixels := replaceSelected_comm_of_disjoint hdisjoint r.pixels chunk.pixels other.pixels
  -- whether a chunk fits is a matter of the channels, which stay
  by_cases hchunk : chunk.channels = r.channels ∧ chunk.area = m.count
  · by_cases hother : other.channels = r.channels ∧ other.area = n.count
    · simp only [afterScatter_eq, if_pos hchunk, if_pos hother, hpixels]
    · simp only [afterScatter_eq, if_pos hchunk, if_neg hother]
  · by_cases hother : other.channels = r.channels ∧ other.area = n.count
    · simp only [afterScatter_eq, if_neg hchunk, if_pos hother]
    · simp only [afterScatter_eq, if_neg hchunk, if_neg hother]

end Disjoint

/-- Gathering and scattering form a lens on the selected pixels of a raster with a pixel for each
place. A chunk can be scattered exactly if it has as many channels as the raster and as many pixels
as are selected, and if not, the raster stays as it is. Scattering what was gathered changes
nothing. After a chunk was scattered, its pixels are gathered in their order, all other pixels and
the shape are as before. At disjoint masks the order of two chunks does not matter. -/
theorem scatter_lens (hc : r.channels ≠ 0) (hr : r.area ≤ r.pixels.length) (hm : m.WellFormed)
    (hsize : m.size = r.size) (hchunk : chunk.WellFormed) :
    ((∃ s, r.scatter m chunk = .ok s) ↔ chunk.channels = r.channels ∧ chunk.area = m.count) ∧
    (∀ fault, r.scatter m chunk = .error fault →
      (scatterInPlace m chunk).run.run r = (.error fault, r)) ∧
    r.scatter m (r.gather m) = .ok r ∧
    (∀ s, r.scatter m chunk = .ok s →
      (scatterInPlace m chunk).run.run r = (.ok (), s) ∧
      s.gather m = ⟨m.count, 1, r.channels, chunk.pixels⟩ ∧
      (∀ i, m.selects i = false → s.pixels[i]? = r.pixels[i]?) ∧
      s.shape = r.shape ∧ s.pixels.length = r.pixels.length) ∧
    ∀ n other, (∀ i, m.selects i = true → n.selects i = false) →
      (r.afterScatter m chunk).afterScatter n other =
        (r.afterScatter n other).afterScatter m chunk ∧
      ∀ s t, r.scatter m chunk = .ok s → r.scatter n other = .ok t →
        ∃ u, s.scatter n other = .ok u ∧ t.scatter m chunk = .ok u := by
  have hlength : m.bits.length ≤ r.pixels.length := by
    obtain ⟨hwidth, hheight⟩ := Prod.mk.injEq .. ▸ hsize
    rw [hm, hwidth, hheight]
    exact hr
  refine ⟨exists_scatter, fun fault hfault => ?_, scatter_gather hlength, fun s hs => ?_,
    fun n other hdisjoint =>
      ⟨afterScatter_comm hdisjoint, fun s t => exists_scatter_comm hdisjoint⟩⟩
  · rw [run_scatterInPlace, hfault]
    rfl
  · obtain ⟨⟨hchannels, -⟩, hpixels⟩ := scatter_eq_ok.1 hs
    have harea : chunk.pixels.length = chunk.area := hchunk.length_pixels (hchannels ▸ hc)
    have hrun : (scatterInPlace m chunk).run.run r = (.ok (), s) := by
      rw [run_scatterInPlace, hs]
      rfl
    refine ⟨hrun, gather_of_scatter hlength harea hs, fun i hi => ?_, ?_⟩
    · rw [hpixels]
      refine getElem?_replaceSelected_of_ne fun hbit => ?_
      rw [Mask.selects_iff.2 hbit] at hi
      cases hi
    · rw [hpixels]
      exact ⟨rfl, length_replaceSelected _ _ _⟩

/-- A column of two pixels is scattered over the ends of a row of three, and a single pixel over
its middle. -/
theorem scatter_lens_ends :
    let r : Raster := ⟨3, 1, 2, [[0, 1], [2, 3], [4, 5]]⟩
    let ends : Mask := ⟨3, 1, [true, false, true]⟩
    let middle : Mask := ⟨3, 1, [false, true, false]⟩
    let column : Raster := ⟨1, 2, 2, [[6, 7], [8, 9]]⟩
    r.channels ≠ 0 ∧ r.area ≤ r.pixels.length ∧ ends.WellFormed ∧ ends.size = r.size ∧
      column.WellFormed ∧ (∀ i, ends.selects i = true → middle.selects i = false) ∧
      (∃ s, r.scatter ends column = .ok s ∧ s.gather ends = ⟨2, 1, 2, [[6, 7], [8, 9]]⟩ ∧
        s.pixels[1]? = some [2, 3] ∧ s.shape = [1, 3, 2]) ∧
      r.scatter ends (r.gather ends) = .ok r ∧
      ∀ other, (r.afterScatter ends column).afterScatter middle other =
        (r.afterScatter middle other).afterScatter ends column := by
  intro r ends middle column
  have hc : r.channels ≠ 0 := by decide
  have hr : r.area ≤ r.pixels.length := by decide
  have hm : ends.WellFormed := rfl
  have hcolumn : column.WellFormed := by simp [column, WellFormed]
  have hdisjoint : ∀ i, ends.selects i = true → middle.selects i = false := by
    intro i
    match i with
    | 0 | 1 | 2 => decide
    | i + 3 => simp [ends, Mask.selects]
  obtain ⟨hfits, -, hback, hforth, hcomm⟩ := scatter_lens hc hr hm rfl hcolumn
  obtain ⟨s, hs⟩ := hfits.2 ⟨rfl, by decide⟩
  obtain ⟨-, hgather, hother, hshape, -⟩ := hforth s hs
  exact ⟨hc, hr, hm, rfl, hcolumn, hdisjoint, ⟨s, hs, hgather, hother 1 (by decide), hshape⟩, hback,
    fun other => (hcomm middle other hdisjoint).1⟩

end Raster

end Recolor
