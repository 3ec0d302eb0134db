import Recolor.Proofs.GatherScatter

/-!
# Reading and writing bands undo each other

A band is a part of a raster that can be read and replaced on its own (`Raster.band_lens`): what is
written is what is read afterwards, a band that is written back as it was read changes nothing, and
no other band is touched, so that two bands can be written in either order. In the list of all
numbers of a raster the numbers of a band stand `channels` places apart
(`Raster.WellFormed.getElem?_of_band`).

Bands may also be written in place, one pixel after another (`Raster.setBandInPlace`,
`Raster.fillBandInPlace`). As all checks come before the first number is written, this leaves a
raster behind that is either the written one or the one from before.
-/

set_option autoImplicit false

namespace Recolor

namespace Raster

variable {r s : Raster} {i j : Nat} {x : Number} {plane other : Plane}

/-! ## The list of all numbers -/

/-- Where pixels of equal length are laid out behind each other, each band is found in strides of
that length. -/
theorem getElem?_flatten {n : Nat} {ps : List Pixel} (hps : ∀ p ∈ ps, p.length = n) (hi : i < n)
    (k : Nat) : ps.flatten[k * n + i]? = ps[k]?.map (·.getD i 0) := by
  induction ps generalizing k with
  | nil => simp
  | cons p ps ih =>
    have hp : p.length = n := hps p List.mem_cons_self
    have hrest := ih fun q hq => hps q (List.mem_cons_of_mem p hq)
    rw [List.flatten_cons]
    cases k with
    | zero =>
      rw [Nat.zero_mul, Nat.zero_add, List.getElem?_append_left (hp ▸ hi)]
      simp [hp, hi]
    | succ k =>
      -- the pixels behind the first one start `n` places later
      have hle : p.length ≤ (k + 1) * n + i := by
        rw [hp, Nat.succ_mul]
        omega
      have hplace : (k + 1) * n + i - p.length = k * n + i := by
        rw [hp, Nat.succ_mul]
        omega
      rw [List.getElem?_append_right hle, hplace, hrest]
      rfl

/-- The numbers of a band stand `channels` places apart. -/
theorem WellFormed.getElem?_of_band (h : r.WellFormed) (hband : r.band i = .ok plane) (k : Nat) :
    plane.values[k]? = r.data[k * r.channels + i]? := by
  obtain ⟨hi, rfl⟩ := band_eq_ok.1 hband
  rw [data, getElem?_flatten h.1 hi, List.getElem?_map]

/-! ## Writing bands -/

/-- Each channel of an image is a band of it. -/
theorem exists_band (hi : i < r.channels) : ∃ plane, r.band i = .ok plane :=
  ⟨_, band_eq_ok.2 ⟨hi, rfl⟩⟩

/-- A plane can be written into a band that is there, if it has the size of the raster. -/
theorem exists_setBand :
    (∃ s, r.setBand i plane = .ok s) ↔ i < r.channels ∧ plane.size = r.size := by
  simp only [setBand_eq_ok, exists_and_left, exists_eq, and_true]

/-- A band can be filled exactly if the image has it. -/
theorem exists_fillBand : (∃ s, r.fillBand i x = .ok s) ↔ i < r.channels := by
  simp only [fillBand_eq_ok, exists_and_left, exists_eq, and_true]

/-- Writing a band replaces its numbers in the list of all numbers, and no others. -/
theorem getElem?_data_of_setBand (h : r.WellFormed) (hs : r.setBand i plane = .ok s)
    (hband : s.band i = .ok plane) {m : Nat} (hm : m < r.channels) (k : Nat) :
    s.data[k * r.channels + m]? =
      if m = i then plane.values[k]? else r.data[k * r.channels + m]? := by
  have hwf : s.WellFormed := h.setBand hs
  have hchannels : s.channels = r.channels := by
    obtain ⟨-, -, rfl⟩ := setBand_eq_ok.1 hs
    rfl
  rw [← hchannels]
  split
  next heq =>
    subst heq
    exact (hwf.getElem?_of_band hband k).symm
  next hne =>
    obtain ⟨before, hbefore⟩ := exists_band hm
    have hafter : s.band m = .ok before := by rw [band_setBand_of_ne (Ne.symm hne) hs, hbefore]
    rw [← hwf.getElem?_of_band hafter k, hchannels, ← h.getElem?_of_band hbefore k]

/-- Writing one number everywhere sets that number in each pixel. -/
theorem writeBand_replicate (i : Nat) (x : Number) (ps : List Pixel) :
    writeBand i ps (List.replicate ps.length x) = ps.map (·.set i x) := by
  induction ps with
  | nil => rfl
  | cons p ps ih => rw [List.length_cons, List.replicate_succ, writeBand, ih, List.map_cons]

/-- Filling a band is writing a plane with one number everywhere. -/
theorem fillBand_eq_setBand (h : r.WellFormed) (i : Nat) (x : Number) :
    r.fillBand i x = r.setBand i (.filled r.width r.height x) := by
  unfold fillBand setBand
  by_cases hi : i < r.channels
  · have hlength : r.pixels.length = r.width * r.height := h.length_pixels (by omega)
    have hsize : (Plane.filled r.width r.height x).size = r.size := rfl
    rw [if_pos hsize, Plane.filled, ← hlength, writeBand_replicate]
  · rw [requireBand, if_neg hi]
    rfl

/-- Two bands can be written in either order. -/
theorem writeBand_comm (hij : i ≠ j) (ps : List Pixel) (xs ys : List Number) :
    writeBand j (writeBand i ps xs) ys = writeBand i (writeBand j ps ys) xs := by
  induction ps generalizing xs ys with
  | nil => cases xs <;> cases ys <;> rfl
  | cons p ps ih =>
    cases xs with
    | nil => cases ys <;> rfl
    | cons x xs =>
      cases ys with
      | nil => rfl
      | cons y ys => rw [writeBand, writeBand, writeBand, writeBand, ih, List.set_comm _ _ hij]

/-- Planes of the size of the raster can be written into two bands in either order. -/
theorem exists_setBand_comm (hij : i ≠ j) (hi : i < r.channels) (hj : j < r.channels)
    (hplane : plane.size = r.size) (hother : other.size = r.size) :
    ∃ u, (r.setBand i plane >>= (·.setBand j other)) = .ok u ∧
      (r.setBand j other >>= (·.setBand i plane)) = .ok u := by
  have hs : r.setBand i plane = .ok _ := setBand_eq_ok.2 ⟨hi, hplane, rfl⟩
  have ht : r.setBand j other = .ok _ := setBand_eq_ok.2 ⟨hj, hother, rfl⟩
  refine ⟨_, bind_eq_ok.2 ⟨_, hs, setBand_eq_ok.2 ⟨hj, hother, rfl⟩⟩,
    bind_eq_ok.2 ⟨_, ht, setBand_eq_ok.2 ⟨hi, hplane, ?_⟩⟩⟩
  rw [writeBand_comm hij]

/-- A plane and a number can be written into two bands in either order. -/
theorem exists_setBand_fillBand_comm (hr : r.WellFormed) (hij : i ≠ j) (hi : i < r.channels)
    (hj : j < r.channels) (hplane : plane.size = r.size) (x : Number) :
    ∃ u, (r.setBand i plane >>= (·.fillBand j x)) = .ok u ∧
      (r.fillBand j x >>= (·.setBand i plane)) = .ok u := by
  obtain ⟨u, hu, hu'⟩ := exists_setBand_comm hij hi hj hplane
    (rfl : (Plane.filled r.width r.height x).size = r.size)
  have hfill : ∀ s, r.setBand i plane = .ok s →
      s.fillBand j x = s.setBand j (.filled r.width r.height x) := by
    intro s hs
    have hwf : s.WellFormed := hr.setBand hs
    obtain ⟨-, -, rfl⟩ := setBand_eq_ok.1 hs
    exact fillBand_eq_setBand hwf j x
  refine ⟨u, ?_, ?_⟩
  · rw [bind_congr_ok hfill, hu]
  · rw [fillBand_eq_setBand hr, hu']

/-! ## Writing bands in place -/

/-- An operation in place leaves what is answered behind, and the raster as it was if the answer is
a fault. -/
structure Performs (r : Raster) (op : ExceptT Fault (StateM Raster) Unit)
    (answer : Except Fault Raster) : Prop where
  ok : ∀ s, answer = .ok s → op.run.run r = (.ok (), s)
  error : ∀ fault, answer = .error fault → op.run.run r = (.error fault, r)

/-- An operation performs an answer if it ends in it, and leaves the image alone where there is
none. -/
theorem performs_of_run {op : ExceptT Fault (StateM Raster) Unit} {answer : Except Fault Raster}
    (h : op.run.run r = (answer.map fun _ => (), answer.toOption.getD r)) :
    r.Performs op answer where
  ok s hs := by rw [h, hs]; rfl
  error fault hfault := by rw [h, hfault]; rfl

/-- Overwrites the number of a band at a place, if there is one. -/
def overwriteValue (r : Raster) (band place : Nat) (x : Number) : Raster :=
  { r with pixels := r.pixels.modify place (·.set band x) }

/-- Writing a plane in place: the raster must have the band, and the plane must have the size of the
raster; then its numbers overwrite those of the band, one after another. -/
def setBandInPlace (band : Nat) (plane : Plane) : ExceptT Fault (StateM Raster) Unit := do
  let r ← get
  ofExcept (r.requireBand band)
  if plane.size = r.size then
    ((List.range r.pixels.length).zip plane.values).forM fun (place, x) =>
      modify (·.overwriteValue band place x)
  else
    throw (.shape (.bandSize plane.size r.size))

/-- Filling a band in place: the raster must have the band; then the number overwrites those of the
band, one after another. -/
def fillBandInPlace (band : Nat) (x : Number) : ExceptT Fault (StateM Raster) Unit := do
  let r ← get
  ofExcept (r.requireBand band)
  (List.range r.pixels.length).forM fun place => modify (·.overwriteValue band place x)

/-- Writing numbers one by one into a band, in order and as far as they last. The places are counted
from the end of the pixels that stand in front. -/
theorem foldl_modify_writeBand (i : Nat) (before ps : List Pixel) (xs : List Number) :
    ((List.range' before.length ps.length).zip xs).foldl
      (fun pixels write => pixels.modify write.1 (·.set i write.2)) (before ++ ps) =
        before ++ writeBand i ps xs := by
  induction ps generalizing before xs with
  | nil => cases xs <;> rfl
  | cons p ps ih =>
    cases xs with
    | nil => simp [writeBand]
    | cons x xs =>
      have hrange : List.range' before.length (p :: ps).length =
          before.length :: List.range' (before.length + 1) ps.length := List.range'_succ
      have hfirst : (before ++ p :: ps).modify before.length (·.set i x) =
          before ++ p.set i x :: ps :=
        List.modifyTailIdx_add (List.modifyHead fun q : Pixel => q.set i x) 0 before (p :: ps)
      -- the first pixel goes over to those in front, with its band written
      have hrest := ih (before ++ [p.set i x]) xs
      rw [hrange, List.zip_cons_cons, List.foldl_cons, hfirst]
      simpa [writeBand] using hrest

/-- A plane that is written in place leaves the written raster behind, or else the raster as it
was. -/
theorem run_setBandInPlace (r : Raster) (i : Nat) (plane : Plane) :
    (setBandInPlace i plane).run.run r =
      ((r.setBand i plane).map fun _ => (), (r.setBand i plane).toOption.getD r) := by
  have hwrites := foldl_modify_writeBand i [] r.pixels plane.values
  simp only [List.nil_append, List.length_nil, ← List.range_eq_range'] at hwrites
  have hloop := run_forM_pixels (fun (write : Nat × Number) pixels =>
    pixels.modify write.1 (·.set i write.2)) ((List.range r.pixels.length).zip plane.values) r
  rw [hwrites] at hloop
  show ((ofExcept (r.requireBand i) >>= fun _ => if plane.size = r.size then
      ((List.range r.pixels.length).zip plane.values).forM fun (place, x) =>
        modify (·.overwriteValue i place x)
    else throw (.shape (.bandSize plane.size r.size)) :
      ExceptT Fault (StateM Raster) Unit).run.run r) = _
  unfold setBand requireBand
  split
  next hi =>
    split
    next hsize => exact hloop
    next hsize => rfl
  next hi => rfl

/-- A band that is filled in place leaves the filled raster behind, or else the raster as it was. -/
theorem run_fillBandInPlace (r : Raster) (i : Nat) (x : Number) :
    (fillBandInPlace i x).run.run r =
      ((r.fillBand i x).map fun _ => (), (r.fillBand i x).toOption.getD r) := by
  have hwrites := foldl_modify_writeBand i [] r.pixels (List.replicate r.pixels.length x)
  have hzip : (List.range r.pixels.length).zip (List.replicate r.pixels.length x) =
      (List.range r.pixels.length).map fun place => (place, x) := by
    rw [List.map_prod_left_eq_zip, List.map_const', List.length_range]
  simp only [List.nil_append, List.length_nil, ← List.range_eq_range', hzip, List.foldl_map,
    writeBand_replicate] at hwrites
  have hloop := run_forM_pixels (fun (place : Nat) pixels => pixels.modify place (·.set i x))
    (List.range r.pixels.length) r
  rw [hwrites] at hloop
  show ((ofExcept (r.requireBand i) >>= fun _ => (List.range r.pixels.length).forM fun place =>
    modify (·.overwriteValue i place x) : ExceptT Fault (StateM Raster) Unit).run.run r) = _
  unfold fillBand requireBand
  split
  next hi => exact hloop
  next hi => rfl

/-! ## The laws -/

/-- A band is a lens on a well-formed raster. A plane of the size of the raster that is written into
a band is read from it afterwards, and no other number of the raster changes. A band that is written
back as it was read changes nothing. Filling a band is writing a plane with one number everywhere.
Two bands can be written in either order, also if one of them is filled. A band can be written in
place exactly if it is there and the plane has the size of the raster, and filled exactly if it is
there; if not, the raster stays as it is. -/
theorem band_lens (hr : r.WellFormed) (hi : i < r.channels) (hplane : plane.WellFormed)
    (hsize : plane.size = r.size) :
    (∃ s, r.setBand i plane = .ok s ∧ s.band i = .ok plane ∧
      (∀ j, i ≠ j → s.band j = r.band j) ∧
      ∀ k m, m < r.channels → s.data[k * r.channels + m]? =
        if m = i then plane.values[k]? else r.data[k * r.channels + m]?) ∧
    (∃ before, r.band i = .ok before ∧ r.setBand i before = .ok r) ∧
    (∀ x, r.fillBand i x = r.setBand i (.filled r.width r.height x)) ∧
    (∀ j, i ≠ j → j < r.channels →
      (∀ other : Plane, other.size = r.size →
        ∃ u, (r.setBand i plane >>= (·.setBand j other)) = .ok u ∧
          (r.setBand j other >>= (·.setBand i plane)) = .ok u) ∧
      ∀ x, ∃ u, (r.setBand i plane >>= (·.fillBand j x)) = .ok u ∧
        (r.fillBand j x >>= (·.setBand i plane)) = .ok u) ∧
    (∀ k other, r.Performs (setBandInPlace k other) (r.setBand k other) ∧
      ((∃ s, r.setBand k other = .ok s) ↔ k < r.channels ∧ other.size = r.size)) ∧
    ∀ k x, r.Performs (fillBandInPlace k x) (r.fillBand k x) ∧
      ((∃ s, r.fillBand k x = .ok s) ↔ k < r.channels) := by
  refine ⟨?_, ?_, fillBand_eq_setBand hr i, ?_, ?_, ?_⟩
  · obtain ⟨s, hs, hband⟩ := band_setBand hr ⟨hsize, hplane⟩ hi
    refine ⟨s, hs, hband, fun j hij => band_setBand_of_ne hij hs, ?_⟩
    intro k m hm
    exact getElem?_data_of_setBand hr hs hband hm k
  · obtain ⟨before, hbefore⟩ := exists_band hi
    exact ⟨before, hbefore, setBand_band hbefore⟩
  · intro j hij hj
    constructor
    · intro other hother
      exact exists_setBand_comm hij hi hj hsize hother
    · intro x
      exact exists_setBand_fillBand_comm hr hij hi hj hsize x
  · intro k other
    exact ⟨performs_of_run (run_setBandInPlace r k other), exists_setBand⟩
  · intro k x
    exact ⟨performs_of_run (run_fillBandInPlace r k x), exists_fillBand⟩

/-- The first band of a row of two pixels is replaced, with the second one unchanged, and the second
one can be filled before or after. There is no fourth band, and a column of two numbers does not
fit. -/
theorem band_lens_row :
    let r : Raster := ⟨2, 1, 3, [[0, 1, 2], [3, 4, 5]]⟩
    let row : Plane := ⟨2, 1, [6, 7]⟩
    let column : Plane := ⟨1, 2, [6, 7]⟩
    r.WellFormed ∧ 0 < r.channels ∧ row.WellFormed ∧ row.size = r.size ∧
      (∃ s, r.setBand 0 row = .ok s ∧ s.band 0 = .ok row ∧ s.band 1 = .ok ⟨2, 1, [1, 4]⟩ ∧
        s.data[3]? = some 7 ∧ s.data[5]? = some 5) ∧
      r.fillBand 0 8 = r.setBand 0 ⟨2, 1, [8, 8]⟩ ∧
      (∃ u, (r.setBand 0 row >>= (·.fillBand 1 8)) = .ok u ∧
        (r.fillBand 1 8 >>= (·.setBand 0 row)) = .ok u) ∧
      (setBandInPlace 3 row).run.run r = (.error (.image (.missingBand 3 3)), r) ∧
      (setBandInPlace 0 column).run.run r = (.error (.shape (.bandSize (1, 2) (2, 1))), r) ∧
      (fillBandInPlace 3 8).run.run r = (.error (.image (.missingBand 3 3)), r) := by
  intro r row column
  have hr : r.WellFormed := by simp [r, WellFormed]
  have hi : 0 < r.channels := by decide
  have hrow : row.WellFormed := rfl
  obtain ⟨⟨s, hs, hband, hother, hdata⟩, -, hfill, hcomm, hset, hfilled⟩ :=
    band_lens hr hi hrow rfl
  have hsecond : 0 ≠ 1 ∧ 1 < r.channels := by decide
  refine ⟨hr, hi, hrow, rfl, ⟨s, hs, hband, hother 1 hsecond.1, ?_, ?_⟩, hfill 8,
    (hcomm 1 hsecond.1 hsecond.2).2 8, (hset 3 row).1.error _ rfl, (hset 0 column).1.error _ rfl,
    (hfilled 3 8).1.error _ rfl⟩
  · exact hdata 1 0 hi
  · exact hdata 1 2 (by decide)

end Raster

end Recolor
