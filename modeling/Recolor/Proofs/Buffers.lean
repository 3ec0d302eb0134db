import Recolor.ColorSpace.Bands
import Recolor.Proofs.Layout
import Recolor.Proofs.Selection

/-!
# Well-formed rasters

A raster is well formed if each pixel has `channels` values and there is a pixel for each position.
All operations on rasters keep this: taking pixels out and putting them back, copying selected
pixels, and reading and writing bands. What is read of a well-formed raster is laid out in its size.
-/

set_option autoImplicit false

namespace Recolor

/-- The position is selected. -/
def Mask.selects (m : Mask) (i : Nat) : Bool := m.bits[i]? == some true

namespace Mask

/-- A mask selects a position exactly if it has a true bit there. -/
theorem selects_iff {m : Mask} {i : Nat} : m.selects i = true ↔ m.bits[i]? = some true := by
  simp [selects]

/-- A mask that selects something has a selected position. -/
theorem any_iff {m : Mask} : m.any = true ↔ ∃ i, m.selects i = true := by
  simp only [any, List.any_eq_true, id, selects_iff, List.mem_iff_getElem?]
  constructor
  · rintro ⟨_, ⟨i, hi⟩, rfl⟩
    exact ⟨i, hi⟩
  · rintro ⟨i, hi⟩
    exact ⟨true, ⟨i, hi⟩, rfl⟩

/-- A selected position lies inside the mask. -/
theorem lt_of_selects {m : Mask} {i : Nat} (h : m.selects i = true) : i < m.bits.length :=
  (List.getElem?_eq_some_iff.1 (selects_iff.1 h)).1

end Mask

namespace Raster

variable {r s chunk source : Raster} {m : Mask}

/-! ## Pixels -/

/-- An image with channels has a pixel for each position. -/
theorem WellFormed.length_pixels (h : r.WellFormed) (hc : r.channels ≠ 0) :
    r.pixels.length = r.area := by
  rw [h.2, if_neg hc, area]

/-- The image that is zero everywhere is well formed. -/
theorem wellFormed_zero (width height channels : Nat) :
    (zero width height channels).WellFormed := by
  refine ⟨fun p hp => ?_, List.length_replicate⟩
  obtain ⟨-, rfl⟩ := List.mem_replicate.1 hp
  simp [zero]

/-- A list of pixels of `channels` values makes a one-row image. -/
theorem wellFormed_row {pixels : List Pixel} {channels : Nat} (hc : channels ≠ 0)
    (h : ∀ p ∈ pixels, p.length = channels) :
    (⟨pixels.length, 1, channels, pixels⟩ : Raster).WellFormed :=
  ⟨h, by simp [hc]⟩

/-- The pixels that are taken out are a well-formed image. -/
theorem WellFormed.gather (h : r.WellFormed) (hc : r.channels ≠ 0) (m : Mask) :
    (r.gather m).WellFormed :=
  wellFormed_row hc fun p hp => h.1 p (mem_of_mem_selected hp)

/-- As many pixels are taken out as are selected. -/
theorem area_gather (h : m.bits.length ≤ r.pixels.length) : (r.gather m).area = m.count := by
  simp [gather, area, length_selected h, Mask.count]

/-- An image is put back if it has as many channels, and as many pixels as are selected. -/
theorem scatter_eq_ok :
    r.scatter m chunk = .ok s ↔
      (chunk.channels = r.channels ∧ chunk.area = m.count) ∧
        s = { r with pixels := replaceSelected m.bits r.pixels chunk.pixels } := by
  unfold scatter
  split
  next h => simp [h, @eq_comm _ s]
  next h => simp [h]

/-- Putting an image back keeps a raster well formed. -/
theorem WellFormed.scatter (hr : r.WellFormed) (hchunk : chunk.WellFormed)
    (h : r.scatter m chunk = .ok s) : s.WellFormed := by
  obtain ⟨⟨hchannels, -⟩, rfl⟩ := scatter_eq_ok.1 h
  refine ⟨fun p hp => ?_, (length_replaceSelected _ _ _).trans hr.2⟩
  rcases mem_of_mem_replaceSelected hp with hp | hp
  · exact hr.1 p hp
  · exact (hchunk.1 p hp).trans hchannels

/-- Copying selected pixels of an image of as many channels keeps a raster well formed. -/
theorem WellFormed.copySelected (hr : r.WellFormed) (hsource : source.WellFormed)
    (hchannels : source.channels = r.channels) (m : Mask) :
    (r.copySelected source m).WellFormed := by
  refine ⟨fun p hp => ?_, (length_chooseSelected _ _ _).trans hr.2⟩
  rcases mem_of_mem_chooseSelected hp with hp | hp
  · exact hr.1 p hp
  · exact (hsource.1 p hp).trans hchannels

/-- Changing each pixel without changing its length keeps a raster well formed. -/
theorem WellFormed.mapPixels (h : r.WellFormed) {f : Pixel → Pixel}
    (hf : ∀ p, (f p).length = p.length) : (r.mapPixels f).WellFormed := by
  refine ⟨fun p hp => ?_, List.length_map f |>.trans h.2⟩
  obtain ⟨q, hq, rfl⟩ := List.mem_map.1 hp
  exact (hf q).trans (h.1 q hq)

/-! ## Bands -/

variable {i : Nat} {x : Number} {plane : Plane}

/-- A band is there if its number is below that of the channels. -/
theorem requireBand_eq_ok {u : Unit} : r.requireBand i = .ok u ↔ i < r.channels := by
  unfold requireBand
  split <;> simp_all

/-- A band can be read exactly if the image has it, and holds one number of each pixel. -/
theorem band_eq_ok :
    r.band i = .ok plane ↔
      i < r.channels ∧ plane = ⟨r.width, r.height, r.pixels.map (·.getD i 0)⟩ := by
  simp only [band, bind_eq_ok, requireBand_eq_ok, pure_eq_ok, Except.ok.injEq, exists_const,
    @eq_comm _ plane]

/-- A band can be written exactly if the image has it and the plane has its size; then the numbers
of the plane stand in that band. -/
theorem setBand_eq_ok :
    r.setBand i plane = .ok s ↔
      i < r.channels ∧ plane.size = r.size ∧
        s = { r with pixels := writeBand i r.pixels plane.values } := by
  simp only [setBand, bind_eq_ok, requireBand_eq_ok, exists_const]
  refine and_congr_right fun _ => ?_
  split
  next h => simp [h, @eq_comm _ s]
  next h => simp [h]

/-- A band can be filled exactly if the image has it; then one number stands in that band
everywhere. -/
theorem fillBand_eq_ok :
    r.fillBand i x = .ok s ↔
      i < r.channels ∧ s = { r with pixels := r.pixels.map (·.set i x) } := by
  simp only [fillBand, bind_eq_ok, requireBand_eq_ok, pure_eq_ok, Except.ok.injEq, exists_const,
    @eq_comm _ s]

/-- A band of a well-formed raster is laid out in the size of the raster. -/
theorem WellFormed.laid_band (h : r.WellFormed) (hband : r.band i = .ok plane) :
    (Value.band plane).Laid (.ofSize r.size) := by
  obtain ⟨hi, rfl⟩ := band_eq_ok.1 hband
  refine ⟨rfl, ?_⟩
  simpa [area] using h.length_pixels (by omega)

/-- Writing a band writes no pixel more or less. -/
@[simp] theorem length_writeBand (i : Nat) (ps : List Pixel) (xs : List Number) :
    (writeBand i ps xs).length = ps.length := by
  induction ps generalizing xs with
  | nil => cases xs <;> rfl
  | cons p ps ih => cases xs <;> simp [writeBand, ih]

/-- A pixel whose band is written has the number at its place in the band. -/
theorem getElem?_writeBand {ps : List Pixel} {xs : List Number} (hl : ps.length = xs.length)
    (j : Nat) : (writeBand i ps xs)[j]? = ps[j]?.map (·.set i (xs.getD j 0)) := by
  induction ps generalizing xs j with
  | nil => cases xs <;> simp [writeBand]
  | cons p ps ih =>
    cases xs with
    | nil => simp at hl
    | cons x xs =>
      cases j with
      | zero => simp [writeBand]
      | succ j => simpa [writeBand] using ih (by simpa using hl) j

/-- Pixels whose band is written keep their length. -/
theorem length_of_mem_writeBand {ps : List Pixel} {xs : List Number} {n : Nat}
    (h : ∀ p ∈ ps, p.length = n) : ∀ p ∈ writeBand i ps xs, p.length = n := by
  induction ps generalizing xs with
  | nil => cases xs <;> exact h
  | cons p ps ih =>
    cases xs with
    | nil => exact h
    | cons x xs =>
      intro q hq
      rcases List.mem_cons.1 hq with rfl | hq
      · simpa using h p List.mem_cons_self
      · exact ih (fun q hq => h q (List.mem_cons_of_mem _ hq)) q hq

/-- Writing a plane into a band keeps a raster well formed. -/
theorem WellFormed.setBand (h : r.WellFormed) (hs : r.setBand i plane = .ok s) : s.WellFormed := by
  obtain ⟨-, -, rfl⟩ := setBand_eq_ok.1 hs
  exact ⟨length_of_mem_writeBand h.1, (length_writeBand _ _ _).trans h.2⟩

/-- Writing one number into a band keeps a raster well formed. -/
theorem WellFormed.fillBand (h : r.WellFormed) (hs : r.fillBand i x = .ok s) : s.WellFormed := by
  obtain ⟨-, rfl⟩ := fillBand_eq_ok.1 hs
  refine ⟨fun p hp => ?_, (List.length_map _).trans h.2⟩
  obtain ⟨q, hq, rfl⟩ := List.mem_map.1 hp
  simpa using h.1 q hq

/-- What has been written into a band can be read from it. -/
theorem map_getD_writeBand {ps : List Pixel} {xs : List Number} (hl : ps.length = xs.length)
    (hp : ∀ p ∈ ps, i < p.length) : (writeBand i ps xs).map (·.getD i 0) = xs := by
  induction ps generalizing xs with
  | nil =>
    cases xs with
    | nil => rfl
    | cons x xs => cases hl
  | cons p ps ih =>
    cases xs with
    | nil => cases hl
    | cons x xs =>
      have hfirst : i < p.length := hp p List.mem_cons_self
      have hrest := ih (Nat.succ.inj hl) fun q hq => hp q (List.mem_cons_of_mem _ hq)
      rw [writeBand, List.map_cons, hrest]
      simp [hfirst]

/-- A band that was written reads as the plane that was written into it. -/
theorem band_setBand (h : r.WellFormed) (hplane : (Value.band plane).Laid (.ofSize r.size))
    (hi : i < r.channels) : ∃ s, r.setBand i plane = .ok s ∧ s.band i = .ok plane := by
  obtain ⟨hsize, hlength⟩ := hplane
  obtain ⟨hwidth, hheight⟩ := Prod.mk.inj hsize
  refine ⟨_, setBand_eq_ok.2 ⟨hi, hsize, rfl⟩, band_eq_ok.2 ⟨hi, ?_⟩⟩
  have hpixels : r.pixels.length = plane.values.length := by
    rw [h.length_pixels (by omega), hlength, area, hwidth, hheight]
  have hvalues : (writeBand i r.pixels plane.values).map (·.getD i 0) = plane.values :=
    map_getD_writeBand hpixels fun p hp => (h.1 p hp).symm ▸ hi
  simp only [hvalues, ← hwidth, ← hheight]

/-! ## Other bands -/

/-- Images of one shape have one band if its values are the same at all pixels. -/
theorem band_eq_band {j : Nat} (hsize : s.size = r.size) (hchannels : s.channels = r.channels)
    (hvalues : s.pixels.map (·.getD j 0) = r.pixels.map (·.getD j 0)) : s.band j = r.band j := by
  have hwidth : s.width = r.width := congrArg Prod.fst hsize
  have hheight : s.height = r.height := congrArg Prod.snd hsize
  simp only [band, requireBand, hchannels, hwidth, hheight, hvalues]

/-- Writing a band changes no other band of a pixel. -/
theorem getD_set_of_ne {j : Nat} (hij : i ≠ j) (p : Pixel) : (p.set i x).getD j 0 = p.getD j 0 := by
  rw [List.getD_eq_getElem?_getD, List.getElem?_set_ne hij, List.getD_eq_getElem?_getD]

/-- Writing a band leaves what is read from another. -/
theorem map_getD_writeBand_of_ne {j : Nat} (hij : i ≠ j) (ps : List Pixel) (xs : List Number) :
    (writeBand i ps xs).map (·.getD j 0) = ps.map (·.getD j 0) := by
  induction ps generalizing xs with
  | nil => cases xs <;> rfl
  | cons p ps ih =>
    cases xs with
    | nil => rfl
    | cons x xs => rw [writeBand, List.map_cons, List.map_cons, getD_set_of_ne hij, ih]

/-- Writing a band changes no other band. -/
theorem band_setBand_of_ne {j : Nat} (hij : i ≠ j) (h : r.setBand i plane = .ok s) :
    s.band j = r.band j := by
  obtain ⟨-, -, rfl⟩ := setBand_eq_ok.1 h
  exact band_eq_band rfl rfl (map_getD_writeBand_of_ne hij _ _)

/-- Filling a band changes no other band. -/
theorem band_fillBand_of_ne {j : Nat} (hij : i ≠ j) (h : r.fillBand i x = .ok s) :
    s.band j = r.band j := by
  obtain ⟨-, rfl⟩ := fillBand_eq_ok.1 h
  refine band_eq_band rfl rfl ?_
  rw [List.map_map]
  exact List.map_congr_left fun p _ => getD_set_of_ne hij p

/-- Changing each pixel without its value in a band keeps the band. -/
theorem band_mapPixels {j : Nat} {f : Pixel → Pixel} (hf : ∀ p, (f p).getD j 0 = p.getD j 0)
    (r : Raster) : (r.mapPixels f).band j = r.band j := by
  refine band_eq_band rfl rfl ?_
  rw [mapPixels, List.map_map]
  exact List.map_congr_left fun p _ => hf p

/-- Writing a band with what is read from it changes nothing. -/
theorem writeBand_map_getD (i : Nat) (ps : List Pixel) :
    writeBand i ps (ps.map (·.getD i 0)) = ps := by
  induction ps with
  | nil => rfl
  | cons p ps ih =>
    have hp : p.set i (p.getD i 0) = p := by
      apply List.ext_getElem?
      intro j
      by_cases hij : i = j
      · subst hij
        rw [List.getElem?_set_self', List.getD_eq_getElem?_getD]
        cases p[i]? <;> rfl
      · rw [List.getElem?_set_ne hij]
    rw [List.map_cons, writeBand, hp, ih]

/-- A band that is written back as it was read changes nothing. -/
theorem setBand_band (h : r.band i = .ok plane) : r.setBand i plane = .ok r := by
  obtain ⟨hi, rfl⟩ := band_eq_ok.1 h
  refine setBand_eq_ok.2 ⟨hi, rfl, ?_⟩
  rw [writeBand_map_getD]

end Raster

end Recolor
