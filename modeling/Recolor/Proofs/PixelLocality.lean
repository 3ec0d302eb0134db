import Recolor.Proofs.Checked
import Recolor.Proofs.FirstMatch
import Recolor.Proofs.PixelRules

/-!
# Compiled scripts are local to pixels

A run of a compiled script on an image is, at each pixel, the run on the image of that pixel alone.
Pixels are shared out in the same way (`Mapper.partition_cell`), writing the pixels of an entry
changes a pixel as if it were alone (`Mapper.recolour_cell`), and fails only if it fails for some
pixel alone (`Mapper.recolour_cell_eq_error`). Both carry over to all entries, and to scripts in
`CompiledScript.run_pixel`.
-/

set_option autoImplicit false

namespace Recolor

variable {image output out r : Raster} {m : Mask} {i : Nat}

/-! ## Masks and chunks at a pixel -/

/-- The cell of a mask holds whether the position is selected. -/
theorem Mask.bits_cell (i : Nat) (m : Mask) : (m.cell i).bits = [m.selects i] := by
  simp only [cell, selects, List.getD_eq_getElem?_getD]
  cases m.bits[i]? with
  | none => rfl
  | some b => cases b <;> rfl

/-- The cell of a mask selects something if the mask selects the position. -/
theorem Mask.any_cell (i : Nat) (m : Mask) : (m.cell i).any = m.selects i := by
  simp [any, bits_cell]

/-- A mask that selects nothing selects no position. -/
theorem Mask.selects_eq_false_of_any (h : m.any = false) : m.selects i = false := by
  cases hi : m.selects i with
  | false => rfl
  | true => exact absurd (any_iff.2 ⟨i, hi⟩) (by simp [h])

namespace Raster

/-- A column and a row of an image make a position. -/
theorem position_lt_area {x y : Nat} (hx : x < r.width) (hy : y < r.height) :
    y * r.width + x < r.area := by
  have hrow : y * r.width + r.width ≤ r.height * r.width := by
    rw [← Nat.succ_mul]
    exact Nat.mul_le_mul_right _ hy
  rw [area, Nat.mul_comm r.width]
  omega

/-- Each position of an image lies in a column and a row. -/
theorem exists_position (hi : i < r.area) :
    ∃ x y, x < r.width ∧ y < r.height ∧ i = y * r.width + x := by
  have hwidth : 0 < r.width := Nat.pos_of_ne_zero fun h => by simp [area, h] at hi
  refine ⟨i % r.width, i / r.width, Nat.mod_lt _ hwidth, ?_, ?_⟩
  · rw [Nat.div_lt_iff_lt_mul hwidth, Nat.mul_comm]
    exact hi
  · rw [Nat.mul_comm]
    exact (Nat.div_add_mod i r.width).symm

/-- Cells of rasters of one shape have one shape. -/
theorem Like.cell {s : Raster} (h : r.Like s) (hr : r.WellFormed) (hi : i < r.pixels.length) :
    (r.cell i).Like (s.cell i) :=
  ⟨h.wellFormed.cell (h.lt_length hr hi), rfl, h.channels⟩

/-- Pixels are copied one by one. -/
theorem copySelected_cell (himage : image.WellFormed) (houtput : image.Like output) (m : Mask)
    (i : Nat) : (output.copySelected image m).cell i =
      (output.cell i).copySelected (image.cell i) (m.cell i) := by
  have hpixel : (output.copySelected image m).pixels.getD i [] =
      if m.selects i = true then image.pixels.getD i [] else output.pixels.getD i [] := by
    simp only [List.getD_eq_getElem?_getD, Mapper.getElem?_copySelected himage houtput]
    split <;> rfl
  simp only [Raster.cell, hpixel]
  simp [copySelected, Mask.bits_cell, chooseSelected]

/-- A selected pixel is found among the pixels that are taken out. -/
theorem gather_cell (hi : m.selects i = true) :
    (r.cell i).gather (m.cell i) = (r.gather m).cell (rank m.bits i) := by
  have hpixel := @getElem?_selected _ m.bits r.pixels i (Mask.selects_iff.1 hi)
  simp [gather, Raster.cell, Mask.bits_cell, hi, selected, List.getD_eq_getElem?_getD, hpixel]

/-- The pixels that are taken out are as many as are selected. -/
theorem rank_lt_length (hm : m.bits.length = r.pixels.length) (hi : m.selects i = true) :
    rank m.bits i < (r.gather m).pixels.length := by
  have hrank := rank_lt_count (Mask.selects_iff.1 hi)
  rwa [← length_selected (Nat.le_of_eq hm)] at hrank

/-- A pixel that is put back is the one at its place among the pixels that were taken out. -/
theorem scatter_cell {chunk : Raster} (hm : m.bits.length = r.pixels.length)
    (hlength : chunk.pixels.length = m.count) (hi : m.selects i = true)
    (h : r.scatter m chunk = .ok out) :
    (r.cell i).scatter (m.cell i) (chunk.cell (rank m.bits i)) = .ok (out.cell i) := by
  obtain ⟨⟨hchannels, -⟩, rfl⟩ := scatter_eq_ok.1 h
  have hpixel := @getElem?_replaceSelected _ m.bits r.pixels chunk.pixels i (Mask.selects_iff.1 hi)
    (hm ▸ Mask.lt_of_selects hi) (hlength ▸ rank_lt_count (Mask.selects_iff.1 hi))
  refine scatter_eq_ok.2 ⟨⟨hchannels, ?_⟩, ?_⟩
  · simp [Raster.cell, area, Mask.count, Mask.bits_cell, hi]
  · simp [Raster.cell, Mask.bits_cell, hi, replaceSelected, List.getD_eq_getElem?_getD, hpixel]

/-- Putting pixels back changes no other pixel. -/
theorem scatter_cell_of_ne {chunk : Raster} (hi : m.selects i = false)
    (h : r.scatter m chunk = .ok out) : out.cell i = r.cell i := by
  obtain ⟨-, rfl⟩ := scatter_eq_ok.1 h
  have hpixel : (replaceSelected m.bits r.pixels chunk.pixels)[i]? = r.pixels[i]? :=
    getElem?_replaceSelected_of_ne fun hbit => by simp [Mask.selects_iff.2 hbit] at hi
  simp [Raster.cell, List.getD_eq_getElem?_getD, hpixel]

end Raster

namespace Mapper

/-! ## Sharing out -/

/-- A part of an entry with its cell for a mask. -/
def cellOfPart (i : Nat) (part : Mask × Entry) : Mask × Entry := (part.1.cell i, part.2)

/-- Pixels are shared out one by one. -/
theorem partition_cell {entries : List Entry} {c : Context} {remaining : Mask}
    (he : ∀ e ∈ entries, e.Pixelwise) (hc : c.All c.image.Like) (hi : i < c.image.pixels.length)
    (hremaining : (Value.mask remaining).Laid (.ofSize c.image.size)) :
    partition entries (c.cell i) (remaining.cell i) =
      (partition entries c remaining).map fun shared =>
        (shared.1.map (cellOfPart i), shared.2.cell i) := by
  induction entries generalizing c remaining with
  | nil => rfl
  | cons e entries ih =>
    have hfirst := he e List.mem_cons_self
    have harea := hc.image.wellFormed.lt_area hi
    obtain ⟨-, hall, himage⟩ :=
      hc.request e.masker.space (hfirst.masker.space.encode.like hc.image.wellFormed)
    rw [partition_cons, partition_cons, hfirst.masker.mask_cell hc hi]
    simp only [bind_map, map_bind]
    refine bind_congr_ok fun m hm => ?_
    have hmask := hfirst.masker.keepsShape.laid_mask hc hm
    simp only [Mask.and, Mask.cell_zipWith hremaining hmask harea, bind_map]
    refine bind_congr_ok fun matched hmatched => ?_
    have hcomplement : (Value.mask matched.complement).Laid (.ofSize c.image.size) :=
      Mask.laid_map (Mask.laid_zipWith hremaining hmask hmatched)
    have hcell : (matched.cell i).complement = matched.complement.cell i :=
      (Mask.cell_map (Mask.laid_zipWith hremaining hmask hmatched) harea).symm
    simp only [hcell, Mask.cell_zipWith hremaining hcomplement harea, bind_map]
    refine bind_congr_ok fun left hleft => ?_
    have hlaid := Mask.laid_zipWith hremaining hcomplement hleft
    have himage : (e.masker.mask c).2.image = c.image := himage
    have hrest := @ih (e.masker.mask c).2 left (fun e he' => he e (List.mem_cons_of_mem _ he'))
      (himage.symm ▸ hall) (himage.symm ▸ hi) (himage.symm ▸ hlaid)
    rw [hrest, bind_map]
    rfl

/-! ## Writing -/

variable {part : Mask × Entry} {parts : List (Mask × Entry)}

/-- At a pixel that its mask selects, the actions of an entry make of the pixel alone what they make
of it among all others. -/
theorem apply_gather_cell (himage : image.WellFormed) (hc : image.channels ≠ 0)
    (hmask : part.1.bits.length = image.pixels.length) (he : part.2.Pixelwise)
    (hi : part.1.selects i = true) :
    part.2.apply ((image.cell i).gather (part.1.cell i)) =
      (part.2.apply (image.gather part.1)).map (Raster.cell (rank part.1.bits i)) := by
  rw [Raster.gather_cell hi]
  exact he.apply_cell (himage.gather hc part.1) (Raster.rank_lt_length hmask hi)

/-- What an entry makes of an image is, at each pixel, what it makes of the pixel alone. -/
theorem recolour_cell (himage : image.WellFormed) (hi : i < image.pixels.length)
    (houtput : image.Like output) (hmask : part.1.bits.length = image.pixels.length)
    (he : part.2.Pixelwise) (h : recolour image output part = .ok out) :
    recolour (image.cell i) (output.cell i) (cellOfPart i part) = .ok (out.cell i) := by
  have hc := himage.channels_ne_zero hi
  have hcopied := Raster.copySelected_cell himage houtput part.1 i
  refine recolour_eq_ok.2 ?_
  rcases recolour_eq_ok.1 h with ⟨hnone, rfl⟩ | ⟨hactions, hany, chunk, happly, hscatter⟩
  · refine .inl ⟨hnone.imp_right fun hany => ?_, hcopied⟩
    exact (Mask.any_cell i part.1).trans (Mask.selects_eq_false_of_any hany)
  · cases hselects : part.1.selects i with
    | false =>
      -- the chunk does not hold this pixel, which is copied like all pixels of the entry
      refine .inl ⟨.inr ((Mask.any_cell i part.1).trans hselects), ?_⟩
      exact (Raster.scatter_cell_of_ne hselects hscatter).trans hcopied
    | true =>
      refine .inr ⟨hactions, (Mask.any_cell i part.1).trans hselects,
        chunk.cell (rank part.1.bits i), ?_, ?_⟩
      · rw [gather_copySelected himage houtput] at happly
        have hcell := gather_copySelected (himage.cell hi) (houtput.cell himage hi) (part.1.cell i)
        rw [show (cellOfPart i part).1 = part.1.cell i from rfl, hcell]
        refine (apply_gather_cell himage hc hmask he hselects).trans ?_
        rw [happly]
        rfl
      · have hcopiedLike : image.Like (output.copySelected image part.1) :=
          ⟨houtput.wellFormed.copySelected himage houtput.channels.symm part.1, houtput.size,
            houtput.channels⟩
        have hgathered := hcopiedLike.wellFormed.gather (by rwa [hcopiedLike.channels]) part.1
        have hbits : part.1.bits.length = (output.copySelected image part.1).pixels.length :=
          hmask.trans (hcopiedLike.length_pixels himage).symm
        have hlike := he.keepsShape.like_apply hgathered happly
        have hlength : chunk.pixels.length = part.1.count :=
          (hlike.length_pixels hgathered).trans (length_selected (Nat.le_of_eq hbits))
        rw [show (cellOfPart i part).1 = part.1.cell i from rfl, ← hcopied]
        exact Raster.scatter_cell hbits hlength hselects hscatter

/-- An entry fails on an image only if it fails on some pixel of the image alone. -/
theorem recolour_cell_eq_error {fault : Fault} (himage : image.WellFormed)
    (hc : image.channels ≠ 0) (houtput : image.Like output)
    (hmask : part.1.bits.length = image.pixels.length) (he : part.2.Pixelwise)
    (h : recolour image output part = .error fault) :
    ∃ i < image.pixels.length,
      recolour (image.cell i) (output.cell i) (cellOfPart i part) = .error fault := by
  obtain ⟨hactions, hany, hspoilt⟩ := spoilt_of_recolour himage houtput hmask h
  have hgathered := himage.gather hc part.1
  cases hspoilt with
  | chunk happly hshape =>
    -- compiled actions do not change the shape of a chunk
    have hlike := he.keepsShape.like_apply hgathered happly
    exact absurd hlike.area_eq (hshape.resolve_left fun h => h hlike.channels)
  | action happly =>
    obtain ⟨i, hselects⟩ := Mask.any_iff.1 hany
    have hi : i < image.pixels.length := hmask ▸ Mask.lt_of_selects hselects
    refine ⟨i, hi, ?_⟩
    have hcell := gather_copySelected (himage.cell hi) (houtput.cell himage hi) (part.1.cell i)
    have happlied := apply_gather_cell himage hc hmask he hselects
    rw [happly] at happlied
    simp only [recolour, cellOfPart, hcell, happlied, Mask.any_cell, hselects]
    simp [hactions]

/-- What all entries make of an image is, at each pixel, what they make of the pixel alone. -/
theorem foldlM_recolour_cell (himage : image.WellFormed) (hi : i < image.pixels.length)
    (houtput : image.Like output)
    (hmasks : ∀ part ∈ parts, part.1.bits.length = image.pixels.length)
    (he : ∀ part ∈ parts, part.2.Pixelwise) (h : parts.foldlM (recolour image) output = .ok out) :
    (parts.map (cellOfPart i)).foldlM (recolour (image.cell i)) (output.cell i) =
      .ok (out.cell i) := by
  induction parts generalizing output with
  | nil =>
    cases h
    rfl
  | cons part rest ih =>
    obtain ⟨next, hnext, hrest⟩ := bind_eq_ok.1 h
    have hmask := hmasks part List.mem_cons_self
    have hpart := he part List.mem_cons_self
    obtain ⟨hlike, -⟩ := painted_of_recolour himage (himage.channels_ne_zero hi) houtput hmask
      hpart.keepsShape.wellFormed hnext
    simp only [List.map_cons, List.foldlM_cons, recolour_cell himage hi houtput hmask hpart hnext,
      ok_bind]
    exact ih hlike (fun p hp => hmasks p (List.mem_cons_of_mem _ hp))
      (fun p hp => he p (List.mem_cons_of_mem _ hp)) hrest

/-- Entries fail on an image only if they fail on some pixel of the image alone. -/
theorem foldlM_recolour_cell_eq_error {fault : Fault} (himage : image.WellFormed)
    (hc : image.channels ≠ 0) (houtput : image.Like output)
    (hmasks : ∀ part ∈ parts, part.1.bits.length = image.pixels.length)
    (he : ∀ part ∈ parts, part.2.Pixelwise)
    (h : parts.foldlM (recolour image) output = .error fault) :
    ∃ i < image.pixels.length,
      (parts.map (cellOfPart i)).foldlM (recolour (image.cell i)) (output.cell i) =
        .error fault := by
  induction parts generalizing output with
  | nil => cases h
  | cons part rest ih =>
    have hmask := hmasks part List.mem_cons_self
    have hpart := he part List.mem_cons_self
    rcases bind_eq_error.1 h with hfirst | ⟨next, hnext, hrest⟩
    · obtain ⟨i, hi, hcell⟩ := recolour_cell_eq_error himage hc houtput hmask hpart hfirst
      refine ⟨i, hi, ?_⟩
      simp only [List.map_cons, List.foldlM_cons, hcell, error_bind]
    · obtain ⟨hlike, -⟩ :=
        painted_of_recolour himage hc houtput hmask hpart.keepsShape.wellFormed hnext
      obtain ⟨i, hi, hcell⟩ := ih hlike (fun p hp => hmasks p (List.mem_cons_of_mem _ hp))
        (fun p hp => he p (List.mem_cons_of_mem _ hp)) hrest
      refine ⟨i, hi, ?_⟩
      simp only [List.map_cons, List.foldlM_cons,
        recolour_cell himage hi houtput hmask hpart hnext, ok_bind, hcell]

/-! ## A whole run -/

variable {mapper : Mapper} {caching : Bool}

/-- Once the pixels of an image are shared out among compiled entries, each part belongs to one of
them and has a bit for each pixel of the image, and no two parts have a pixel in common. -/
theorem pixelwise_of_partition {entries : List Entry} {rest : Mask}
    (he : ∀ e ∈ entries, e.Pixelwise) (himage : image.WellFormed) (hc : image.channels ≠ 0)
    (h : partition entries (.start image caching)
      ((Mask.filled image.width image.height true).without []) = .ok (parts, rest)) :
    (∀ part ∈ parts, part.1.bits.length = image.pixels.length ∧ part.2.Pixelwise) ∧
      parts.Pairwise fun p q => ∀ i, p.1.selects i = true → q.1.selects i = false := by
  obtain ⟨masks, -, -, hparts, rfl, -⟩ :=
    of_partition_eq_ok (fun e h => (he e h).keepsShape.wellFormed) himage hc h
  refine ⟨fun part hpart => ⟨(hparts part hpart).1, ?_⟩, pairwise_claims⟩
  obtain ⟨k, e, m, hk, -, rfl⟩ := mem_claims.1 hpart
  exact he e (List.mem_of_getElem? hk)

/-- Pixels are shared out from the start as if each were alone. -/
theorem partition_start_cell {entries : List Entry} (he : ∀ e ∈ entries, e.Pixelwise)
    (himage : image.WellFormed) (hi : i < image.pixels.length) :
    partition entries (.start (image.cell i) caching)
        ((Mask.filled (image.cell i).width (image.cell i).height true).without []) =
      (partition entries (.start image caching)
        ((Mask.filled image.width image.height true).without [])).map fun shared =>
          (shared.1.map (cellOfPart i), shared.2.cell i) := by
  have harea : i < image.width * image.height := himage.lt_area hi
  have hfilled : (Mask.filled image.width image.height true).cell i = Mask.filled 1 1 true := by
    simp [Mask.filled, Mask.cell, List.getD_eq_getElem?_getD, harea]
  have hcell := @partition_cell i entries (.start image caching)
    (Mask.filled image.width image.height true) he (.start (.refl himage)) hi
    ⟨rfl, Mask.wellFormed_filled _ _ _⟩
  rwa [← Context.start_cell, hfilled, ← Mask.without_nil (Mask.filled 1 1 true),
    ← Mask.without_nil (Mask.filled image.width image.height true)] at hcell

/-- The blank image of one pixel. -/
theorem zero_cell (himage : image.WellFormed) (hi : i < image.pixels.length) :
    Raster.zero (image.cell i).width (image.cell i).height (image.cell i).channels =
      (Raster.zero image.width image.height image.channels).cell i := by
  have harea : i < image.width * image.height := himage.lt_area hi
  have hc := himage.channels_ne_zero hi
  simp [Raster.zero, Raster.cell, hc, List.getD_eq_getElem?_getD, harea]

/-- The result of a run is, at each pixel, that of a run on the pixel alone. -/
theorem run_cell (hm : ∀ e ∈ mapper.entries, e.Pixelwise) (himage : image.WellFormed)
    (hc : image.channels = 3 ∨ image.channels = 4) (hi : i < image.pixels.length)
    (h : mapper.run image caching = .ok out) :
    mapper.run (image.cell i) caching = .ok (out.cell i) := by
  obtain ⟨parts, rest, hshared, output, houtput, rfl⟩ := (run_eq_ok hc).1 h
  have hc' := himage.channels_ne_zero hi
  have hcell : (image.cell i).channels = 3 ∨ (image.cell i).channels = 4 := hc
  obtain ⟨hparts, hdisjoint⟩ := pixelwise_of_partition hm himage hc' hshared
  obtain ⟨hlike, -⟩ := painted_of_foldlM himage hc' (like_zero image)
    (fun part hpart => (hparts part hpart).1)
    (fun part hpart => (hparts part hpart).2.keepsShape.wellFormed)
    hdisjoint houtput
  have hwritten := foldlM_recolour_cell himage hi (like_zero image)
    (fun part hpart => (hparts part hpart).1) (fun part hpart => (hparts part hpart).2) houtput
  refine (run_eq_ok hcell).2 ⟨parts.map (cellOfPart i), rest.cell i, ?_, output.cell i, ?_, ?_⟩
  · rw [partition_start_cell hm himage hi, hshared]
    rfl
  · rwa [zero_cell himage hi]
  · exact Raster.copySelected_cell himage hlike rest i

/-- A run on an image fails only if it fails on some pixel of the image alone. -/
theorem run_cell_eq_error {fault : Fault} (hm : ∀ e ∈ mapper.entries, e.Pixelwise)
    (himage : image.WellFormed) (hc : image.channels = 3 ∨ image.channels = 4)
    (harea : 0 < image.area) (h : mapper.run image caching = .error fault) :
    ∃ i < image.pixels.length, mapper.run (image.cell i) caching = .error fault := by
  have hc' : image.channels ≠ 0 := by omega
  have hcells : ∀ i, (image.cell i).channels = 3 ∨ (image.cell i).channels = 4 := fun _ => hc
  rcases (run_eq_error hc).1 h with hshared | ⟨parts, rest, hshared, hwritten⟩
  · have hfirst : 0 < image.pixels.length := by rwa [himage.length_pixels hc']
    refine ⟨0, hfirst, (run_eq_error (hcells 0)).2 (.inl ?_)⟩
    rw [partition_start_cell hm himage hfirst, hshared]
    rfl
  · obtain ⟨hparts, -⟩ := pixelwise_of_partition hm himage hc' hshared
    obtain ⟨i, hi, hcell⟩ := foldlM_recolour_cell_eq_error himage hc' (like_zero image)
      (fun part hpart => (hparts part hpart).1) (fun part hpart => (hparts part hpart).2) hwritten
    refine ⟨i, hi,
      (run_eq_error (hcells i)).2 (.inr ⟨parts.map (cellOfPart i), rest.cell i, ?_, ?_⟩)⟩
    · rw [partition_start_cell hm himage hi, hshared]
      rfl
    · rwa [zero_cell himage hi]

end Mapper

/-! ## Scripts -/

namespace Registry

variable {registry : Registry}

/-- A space that is found is one of the registry. -/
theorem mem_of_resolve {key : String} {space : ColorSpace}
    (h : registry.resolve key = .ok space) : space ∈ registry.spaces := by
  unfold resolve at h
  split at h
  next s hs =>
    cases h
    exact List.mem_of_find?_eq_some hs
  next => cases h

/-- What a sorted list holds after an insertion is the new space or was there before. -/
theorem mem_of_mem_insertSorted {s t : ColorSpace} {ts : List ColorSpace}
    (h : t ∈ insertSorted s ts) : t = s ∨ t ∈ ts := by
  induction ts with
  | nil => exact .inl (List.mem_singleton.1 h)
  | cons u ts ih =>
    unfold insertSorted at h
    split at h
    · exact List.mem_cons.1 h
    · split at h
      · exact (List.mem_cons.1 h).imp_right (List.mem_cons_of_mem _)
      · rcases List.mem_cons.1 h with rfl | h
        · exact .inr List.mem_cons_self
        · exact (ih h).imp_right (List.mem_cons_of_mem _)

/-- The spaces of a registry are among those that it was made of. -/
theorem mem_of_mem_foldl_register {spaces : List ColorSpace} {space : ColorSpace}
    (h : space ∈ (spaces.foldl register registry).spaces) :
    space ∈ registry.spaces ∨ space ∈ spaces := by
  induction spaces generalizing registry with
  | nil => exact .inl h
  | cons s rest ih =>
    rcases ih h with h | h
    · rcases mem_of_mem_insertSorted h with rfl | h
      · exact .inr List.mem_cons_self
      · exact .inl h
    · exact .inr (List.mem_cons_of_mem _ h)

end Registry

/-- The conversion of the first three numbers of each pixel changes each pixel on its own. -/
theorem ColorSpace.pixelwise_mapPixels (f : Triple → Triple) :
    Raster.Pixelwise (Raster.mapPixels (convertPixel f)) := by
  refine ⟨convertPixel f, fun p => ?_, fun r _ => rfl⟩
  unfold convertPixel
  split <;> rfl

/-- The standard spaces convert each pixel on its own. -/
theorem ColorSpace.pixelwise_of_mem_standard {space : ColorSpace} (h : space ∈ standard) :
    space.Pixelwise := by
  have hid : Raster.Pixelwise id := ⟨id, fun _ => rfl, fun r _ => by simp [Raster.mapPixels]⟩
  simp only [standard, List.mem_cons, List.not_mem_nil, or_false] at h
  rcases h with rfl | rfl | rfl | rfl | rfl | rfl
  · exact ⟨hid, hid⟩
  all_goals exact ⟨pixelwise_mapPixels _, pixelwise_mapPixels _⟩

/-- The registry of the standard spaces converts each pixel on its own. -/
theorem Registry.pixelwise_of_mem_standard {space : ColorSpace}
    (h : space ∈ Registry.standard.spaces) : space.Pixelwise := by
  rcases mem_of_mem_foldl_register h with h | h
  · cases h
  · exact ColorSpace.pixelwise_of_mem_standard h

namespace CompiledScript

variable {source : String} {registry : Registry} {config : Config} {s : CompiledScript}
  {caching : Bool}

/-- The rules of a compiled script work in spaces of the registry, over global variables that are no
planes and masks. -/
theorem compiled_of_mem_entries (h : compile source registry config = .ok s) {e : Entry}
    (he : e ∈ s.mapper.entries) :
    s.globals.Plain ∧
      ((∃ expr, e.masker.predicate = .compiled expr s.globals) ∧
        e.masker.space ∈ registry.spaces) ∧
      ∀ a ∈ e.actions, (∃ statements, a.transform = .compiled statements s.globals) ∧
        a.space ∈ registry.spaces := by
  obtain ⟨program, hglobals, hentries⟩ := of_compile_eq_ok h
  obtain ⟨rule, -, hrule⟩ := exists_of_mem_mapM hentries he
  obtain ⟨hpredicate, hspace, hactions⟩ := of_entry_eq_ok hrule
  refine ⟨plain_of_execute hglobals, ⟨⟨_, hpredicate⟩, Registry.mem_of_resolve hspace⟩, ?_⟩
  intro a ha
  obtain ⟨block, -, htransform, hblock⟩ := hactions a ha
  exact ⟨⟨_, htransform⟩, Registry.mem_of_resolve hblock⟩

/-- All entries of a compiled script work pixel by pixel if all spaces of the registry do. -/
theorem pixelwise_of_compile_eq_ok (hspaces : ∀ space ∈ registry.spaces, space.Pixelwise)
    (h : compile source registry config = .ok s) : ∀ e ∈ s.mapper.entries, e.Pixelwise := by
  intro e he
  obtain ⟨hglobals, ⟨⟨expr, hpredicate⟩, hspace⟩, hactions⟩ := compiled_of_mem_entries h he
  refine ⟨⟨⟨expr, _, hpredicate, hglobals⟩, hspaces _ hspace⟩, fun a ha => ?_⟩
  obtain ⟨⟨statements, htransform⟩, hspace⟩ := hactions a ha
  exact ⟨⟨statements, _, htransform, hglobals⟩, hspaces _ hspace⟩

/-- The policy on alpha bands speaks of the channels of an image only. -/
theorem checkAlpha_cell (policy : AlphaPolicy) (image : Raster) (i : Nat) :
    checkAlpha policy (image.cell i) = checkAlpha policy image := rfl

/-- If a script runs on an image, the result has the shape of the image, and each of its pixels is
that of the result on the pixel alone. -/
theorem run_cell (he : ∀ e ∈ s.mapper.entries, e.Pixelwise) (himage : image.WellFormed)
    (hc : image.channels = 3 ∨ image.channels = 4) (hi : i < image.pixels.length)
    (h : s.run image caching = .ok out) :
    image.Like out ∧ s.run (image.cell i) caching = .ok (out.cell i) := by
  obtain ⟨u, halpha, h⟩ := bind_eq_ok.1 h
  obtain ⟨_, -, hfirst⟩ :=
    Mapper.firstMatch_of_run_eq_ok (fun e h => (he e h).keepsShape.wellFormed) himage hc h
  refine ⟨hfirst.like, ?_⟩
  rw [run, checkAlpha_cell, halpha, ok_bind]
  exact Mapper.run_cell he himage hc hi h

/-- If a script fails on an image, it fails on some pixel of it alone. -/
theorem run_cell_eq_error {fault : Fault} (he : ∀ e ∈ s.mapper.entries, e.Pixelwise)
    (himage : image.WellFormed) (hc : image.channels = 3 ∨ image.channels = 4)
    (harea : 0 < image.area) (h : s.run image caching = .error fault) :
    ∃ i < image.pixels.length, s.run (image.cell i) caching = .error fault := by
  rcases bind_eq_error.1 h with halpha | ⟨u, halpha, h⟩
  · refine ⟨0, ?_, ?_⟩
    · rwa [himage.length_pixels (by omega)]
    · rw [run, checkAlpha_cell, halpha, error_bind]
  · obtain ⟨i, hi, hcell⟩ := Mapper.run_cell_eq_error he himage hc harea h
    refine ⟨i, hi, ?_⟩
    rwa [run, checkAlpha_cell, halpha, ok_bind]

/-- A compiled script is local to pixels: it runs on an image if it runs on the image of each pixel
alone, and each pixel of the result is the pixel of the result of its own image. -/
theorem run_pixel (hspaces : ∀ space ∈ registry.spaces, space.Pixelwise)
    (hs : compile source registry config = .ok s) (himage : image.WellFormed)
    (hc : image.channels = 3 ∨ image.channels = 4) (harea : 0 < image.area) (caching : Bool) :
    ((∃ out, s.run image caching = .ok out) ↔
      ∀ x y, x < image.width → y < image.height →
        ∃ one, s.run ⟨1, 1, image.channels, [image.pixel x y]⟩ caching = .ok one) ∧
    ∀ out, s.run image caching = .ok out → ∀ x y, x < image.width → y < image.height →
      s.run ⟨1, 1, image.channels, [image.pixel x y]⟩ caching =
        .ok ⟨1, 1, image.channels, [out.pixel x y]⟩ := by
  have he := pixelwise_of_compile_eq_ok hspaces hs
  have hlength : image.pixels.length = image.area := himage.length_pixels (by omega)
  have hcell : ∀ out, s.run image caching = .ok out → ∀ x y, x < image.width → y < image.height →
      s.run ⟨1, 1, image.channels, [image.pixel x y]⟩ caching =
        .ok ⟨1, 1, image.channels, [out.pixel x y]⟩ := by
    intro out hout x y hx hy
    have hi : y * image.width + x < image.pixels.length := hlength ▸ Raster.position_lt_area hx hy
    obtain ⟨hlike, hrun⟩ := run_cell he himage hc hi hout
    have hone : out.cell (y * image.width + x) = ⟨1, 1, image.channels, [out.pixel x y]⟩ := by
      rw [Raster.cell, Raster.pixel, hlike.channels, hlike.width_eq]
    rwa [hone] at hrun
  refine ⟨⟨?_, fun h => ?_⟩, hcell⟩
  · rintro ⟨out, hout⟩ x y hx hy
    exact ⟨_, hcell out hout x y hx hy⟩
  · cases hrun : s.run image caching with
    | ok out => exact ⟨out, rfl⟩
    | error fault =>
      obtain ⟨i, hi, hfault⟩ := run_cell_eq_error he himage hc harea hrun
      obtain ⟨x, y, hx, hy, rfl⟩ := Raster.exists_position (hlength ▸ hi)
      obtain ⟨one, hone⟩ := h x y hx hy
      exact absurd (hfault.symm.trans hone) (by simp)

/-- A script that turns all pixels red, run on an image of two pixels and on each of them alone. -/
theorem run_pixel_redden :
    ∃ s out, compile "on rgb pixels having true do $r = 1; end;" .standard = .ok s ∧
      s.run ⟨2, 1, 3, [[0, 0.5, 1], [1, 1, 0]]⟩ true = .ok out ∧
        ∀ x y, x < 2 → y < 1 →
          s.run ⟨1, 1, 3, [Raster.pixel ⟨2, 1, 3, [[0, 0.5, 1], [1, 1, 0]]⟩ x y]⟩ true =
            .ok ⟨1, 1, 3, [out.pixel x y]⟩ := by
  have hok : (compile "on rgb pixels having true do $r = 1; end;" .standard >>= fun s =>
      s.run ⟨2, 1, 3, [[0, 0.5, 1], [1, 1, 0]]⟩ true).isOk = true := by decide +kernel
  obtain ⟨out, hrun⟩ := exists_of_isOk hok
  obtain ⟨s, hs, hout⟩ := bind_eq_ok.1 hrun
  have himage : (⟨2, 1, 3, [[0, 0.5, 1], [1, 1, 0]]⟩ : Raster).WellFormed := by
    simp [Raster.WellFormed]
  exact ⟨s, out, hs, hout, (run_pixel (fun _ => Registry.pixelwise_of_mem_standard) hs himage
    (.inl rfl) (by decide) true).2 out hout⟩

end CompiledScript

end Recolor
