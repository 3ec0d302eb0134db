import Recolor.Proofs.Partition

/-!
# The first entry that selects a pixel decides about it

When a mapper has shared out the pixels of an image, it writes those of one entry after another.
What an entry has written stays, since no later entry has any of its pixels (`painted_of_foldlM`).
Hence `run_firstMatch`: the pixels of an entry with actions are what its actions make of them, all
others stay as they are, and a run fails only for a masker or for an action, as long as the masks
have the size of the image.

A masker holds its mask against the representation that it is given, and not against the image. So
a space that does not keep the size of images makes a run fail though no masker does. And the
context of the run finds representations by the keys of spaces, so that what a masker answers there
may not be what it answers when it is asked alone (`run_differs_of_spaces`).
-/

set_option autoImplicit false

namespace Recolor

/-- The space of cyan, magenta and yellow, under any key. -/
def ColorSpace.negative (key : String) : ColorSpace :=
  ofConversions key #v["c", "m", "y"] (fun t => ⟨1 - t.first, 1 - t.second, 1 - t.third⟩)
    fun t => ⟨1 - t.first, 1 - t.second, 1 - t.third⟩

namespace Mapper

/-! ## Writing the pixels of one entry -/

/-- What an entry has written of its pixels: without actions they are those of the image, otherwise
those of the chunk that the actions make of them. -/
structure Painted (image out : Raster) (part : Mask × Entry) : Prop where
  kept : part.2.actions = [] →
    ∀ i, part.1.selects i = true → out.pixels[i]? = image.pixels[i]?
  changed : part.2.actions ≠ [] → part.1.any = true →
    ∃ chunk, part.2.apply (image.gather part.1) = .ok chunk ∧
      (out.gather part.1).pixels = chunk.pixels

/-- An entry with pixels and actions fails if its actions do, or if they answer a chunk of another
shape than the one they were given. -/
inductive Spoilt (image : Raster) (part : Mask × Entry) : Fault → Prop where
  | action {fault : Fault} (h : part.2.apply (image.gather part.1) = .error fault) :
      Spoilt image part fault
  | chunk {chunk : Raster} {fault : Fault} (h : part.2.apply (image.gather part.1) = .ok chunk)
      (hshape : chunk.channels ≠ (image.gather part.1).channels ∨
        chunk.area ≠ (image.gather part.1).area) : Spoilt image part fault

variable {image output out : Raster} {part : Mask × Entry} {parts : List (Mask × Entry)}

/-- Copied pixels are those of the image, and the others stay. -/
theorem getElem?_copySelected (himage : image.WellFormed) (houtput : image.Like output)
    (m : Mask) (i : Nat) :
    (output.copySelected image m).pixels[i]? =
      if m.selects i = true then image.pixels[i]? else output.pixels[i]? := by
  simp only [Mask.selects_iff]
  exact getElem?_chooseSelected (houtput.length_pixels himage) i

/-- Pixels that are copied over can be taken out again. -/
theorem gather_copySelected_of_length (hlength : output.pixels.length = image.pixels.length)
    (hchannels : output.channels = image.channels) (m : Mask) :
    (output.copySelected image m).gather m = image.gather m := by
  have hpixels : selected m.bits (output.copySelected image m).pixels =
      selected m.bits image.pixels := by
    refine selected_congr ?_ fun i hi => ?_
    · exact (length_chooseSelected _ _ _).trans hlength
    · have hchosen := @getElem?_chooseSelected Pixel m.bits output.pixels image.pixels hlength i
      rw [if_pos hi] at hchosen
      exact hchosen
  have hchannels' : (output.copySelected image m).channels = image.channels := hchannels
  simp only [Raster.gather, hpixels, hchannels']

/-- Pixels that are copied into an image of the same shape can be taken out again. -/
theorem gather_copySelected (himage : image.WellFormed) (houtput : image.Like output) (m : Mask) :
    (output.copySelected image m).gather m = image.gather m :=
  gather_copySelected_of_length (houtput.length_pixels himage) houtput.channels m

/-- Writing the pixels of an entry succeeds either without actions or pixels, and then only copies
them, or with a chunk of the actions that fits. -/
theorem recolour_eq_ok :
    recolour image output part = .ok out ↔
      ((part.2.actions = [] ∨ part.1.any = false) ∧ out = output.copySelected image part.1) ∨
        part.2.actions ≠ [] ∧ part.1.any = true ∧
          ∃ chunk, part.2.apply ((output.copySelected image part.1).gather part.1) = .ok chunk ∧
            (output.copySelected image part.1).scatter part.1 chunk = .ok out := by
  simp only [recolour]
  split
  next h =>
    have hor : part.2.actions = [] ∨ part.1.any = false := by simpa using h
    simp only [Except.ok.injEq, hor, true_and, @eq_comm _ out]
    refine ⟨.inl, fun h => h.resolve_right fun ⟨hactions, hany, _⟩ => ?_⟩
    rcases hor with hor | hor
    · exact hactions hor
    · simp [hany] at hor
  next h =>
    have hand : part.2.actions ≠ [] ∧ part.1.any = true := by simpa using h
    simp [bind_eq_ok, hand]

/-- The step of the second loop: an entry writes its own pixels, and no others. -/
theorem painted_of_recolour (himage : image.WellFormed) (hc : image.channels ≠ 0)
    (houtput : image.Like output) (hmask : part.1.bits.length = image.pixels.length)
    (he : part.2.WellFormed) (h : recolour image output part = .ok out) :
    image.Like out ∧ Painted image out part ∧
      ∀ i, part.1.selects i = false → out.pixels[i]? = output.pixels[i]? := by
  have hcopied : image.Like (output.copySelected image part.1) :=
    ⟨houtput.wellFormed.copySelected himage houtput.channels.symm part.1, houtput.size,
      houtput.channels⟩
  have hother : ∀ i, part.1.selects i = false →
      (output.copySelected image part.1).pixels[i]? = output.pixels[i]? := fun i hi => by
    simp [getElem?_copySelected himage houtput, hi]
  rcases recolour_eq_ok.1 h with ⟨hnone, rfl⟩ | ⟨hactions, hany, chunk, happly, hscatter⟩
  · refine ⟨hcopied, ⟨fun _ i hi => ?_, fun hactions hany => ?_⟩, hother⟩
    · rw [getElem?_copySelected himage houtput, if_pos hi]
    · rcases hnone with hnone | hnone
      · exact absurd hnone hactions
      · simp [hany] at hnone
  · have hgather := gather_copySelected himage houtput part.1
    rw [hgather] at happly
    have hchunk : chunk.WellFormed := he.apply (himage.gather hc part.1) happly
    have hwf := hcopied.wellFormed.scatter hchunk hscatter
    obtain ⟨⟨hchannels, harea⟩, rfl⟩ := Raster.scatter_eq_ok.1 hscatter
    have hlength : (output.copySelected image part.1).pixels.length = image.pixels.length :=
      hcopied.length_pixels himage
    have hcount : chunk.pixels.length = part.1.bits.count true := by
      have hchunkc : chunk.channels ≠ 0 := by
        rw [hchannels, hcopied.channels]
        exact hc
      exact (hchunk.length_pixels hchunkc).trans harea
    refine ⟨⟨hwf, hcopied.size, hcopied.channels⟩,
      ⟨fun h => absurd h hactions, fun _ _ => ⟨chunk, happly, ?_⟩⟩, fun i hi => ?_⟩
    · exact selected_replaceSelected (Nat.le_of_eq (hmask.trans hlength.symm)) hcount
    · rw [← hother i hi]
      refine getElem?_replaceSelected_of_ne fun hbit => ?_
      simp [Mask.selects_iff.2 hbit] at hi

/-- What an entry has written stays written if its pixels stay. -/
theorem Painted.of_agree {out' : Raster} (h : Painted image out part) (hout : image.Like out)
    (hout' : image.Like out') (himage : image.WellFormed)
    (hagree : ∀ i, part.1.selects i = true → out'.pixels[i]? = out.pixels[i]?) :
    Painted image out' part := by
  refine ⟨fun hactions i hi => (hagree i hi).trans (h.kept hactions i hi), fun hactions hany => ?_⟩
  obtain ⟨chunk, happly, hpixels⟩ := h.changed hactions hany
  refine ⟨chunk, happly, Eq.trans ?_ hpixels⟩
  refine selected_congr ?_ fun i hi => hagree i (Mask.selects_iff.2 hi)
  exact (hout'.length_pixels himage).trans (hout.length_pixels himage).symm

/-- The invariant of the second loop: all entries that had their turn have written their pixels,
and the pixels of no entry are those from before. -/
theorem painted_of_foldlM (himage : image.WellFormed) (hc : image.channels ≠ 0)
    (houtput : image.Like output)
    (hmasks : ∀ part ∈ parts, part.1.bits.length = image.pixels.length)
    (he : ∀ part ∈ parts, part.2.WellFormed)
    (hdisjoint : parts.Pairwise fun p q => ∀ i, p.1.selects i = true → q.1.selects i = false)
    (h : parts.foldlM (recolour image) output = .ok out) :
    image.Like out ∧ (∀ part ∈ parts, Painted image out part) ∧
      ∀ i, (∀ part ∈ parts, part.1.selects i = false) → out.pixels[i]? = output.pixels[i]? := by
  induction parts generalizing output with
  | nil =>
    cases h
    exact ⟨houtput, by simp, fun _ _ => rfl⟩
  | cons part rest ih =>
    obtain ⟨next, hnext, hrest⟩ := bind_eq_ok.1 h
    obtain ⟨hfirst, hlater⟩ := List.pairwise_cons.1 hdisjoint
    obtain ⟨hlike, hpainted, hother⟩ := painted_of_recolour himage hc houtput
      (hmasks part List.mem_cons_self) (he part List.mem_cons_self) hnext
    obtain ⟨hlike', hpainted', hother'⟩ := ih hlike
      (fun p hp => hmasks p (List.mem_cons_of_mem _ hp))
      (fun p hp => he p (List.mem_cons_of_mem _ hp)) hlater hrest
    refine ⟨hlike', fun p hp => ?_, fun i hi => ?_⟩
    · rcases List.mem_cons.1 hp with rfl | hp
      · -- the entries after this one have none of its pixels
        exact hpainted.of_agree hlike hlike' himage fun i hi =>
          hother' i fun q hq => hfirst q hq i hi
      · exact hpainted' p hp
    · rw [hother' i fun q hq => hi q (List.mem_cons_of_mem _ hq)]
      exact hother i (hi part List.mem_cons_self)

/-- Writing fails only at an entry with pixels and actions whose actions fail or answer a chunk of
another shape. -/
theorem spoilt_of_recolour {fault : Fault} (himage : image.WellFormed) (houtput : image.Like output)
    (hmask : part.1.bits.length = image.pixels.length)
    (h : recolour image output part = .error fault) :
    part.2.actions ≠ [] ∧ part.1.any = true ∧ Spoilt image part fault := by
  simp only [recolour, gather_copySelected himage houtput] at h
  split at h
  next => cases h
  next hcond =>
    obtain ⟨hactions, hany⟩ : part.2.actions ≠ [] ∧ part.1.any = true := by simpa using hcond
    refine ⟨hactions, hany, ?_⟩
    rcases bind_eq_error.1 h with happly | ⟨chunk, happly, hscatter⟩
    · exact .action happly
    · refine .chunk happly ?_
      have hchannels : (output.copySelected image part.1).channels = image.channels :=
        houtput.channels
      rw [Raster.area_gather (Nat.le_of_eq hmask)]
      -- otherwise the chunk would fit
      by_cases hfits : chunk.channels = image.channels
      · refine .inr fun harea => ?_
        rw [Raster.scatter_eq_ok.2 ⟨⟨hfits.trans hchannels.symm, harea⟩, rfl⟩] at hscatter
        cases hscatter
      · exact .inl hfits

/-- If writing fails, it does so at one of the entries. -/
theorem spoilt_of_foldlM {fault : Fault} (himage : image.WellFormed) (hc : image.channels ≠ 0)
    (houtput : image.Like output)
    (hmasks : ∀ part ∈ parts, part.1.bits.length = image.pixels.length)
    (he : ∀ part ∈ parts, part.2.WellFormed)
    (h : parts.foldlM (recolour image) output = .error fault) :
    ∃ part ∈ parts, part.2.actions ≠ [] ∧ part.1.any = true ∧ Spoilt image part fault := by
  induction parts generalizing output with
  | nil => cases h
  | cons part rest ih =>
    have hmask := hmasks part List.mem_cons_self
    rcases bind_eq_error.1 h with hfirst | ⟨next, hnext, hrest⟩
    · exact ⟨part, List.mem_cons_self, spoilt_of_recolour himage houtput hmask hfirst⟩
    · obtain ⟨hlike, -⟩ :=
        painted_of_recolour himage hc houtput hmask (he part List.mem_cons_self) hnext
      obtain ⟨p, hp, hspoilt⟩ := ih hlike (fun p hp => hmasks p (List.mem_cons_of_mem _ hp))
        (fun p hp => he p (List.mem_cons_of_mem _ hp)) hrest
      exact ⟨p, List.mem_cons_of_mem _ hp, hspoilt⟩

/-! ## A whole run -/

/-- What first match means for the masks of the entries: the image keeps its shape, the pixels that
an entry with actions is the first to select are, in order, those of the chunk that its actions make
of them, and all other pixels are those of the image. -/
structure FirstMatch (entries : List Entry) (masks : List Mask) (image out : Raster) : Prop where
  like : image.Like out
  changed : ∀ (k : Nat) (e : Entry) (mask : Mask), entries[k]? = some e → masks[k]? = some mask →
    e.actions ≠ [] → (mask.without (masks.take k)).any = true →
      ∃ chunk, e.apply (image.gather (mask.without (masks.take k))) = .ok chunk ∧
        (out.gather (mask.without (masks.take k))).pixels = chunk.pixels
  kept : ∀ i : Nat, (∀ (k : Nat) (e : Entry) (mask : Mask), entries[k]? = some e →
    masks[k]? = some mask → e.actions ≠ [] → (mask.without (masks.take k)).selects i = false) →
      out.pixels[i]? = image.pixels[i]?

variable {entries : List Entry} {masks : List Mask} {caching : Bool}

/-- A run that succeeds shares out the pixels, writes those of each entry, and copies those that
are left. -/
theorem run_eq_ok {m : Mapper} (hc : image.channels = 3 ∨ image.channels = 4) :
    m.run image caching = .ok out ↔ ∃ parts rest,
      partition m.entries (.start image caching)
          ((Mask.filled image.width image.height true).without []) = .ok (parts, rest) ∧
        ∃ output, parts.foldlM (recolour image)
            (.zero image.width image.height image.channels) = .ok output ∧
          out = output.copySelected image rest := by
  simp only [run, requireMappable, if_pos hc, ok_bind, bind_eq_ok, Prod.exists, pure_eq_ok,
    Except.ok.injEq, Mask.without_nil, @eq_comm _ out]

/-- A run that fails does so while it shares out the pixels, or while it writes them. -/
theorem run_eq_error {m : Mapper} {fault : Fault} (hc : image.channels = 3 ∨ image.channels = 4) :
    m.run image caching = .error fault ↔
      partition m.entries (.start image caching)
          ((Mask.filled image.width image.height true).without []) = .error fault ∨
        ∃ parts rest, partition m.entries (.start image caching)
            ((Mask.filled image.width image.height true).without []) = .ok (parts, rest) ∧
          parts.foldlM (recolour image) (.zero image.width image.height image.channels) =
            .error fault := by
  simp only [run, requireMappable, if_pos hc, ok_bind, bind_eq_error, Prod.exists, pure_eq_ok,
    reduceCtorEq, and_false, exists_false, or_false, Mask.without_nil]

/-- The blank image that a run starts with has the shape of the image. -/
theorem like_zero (image : Raster) :
    image.Like (.zero image.width image.height image.channels) :=
  ⟨Raster.wellFormed_zero _ _ _, rfl, rfl⟩

/-- Once the pixels of an image are shared out among well-formed entries, the masks of these are
known, and each part belongs to a well-formed entry and has a bit for each pixel of the image. -/
theorem of_partition_eq_ok {rest : Mask} (he : ∀ e ∈ entries, e.WellFormed)
    (himage : image.WellFormed) (hc : image.channels ≠ 0)
    (h : partition entries (.start image caching)
      ((Mask.filled image.width image.height true).without []) = .ok (parts, rest)) :
    ∃ masks : List Mask, answers entries (.start image caching) = masks.map .ok ∧
      masks.length = entries.length ∧
      (∀ part ∈ parts, part.1.bits.length = image.pixels.length ∧ part.2.WellFormed) ∧
      parts = claims [] entries masks ∧
        rest = (Mask.filled image.width image.height true).without masks := by
  have hanswer : ∀ n, .ok n ∈ answers entries (.start image caching) → n.WellFormed :=
    fun n hn => wellFormed_of_mem_answers he (.start himage) hn
  obtain ⟨masks, hmasks, hsizes, rfl, rfl⟩ := partition_eq_ok hanswer h
  have hlength : masks.length = entries.length := by
    rw [← length_answers entries (.start image caching), hmasks, List.length_map]
  refine ⟨masks, hmasks, hlength, fun part hpart => ?_, rfl, rfl⟩
  obtain ⟨k, e, mask, hk, hmask, rfl⟩ := mem_claims.1 hpart
  have hmem : mask ∈ masks := List.mem_of_getElem? hmask
  have hwf : mask.WellFormed := hanswer mask (hmasks ▸ List.mem_map_of_mem hmem)
  have hbits : (mask.without (masks.take k)).bits.length = mask.width * mask.height :=
    Mask.wellFormed_without hwf
  obtain ⟨hwidth, hheight⟩ := Prod.mk.inj (hsizes mask hmem)
  refine ⟨?_, he e (List.mem_of_getElem? hk)⟩
  rw [hbits, hwidth, hheight, himage.length_pixels hc, Raster.area]

/-- The result of a run, once the masks of its entries and what is written of their parts are
known. -/
theorem firstMatch_copySelected (himage : image.WellFormed) (hc : image.channels ≠ 0)
    (hlength : masks.length = entries.length) (hlike : image.Like output)
    (hpainted : ∀ part ∈ claims [] entries masks, Painted image output part) :
    FirstMatch entries masks image (output.copySelected image
      ((Mask.filled image.width image.height true).without masks)) := by
  have hcopied : image.Like (output.copySelected image
      ((Mask.filled image.width image.height true).without masks)) :=
    ⟨hlike.wellFormed.copySelected himage hlike.channels.symm _, hlike.size, hlike.channels⟩
  -- copying the pixels that are left touches no part
  have hpainted' : ∀ part ∈ claims [] entries masks, Painted image (output.copySelected image
      ((Mask.filled image.width image.height true).without masks)) part := by
    intro part hpart
    refine (hpainted part hpart).of_agree hlike hcopied himage fun i hi => ?_
    obtain ⟨k, e, mask, -, hmask, rfl⟩ := mem_claims.1 hpart
    have hsel : mask.selects i = true := by
      rw [Mask.selects_without] at hi
      exact (Bool.and_eq_true_iff.1 hi).1
    rw [getElem?_copySelected himage hlike, Mask.selects_without,
      List.any_eq_true.2 ⟨mask, List.mem_of_getElem? hmask, hsel⟩]
    simp
  refine ⟨hcopied, fun k e mask hk hmask hactions hany => ?_, fun i hi => ?_⟩
  · exact (hpainted' _ (mem_claims.2 ⟨k, e, mask, hk, hmask, rfl⟩)).changed hactions hany
  · by_cases hlt : i < image.pixels.length
    · by_cases hsome : ∃ mask ∈ masks, mask.selects i = true
      · obtain ⟨part, hpart, hselects⟩ :=
          exists_mem_claims hlength (fun _ h => absurd h List.not_mem_nil) hsome
        obtain ⟨k, e, mask, hk, hmask, rfl⟩ := mem_claims.1 hpart
        have hactions : e.actions = [] := by
          refine Classical.byContradiction fun hne => ?_
          simp [hi k e mask hk hmask hne] at hselects
        exact (hpainted' _ hpart).kept hactions i hselects
      · have hnone : masks.any (·.selects i) = false := by simpa using hsome
        have harea : i < image.width * image.height := by
          rwa [himage.length_pixels hc, Raster.area] at hlt
        rw [getElem?_copySelected himage hlike, Mask.selects_without,
          Mask.selects_filled harea, hnone]
        rfl
    · have hcopiedLength := hcopied.length_pixels himage
      rw [List.getElem?_eq_none (by omega), List.getElem?_eq_none (by omega)]

/-- If a run succeeds, so does every masker, and the result is that of first match. -/
theorem firstMatch_of_run_eq_ok {m : Mapper} (hm : m.WellFormed) (himage : image.WellFormed)
    (hc : image.channels = 3 ∨ image.channels = 4) (h : m.run image caching = .ok out) :
    ∃ masks : List Mask, answers m.entries (.start image caching) = masks.map .ok ∧
      FirstMatch m.entries masks image out := by
  have hc' : image.channels ≠ 0 := by omega
  obtain ⟨parts, rest, hshared, output, houtput, rfl⟩ := (run_eq_ok hc).1 h
  obtain ⟨masks, hmasks, hwf, hparts, rfl, rfl⟩ := of_partition_eq_ok hm himage hc' hshared
  obtain ⟨hlike, hpainted, -⟩ := painted_of_foldlM himage hc' (like_zero image)
    (fun part hpart => (hparts part hpart).1) (fun part hpart => (hparts part hpart).2)
    pairwise_claims houtput
  exact ⟨masks, hmasks, firstMatch_copySelected himage hc' hwf hlike hpainted⟩

/-- If a run fails, a masker fails and the fault is that of the first one, or the actions of an entry
with pixels fail or answer a chunk of another shape, or a mask has another size than the image and
the fault is that of the sizes of the first one. -/
theorem fault_of_run_eq_error {m : Mapper} {fault : Fault} (hm : m.WellFormed)
    (himage : image.WellFormed) (hc : image.channels = 3 ∨ image.channels = 4)
    (h : m.run image caching = .error fault) :
    (∃ (masks : List Mask) (later : List (Except Fault Mask)),
      answers m.entries (.start image caching) = masks.map .ok ++ .error fault :: later ∧
        ∀ mask ∈ masks, mask.size = image.size) ∨
    (∃ masks : List Mask, answers m.entries (.start image caching) = masks.map .ok ∧
      ∃ (k : Nat) (e : Entry) (mask : Mask), m.entries[k]? = some e ∧ masks[k]? = some mask ∧
        e.actions ≠ [] ∧ (mask.without (masks.take k)).any = true ∧
          Spoilt image (mask.without (masks.take k), e) fault) ∨
    ∃ (masks : List Mask) (mask : Mask) (later : List (Except Fault Mask)),
      answers m.entries (.start image caching) = masks.map .ok ++ .ok mask :: later ∧
        (∀ mask ∈ masks, mask.size = image.size) ∧ mask.size ≠ image.size ∧
          fault = .shape (.operandSizes image.size mask.size) := by
  have hc' : image.channels ≠ 0 := by omega
  rcases (run_eq_error hc).1 h with hshared | ⟨parts, rest, hshared, hwritten⟩
  · have hanswer : ∀ n, .ok n ∈ answers m.entries (.start image caching) → n.WellFormed :=
      fun n hn => wellFormed_of_mem_answers hm (.start himage) hn
    obtain ⟨masks, later, hsizes, hfails | ⟨mask, hanswers, hother, hfault⟩⟩ :=
      partition_eq_error hanswer hshared
    · exact .inl ⟨masks, later, hfails, hsizes⟩
    · exact .inr (.inr ⟨masks, mask, later, hanswers, hsizes, hother, hfault⟩)
  · obtain ⟨masks, hmasks, -, hparts, rfl, rfl⟩ := of_partition_eq_ok hm himage hc' hshared
    obtain ⟨part, hpart, hactions, hany, hspoilt⟩ := spoilt_of_foldlM himage hc' (like_zero image)
      (fun part hpart => (hparts part hpart).1) (fun part hpart => (hparts part hpart).2) hwritten
    obtain ⟨k, e, mask, hk, hmask, rfl⟩ := mem_claims.1 hpart
    exact .inr (.inl ⟨masks, hmasks, k, e, mask, hk, hmask, hactions, hany, hspoilt⟩)

/-- A mask that a run is answered has the size of the image if the conversions keep sizes. -/
theorem size_of_mem_answers_start {m : Mapper} (hm : m.WellFormed)
    (hsize : ∀ e ∈ m.entries, e.masker.space.KeepsSize) (himage : image.WellFormed) {mask : Mask}
    (h : .ok mask ∈ answers m.entries (.start image caching)) : mask.size = image.size :=
  size_of_mem_answers hm hsize (.start ⟨himage, rfl⟩) h

/-- The first entry that selects a pixel decides about it. If a run succeeds, so does every masker,
and the result is that of first match. If it fails, a masker does so and the fault of the first one
is the answer, or the actions of an entry with pixels fail or answer a chunk of another shape, or
the first mask of another size than the image cannot be combined with the pixels that are left,
which takes a space that does not keep the size. The masks are those that the maskers answer one
after another in the context of the run. -/
theorem run_firstMatch (m : Mapper) (image : Raster) (caching : Bool) (hm : m.WellFormed)
    (himage : image.WellFormed) (hc : image.channels = 3 ∨ image.channels = 4) :
    (∀ out, m.run image caching = .ok out →
      ∃ masks : List Mask, answers m.entries (.start image caching) = masks.map .ok ∧
        FirstMatch m.entries masks image out) ∧
    ∀ fault, m.run image caching = .error fault →
      (∃ (masks : List Mask) (later : List (Except Fault Mask)),
        answers m.entries (.start image caching) = masks.map .ok ++ .error fault :: later ∧
          ∀ mask ∈ masks, mask.size = image.size) ∨
      (∃ masks : List Mask, answers m.entries (.start image caching) = masks.map .ok ∧
        ∃ (k : Nat) (e : Entry) (mask : Mask), m.entries[k]? = some e ∧ masks[k]? = some mask ∧
          e.actions ≠ [] ∧ (mask.without (masks.take k)).any = true ∧
            Spoilt image (mask.without (masks.take k), e) fault) ∨
      (∃ e ∈ m.entries, ¬ e.masker.space.KeepsSize) ∧
        ∃ (masks : List Mask) (mask : Mask) (later : List (Except Fault Mask)),
          answers m.entries (.start image caching) = masks.map .ok ++ .ok mask :: later ∧
            (∀ mask ∈ masks, mask.size = image.size) ∧ mask.size ≠ image.size ∧
              fault = .shape (.operandSizes image.size mask.size) := by
  refine ⟨fun out hout => firstMatch_of_run_eq_ok hm himage hc hout, fun fault hfault => ?_⟩
  rcases fault_of_run_eq_error hm himage hc hfault with
    hmasker | hspoilt | ⟨masks, mask, later, hanswers, hsizes, hother, hfault⟩
  · exact .inl hmasker
  · exact .inr (.inl hspoilt)
  · have hmem : .ok mask ∈ answers m.entries (.start image caching) := by simp [hanswers]
    refine .inr (.inr ⟨?_, masks, mask, later, hanswers, hsizes, hother, hfault⟩)
    -- if all spaces kept the size, this mask would have that of the image
    refine Classical.byContradiction fun hnone => hother ?_
    refine size_of_mem_answers_start hm (fun e he => ?_) himage hmem
    exact Classical.byContradiction fun hkeeps => hnone ⟨e, he, hkeeps⟩

/-- Turns round the channels of all pixels but the second, and leaves the second as it is. -/
def turnOthers : Mapper where
  entries :=
    [⟨⟨.native fun b => .ok ((Mask.filled b.raster.width b.raster.height true).without
        [⟨2, 1, [false, true]⟩]), .rgb⟩,
        [⟨.native fun b => .ok (b.raster.mapPixels .reverse), .rgb⟩]⟩,
      ⟨⟨.compiled (.boolean true) .empty, .rgb⟩, []⟩]

/-- A run of two entries with overlapping masks, the second of which has no actions. -/
theorem run_firstMatch_turnOthers :
    turnOthers.WellFormed ∧
      (∃ masks : List Mask,
        answers turnOthers.entries (.start ⟨2, 1, 3, [[0, 0.5, 1], [1, 1, 0]]⟩ true) =
          masks.map .ok ∧
        FirstMatch turnOthers.entries masks ⟨2, 1, 3, [[0, 0.5, 1], [1, 1, 0]]⟩
          ⟨2, 1, 3, [[1, 0.5, 0], [1, 1, 0]]⟩) ∧
      ∀ fault, turnOthers.run ⟨2, 1, 3, [[0, 0.5, 1], [1, 1, 0]]⟩ true ≠ .error fault := by
  have hrgb : ColorSpace.rgb.WellFormed := ⟨fun _ h => h, fun _ h => h⟩
  have hm : turnOthers.WellFormed := by
    intro e he
    simp only [turnOthers, List.mem_cons, List.not_mem_nil, or_false] at he
    rcases he with rfl | rfl
    · refine ⟨⟨fun b m hb h => ?_, hrgb⟩, fun a ha => ?_⟩
      · cases h
        exact Mask.wellFormed_without (Mask.wellFormed_filled _ _ _)
      · obtain rfl := List.mem_singleton.1 ha
        refine ⟨fun b r hb h => ?_, hrgb⟩
        cases h
        exact hb.mapPixels fun p => List.length_reverse
    · exact ⟨⟨Environment.laid_empty, hrgb⟩, by simp⟩
  have himage : (⟨2, 1, 3, [[0, 0.5, 1], [1, 1, 0]]⟩ : Raster).WellFormed := by
    simp [Raster.WellFormed]
  have hrun : turnOthers.run ⟨2, 1, 3, [[0, 0.5, 1], [1, 1, 0]]⟩ true =
      .ok ⟨2, 1, 3, [[1, 0.5, 0], [1, 1, 0]]⟩ := rfl
  refine ⟨hm, ?_, fun fault hfault => ?_⟩
  · exact (run_firstMatch turnOthers _ true hm himage (.inl rfl)).1 _ hrun
  · rw [hrun] at hfault
    cases hfault

/-! ## Spaces that stand between maskers and a run -/

/-- A space that describes every image by one black pixel. -/
def thumbnail : ColorSpace :=
  { ColorSpace.rgb with key := "thumbnail", encode := fun r => .zero 1 1 r.channels }

/-- One masker, which selects all of what it sees in the space of a single pixel. -/
def throughThumbnail : Mapper where
  entries := [⟨⟨.compiled (.boolean true) .empty, thumbnail⟩, []⟩]

/-- Two maskers, the second of which asks for cyan under the key of the space of the first. -/
def throughSharedKey : Mapper where
  entries :=
    [⟨⟨.native (·.mask ["h"] (.number 2)), .hsv⟩, []⟩,
      ⟨⟨.native (·.mask ["c"] (.number 0.75)), .negative "hsv"⟩, [.scale [2]]⟩]

/-- Maskers do not tell all about a run. It fails for a mask that has the size of the representation
and not that of the image, though the masker answers it and no action is there to fail. It also
leaves a pixel alone that a masker selects when it is asked first, because the conversion for
another space is remembered under the key of its own. -/
theorem run_differs_of_spaces :
    (throughThumbnail.WellFormed ∧
      answers throughThumbnail.entries (.start ⟨2, 1, 3, [[0, 0.5, 1], [1, 1, 0]]⟩ true) =
        [.ok ⟨1, 1, [true]⟩] ∧
      (∀ e ∈ throughThumbnail.entries, e.actions = []) ∧
      throughThumbnail.run ⟨2, 1, 3, [[0, 0.5, 1], [1, 1, 0]]⟩ true =
        .error (.shape (.operandSizes (2, 1) (1, 1)))) ∧
    throughSharedKey.entries.map (fun e : Entry =>
        (e.masker.mask (.start ⟨1, 1, 3, [[0.25, 0, 0]]⟩ true)).1) =
      [.ok ⟨1, 1, [false]⟩, .ok ⟨1, 1, [true]⟩] ∧
    throughSharedKey.run ⟨1, 1, 3, [[0.25, 0, 0]]⟩ true = .ok ⟨1, 1, 3, [[0.25, 0, 0]]⟩ ∧
    ¬ FirstMatch throughSharedKey.entries [⟨1, 1, [false]⟩, ⟨1, 1, [true]⟩]
      ⟨1, 1, 3, [[0.25, 0, 0]]⟩ ⟨1, 1, 3, [[0.25, 0, 0]]⟩ := by
  refine ⟨⟨fun e he => ?_, rfl, fun e he => ?_, rfl⟩, rfl, rfl, fun hmatch => ?_⟩
  · obtain rfl := List.mem_singleton.1 he
    have hspace : thumbnail.WellFormed := ⟨fun _ _ => Raster.wellFormed_zero _ _ _, fun _ h => h⟩
    exact ⟨⟨Environment.laid_empty, hspace⟩, by simp⟩
  · obtain rfl := List.mem_singleton.1 he
    rfl
  · obtain ⟨chunk, happly, hpixels⟩ := hmatch.changed 1 _ _ rfl rfl (by simp) rfl
    obtain rfl : ⟨1, 1, 3, [[0.25 * 2, 0, 0]]⟩ = chunk := Except.ok.inj happly
    have hred : (0.25 : Number) = 0.25 * 2 := (List.cons.inj (List.cons.inj hpixels).1).1
    exact absurd hred (by decide +kernel)

end Mapper

end Recolor
