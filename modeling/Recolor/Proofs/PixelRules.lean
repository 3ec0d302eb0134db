import Recolor.Proofs.CompiledRules

/-!
# Compiled rules work pixel by pixel

The cell of a raster is the image of one pixel that holds the pixel at a position. If the
conversions of colour spaces change each pixel on its own (`ColorSpace.Pixelwise`), what a compiled
rule answers for the cell of an image is the cell of what it answers for the image: the mask of a
masker (`Masker.Pixelwise.maskOf_cell`) and the chunk that actions make
(`Entry.Pixelwise.apply_cell`), faults included. The memory of a context makes no difference to this
(`Masker.Pixelwise.mask_cell`).
-/

set_option autoImplicit false

namespace Recolor

/-! ## Rasters -/

/-- The image of one pixel that holds the pixel at position `i`. -/
def Raster.cell (i : Nat) (r : Raster) : Raster := ⟨1, 1, r.channels, [r.pixels.getD i []]⟩

namespace Raster

variable {r s : Raster} {i k : Nat} {plane : Plane} {x : Number}

/-- The positions of a well-formed image with pixels lie inside its size. -/
theorem WellFormed.lt_area (h : r.WellFormed) (hi : i < r.pixels.length) :
    i < r.size.1 * r.size.2 := by
  have hlength := h.2
  split at hlength
  · omega
  · exact hlength ▸ hi

/-- A well-formed image with pixels has channels. -/
theorem WellFormed.channels_ne_zero (h : r.WellFormed) (hi : i < r.pixels.length) :
    r.channels ≠ 0 := by
  intro hc
  have hlength := h.2
  rw [if_pos hc] at hlength
  omega

/-- The cell of a well-formed image is well formed. -/
theorem WellFormed.cell (h : r.WellFormed) (hi : i < r.pixels.length) :
    (r.cell i).WellFormed := by
  have hmem : r.pixels[i] ∈ r.pixels := List.getElem_mem hi
  have hpixel : (r.cell i).pixels = [r.pixels[i]] := by
    simp [Raster.cell, List.getD_eq_getElem?_getD, hi]
  refine ⟨fun p hp => ?_, ?_⟩
  · rw [hpixel, List.mem_singleton] at hp
    exact hp ▸ h.1 _ hmem
  · simp [Raster.cell, h.channels_ne_zero hi]

/-- The position of a pixel of an image is one of all images of its shape. -/
theorem Like.lt_length (h : r.Like s) (hr : r.WellFormed) (hi : i < r.pixels.length) :
    i < s.pixels.length := by
  rwa [h.length_pixels hr]

/-- A band is there for one pixel exactly if it is there for the image. -/
@[simp] theorem requireBand_cell (r : Raster) (k i : Nat) :
    (r.cell i).requireBand k = r.requireBand k := rfl

/-- A band of a pixel is the cell of the band. -/
theorem band_cell (r : Raster) (k i : Nat) :
    (r.cell i).band k = (r.band k).map (Plane.cell i) := by
  simp only [band, requireBand_cell, map_bind]
  refine bind_congr_ok fun _ _ => ?_
  simp only [pure_eq_ok, map_ok, cell, Plane.cell, List.map_cons, List.map_nil,
    List.getD_eq_getElem?_getD, List.getElem?_map]
  cases r.pixels[i]? <;> rfl

/-- A band of a pixel can be filled before or after the pixel is taken out. -/
theorem fillBand_cell (r : Raster) (k i : Nat) (x : Number) :
    (r.cell i).fillBand k x = (r.fillBand k x).map (cell i) := by
  simp only [fillBand, requireBand_cell, map_bind]
  refine bind_congr_ok fun _ _ => ?_
  simp only [pure_eq_ok, map_ok, cell, List.map_cons, List.map_nil,
    List.getD_eq_getElem?_getD, List.getElem?_map]
  cases r.pixels[i]? <;> rfl

/-- A plane of the size of an image can be written into a band pixel by pixel. -/
theorem setBand_cell (h : r.WellFormed) (hi : i < r.pixels.length)
    (hplane : (Value.band plane).Laid (.ofSize r.size)) :
    (r.cell i).setBand k (plane.cell i) = (r.setBand k plane).map (cell i) := by
  have hlength : r.pixels.length = plane.values.length := by
    rw [h.length_pixels (h.channels_ne_zero hi), hplane.2, area]
    exact congrArg (fun size : Nat × Nat => size.1 * size.2) hplane.1.symm
  have hpixel : (writeBand k r.pixels plane.values).getD i [] =
      (r.pixels.getD i []).set k (plane.values.getD i 0) := by
    simp only [List.getD_eq_getElem?_getD, getElem?_writeBand hlength]
    cases r.pixels[i]? <;> rfl
  simp only [setBand, requireBand_cell, map_bind]
  refine bind_congr_ok fun _ _ => ?_
  rw [if_pos (show plane.size = r.size from hplane.1),
    if_pos (show (plane.cell i).size = (r.cell i).size from rfl)]
  simp only [pure_eq_ok, map_ok, cell, hpixel]
  rfl

/-- The pixels of an image can be changed one by one. -/
theorem mapPixels_cell {f : Pixel → Pixel} (hf : ∀ p, (f p).length = p.length) (r : Raster)
    (i : Nat) : (r.cell i).mapPixels f = (r.mapPixels f).cell i := by
  have hnil : f [] = [] := List.eq_nil_of_length_eq_zero (hf [])
  simp only [mapPixels, cell, List.map_cons, List.map_nil, List.getD_eq_getElem?_getD,
    List.getElem?_map]
  cases r.pixels[i]? <;> simp [hnil]

/-- A conversion of images that changes each pixel on its own, and keeps the number of channels. -/
def Pixelwise (g : Raster → Raster) : Prop :=
  ∃ f : Pixel → Pixel, (∀ p, (f p).length = p.length) ∧
    ∀ r : Raster, r.WellFormed → g r = r.mapPixels f

variable {g : Raster → Raster}

/-- A conversion of single pixels keeps the shape of images. -/
theorem Pixelwise.like (hg : Pixelwise g) (hr : r.WellFormed) : r.Like (g r) := by
  obtain ⟨f, hf, hmap⟩ := hg
  rw [hmap r hr]
  exact .mapPixels hr hf

/-- A pixel can be taken out before or after a conversion of single pixels. -/
theorem Pixelwise.cell (hg : Pixelwise g) (hr : r.WellFormed) (hi : i < r.pixels.length) :
    g (r.cell i) = (g r).cell i := by
  obtain ⟨f, hf, hmap⟩ := hg
  rw [hmap r hr, hmap _ (hr.cell hi), mapPixels_cell hf]

end Raster

/-! ## Bands as variables -/

/-- The bands of the cell. -/
def Bands.cell (i : Nat) (b : Bands) : Bands := { b with raster := b.raster.cell i }

namespace Bands

variable {b : Bands} {i : Nat} {env globals : Environment}

/-- A named band of a pixel is the cell of the band. -/
theorem band_cell (b : Bands) (i : Nat) (name : String) :
    (b.cell i).band name = (b.band name).map (Plane.cell i) := by
  simp only [band, map_bind, ← Raster.band_cell]
  rfl

/-- Binding the bands of a pixel binds the cells of the bands. -/
theorem bindAll_cell (b : Bands) (i : Nat) (names : List String) (env : Environment) :
    (b.cell i).bindAll names (env.cell i) = (b.bindAll names env).map (Environment.cell i) := by
  induction names generalizing env with
  | nil => rfl
  | cons name rest ih =>
    simp only [bindAll, band_cell, bind_map, map_bind]
    refine bind_congr_ok fun plane _ => ?_
    rw [← ih, ← Environment.bind_cell]
    rfl

/-- The scope of a transform over the cell is the cell of its scope. -/
theorem environment_cell (hglobals : globals.Plain) (i : Nat) :
    (b.cell i).environment globals = (b.environment globals).map (Environment.cell i) := by
  have h := bindAll_cell b i b.names globals.child
  rwa [← Environment.child_cell, hglobals.cell] at h

/-- Storing the cell of a value stores the value for that pixel. -/
theorem store_cell {name : String} {value? : Option Value} (h : b.raster.WellFormed)
    (hi : i < b.raster.pixels.length) (hv : ∀ v ∈ value?, v.Laid (.ofSize b.raster.size)) :
    (b.cell i).store name (value?.map (Value.cell i)) = (b.store name value?).map (cell i) := by
  cases value? with
  | none => rfl
  | some v =>
    cases v with
    | band plane =>
      have hplane : (Value.band plane).Laid (.ofSize b.raster.size) := hv _ rfl
      simp only [Option.map_some, Value.cell, store, setBand, map_bind]
      refine bind_congr_ok fun k _ => ?_
      simp only [cell, Raster.setBand_cell h hi hplane, bind_map]
      rfl
    | number x =>
      simp only [Option.map_some, Value.cell, store, fillBand, map_bind]
      refine bind_congr_ok fun k _ => ?_
      simp only [cell, Raster.fillBand_cell, bind_map]
      rfl
    | _ => rfl

/-- Storing the cells of variables stores the variables for that pixel. -/
theorem storeAll_cell {names : List String} (h : b.raster.WellFormed)
    (hi : i < b.raster.pixels.length) (henv : env.Laid (.ofSize b.raster.size)) :
    storeAll names (b.cell i) (env.cell i) =
      (storeAll names b env).map fun (c, final) => (c.cell i, final.cell i) := by
  induction names generalizing b env with
  | nil => rfl
  | cons name rest ih =>
    have hv : ∀ v ∈ (env.take name).1, v.Laid (.ofSize b.raster.size) := fun v hv =>
      henv.of_take (Option.mem_def.1 hv)
    simp only [storeAll, Environment.take_cell, store_cell h hi hv, bind_map, map_bind]
    refine bind_congr_ok fun c hc => ?_
    have hlike := like_store h hc
    refine ih hlike.raster.wellFormed (hlike.raster.lt_length h hi) ?_
    rw [hlike.raster.size]
    exact henv.take name

/-- Variables can be written back pixel by pixel. -/
theorem writeBack_cell (h : b.raster.WellFormed) (hi : i < b.raster.pixels.length)
    (henv : env.Laid (.ofSize b.raster.size)) :
    (b.cell i).writeBack (env.cell i) = (b.writeBack env).map (cell i) := by
  have hnames : (b.cell i).names = b.names := rfl
  simp only [writeBack, hnames, storeAll_cell h hi henv, bind_map, map_bind]
  refine bind_congr_ok fun stored _ => ?_
  have halpha : (stored.1.cell i).raster.hasAlpha = stored.1.raster.hasAlpha := rfl
  simp only [Environment.take_cell, Option.isSome_map, halpha]
  split <;> rfl

end Bands

/-! ## Rules -/

/-- Both conversions change each pixel on its own. -/
structure ColorSpace.Pixelwise (s : ColorSpace) : Prop where
  encode : Raster.Pixelwise s.encode
  decode : Raster.Pixelwise s.decode

/-- The masker is compiled over variables that are no planes and masks, for a space that converts
each pixel on its own. -/
structure Masker.Pixelwise (k : Masker) : Prop where
  predicate : ∃ expr globals, k.predicate = .compiled expr globals ∧ globals.Plain
  space : k.space.Pixelwise

/-- The action is compiled over variables that are no planes and masks, for a space that converts
each pixel on its own. -/
structure Action.Pixelwise (a : Action) : Prop where
  transform : ∃ statements globals, a.transform = .compiled statements globals ∧ globals.Plain
  space : a.space.Pixelwise

/-- All rules of the entry are compiled, for spaces that convert each pixel on its own. -/
structure Entry.Pixelwise (e : Entry) : Prop where
  masker : e.masker.Pixelwise
  actions : ∀ a ∈ e.actions, a.Pixelwise

variable {i : Nat} {r chunk : Raster} {m : Mask} {globals : Environment}

/-- A space of pixel-by-pixel conversions keeps the shape of images. -/
theorem ColorSpace.Pixelwise.keepsShape {s : ColorSpace} (h : s.Pixelwise) : s.KeepsShape :=
  ⟨fun _ hr => h.encode.like hr, fun _ hr => h.decode.like hr⟩

/-- A compiled masker over pixel-by-pixel conversions keeps the shape of images. -/
theorem Masker.Pixelwise.keepsShape {k : Masker} (h : k.Pixelwise) : k.KeepsShape :=
  ⟨h.predicate, h.space.keepsShape⟩

/-- A compiled action over pixel-by-pixel conversions keeps the shape of images. -/
theorem Action.Pixelwise.keepsShape {a : Action} (h : a.Pixelwise) : a.KeepsShape :=
  ⟨h.transform, h.space.keepsShape⟩

/-- A compiled entry over pixel-by-pixel conversions keeps the shape of images. -/
theorem Entry.Pixelwise.keepsShape {e : Entry} (h : e.Pixelwise) : e.KeepsShape :=
  ⟨h.masker.keepsShape, fun a ha => (h.actions a ha).keepsShape⟩

/-- The mask that a value stands for selects a position if the cell of the value does. -/
theorem Predicate.maskOfValue_cell {v : Value} (width height : Nat) (hi : i < width * height) :
    maskOfValue 1 1 (v.cell i) = (maskOfValue width height v).map (Mask.cell i) := by
  cases v with
  | boolean b =>
    simp [Value.cell, maskOfValue, Mask.filled, Mask.cell, List.getD_eq_getElem?_getD, hi]
  | _ => rfl

/-- A compiled predicate selects pixel by pixel. -/
theorem Predicate.select_cell {b : Bands} {expr : Expr} (h : b.raster.WellFormed)
    (hi : i < b.raster.pixels.length) (hglobals : globals.Plain) :
    (Predicate.compiled expr globals).select (b.cell i) =
      ((Predicate.compiled expr globals).select b).map (Mask.cell i) := by
  have harea : i < b.raster.width * b.raster.height := h.lt_area hi
  simp only [select, Bands.environment_cell hglobals, bind_map, map_bind]
  refine bind_congr_ok fun env henv => ?_
  have hlaid := Bands.laid_scope h hglobals henv
  simp only [Expr.evaluate_cell hlaid harea, bind_map]
  exact bind_congr_ok fun v _ => maskOfValue_cell _ _ harea

/-- A compiled transform changes pixel by pixel. -/
theorem Transform.apply_cell {b : Bands} {statements : List Assignment} (h : b.raster.WellFormed)
    (hi : i < b.raster.pixels.length) (hglobals : globals.Plain) :
    (Transform.compiled statements globals).apply (b.cell i) =
      ((Transform.compiled statements globals).apply b).map (Raster.cell i) := by
  simp only [apply, Bands.environment_cell hglobals, bind_map, map_bind]
  refine bind_congr_ok fun env henv => ?_
  have hlaid := Bands.laid_scope h hglobals henv
  simp only [execute_cell hlaid (h.lt_area hi), bind_map]
  refine bind_congr_ok fun final hfinal => ?_
  simp only [Bands.writeBack_cell h hi (laid_of_execute hlaid hfinal), bind_map]
  rfl

/-- A compiled masker selects pixel by pixel. -/
theorem Masker.Pixelwise.maskOf_cell {k : Masker} (hk : k.Pixelwise) (hr : r.WellFormed)
    (hi : i < r.pixels.length) : k.maskOf (r.cell i) = (k.maskOf r).map (Mask.cell i) := by
  obtain ⟨expr, globals, hpredicate, hglobals⟩ := hk.predicate
  have hselect : (Predicate.compiled expr globals).select ⟨k.space, r.cell i⟩ =
      ((Predicate.compiled expr globals).select ⟨k.space, r⟩).map (Mask.cell i) :=
    @Predicate.select_cell i globals ⟨k.space, r⟩ expr hr hi hglobals
  simp only [Masker.maskOf, hpredicate, hselect, bind_map, map_bind]
  refine bind_congr_ok fun m hm => ?_
  -- neither mask is refused for its size
  have hsize : m.size = r.size := (Predicate.laid_select hr hglobals hm).1
  rw [if_pos hsize, if_pos (show (m.cell i).size = (r.cell i).size from rfl)]
  rfl

namespace Action.Pixelwise

variable {a : Action}

/-- A compiled action changes pixel by pixel. -/
theorem run_cell (ha : a.Pixelwise) (hchunk : chunk.WellFormed) (hi : i < chunk.pixels.length) :
    a.run (chunk.cell i) = (a.run chunk).map (Raster.cell i) := by
  obtain ⟨statements, globals, htransform, hglobals⟩ := ha.transform
  have hencoded := ha.space.encode.like hchunk
  have hlt : i < (a.space.encode chunk).pixels.length := hencoded.lt_length hchunk hi
  have happly : (Transform.compiled statements globals).apply
      ⟨a.space, (a.space.encode chunk).cell i⟩ =
        ((Transform.compiled statements globals).apply ⟨a.space, a.space.encode chunk⟩).map
          (Raster.cell i) :=
    @Transform.apply_cell i globals ⟨a.space, a.space.encode chunk⟩ statements
      hencoded.wellFormed hlt hglobals
  simp only [run, htransform, ha.space.encode.cell hchunk hi, happly, bind_map, map_bind]
  refine bind_congr_ok fun changed hchanged => ?_
  have hlike := Transform.like_apply hencoded.wellFormed hchanged
  rw [ha.space.decode.cell hlike.wellFormed (hlike.lt_length hencoded.wellFormed hlt)]
  rfl

end Action.Pixelwise

namespace Entry.Pixelwise

variable {e : Entry}

/-- Compiled actions, run one after another, change pixel by pixel. -/
theorem apply_cell (he : e.Pixelwise) (hchunk : chunk.WellFormed) (hi : i < chunk.pixels.length) :
    e.apply (chunk.cell i) = (e.apply chunk).map (Raster.cell i) := by
  have hactions := he.actions
  unfold Entry.apply
  generalize e.actions = actions at hactions
  induction actions generalizing chunk with
  | nil => rfl
  | cons a rest ih =>
    have ha := hactions a List.mem_cons_self
    simp only [List.foldlM_cons, ha.run_cell hchunk hi, bind_map, map_bind]
    refine bind_congr_ok fun next hnext => ?_
    have hlike := ha.keepsShape.like_run hchunk hnext
    exact ih hlike.wellFormed (hlike.lt_length hchunk hi)
      fun b hb => hactions b (List.mem_cons_of_mem _ hb)

end Entry.Pixelwise

/-! ## Contexts -/

/-- The context with the cells of its image and of all remembered representations. -/
def Context.cell (i : Nat) (c : Context) : Context where
  image := c.image.cell i
  cache := c.cache.map fun entries => entries.map fun (key, r) => (key, r.cell i)
  last := c.last.map fun (key, r) => (key, r.cell i)
  conversions := c.conversions

namespace Context

variable {c : Context}

/-- A context of one pixel starts as that of the image does. -/
theorem start_cell (image : Raster) (caching : Bool) (i : Nat) :
    start (image.cell i) caching = (start image caching).cell i := by
  cases caching <;> rfl

/-- The last answer about a pixel is the cell of the last answer about the image. -/
theorem last?_cell (c : Context) (i : Nat) (key : String) :
    (c.cell i).last? key = (c.last? key).map (Raster.cell i) := by
  simp only [last?, cell]
  cases c.last with
  | none => rfl
  | some entry =>
    simp only [Option.map_some]
    split <;> rfl

/-- What is cached for a pixel is the cell of what is cached for the image. -/
theorem cached?_cell (c : Context) (i : Nat) (key : String) :
    (c.cell i).cached? key = (c.cached? key).map (Raster.cell i) := by
  simp only [cached?, cell]
  cases c.cache with
  | none => rfl
  | some entries =>
    simp only [Option.map_some, Option.bind_some]
    induction entries with
    | nil => rfl
    | cons entry rest ih =>
      obtain ⟨known, r⟩ := entry
      cases hkey : key == known with
      | true => simp [List.lookup_cons, hkey]
      | false => simpa [List.lookup_cons, hkey] using ih

/-- Representations of the cell are cells of the representations, also of remembered ones. -/
theorem request_cell {space : ColorSpace} (hspace : space.Pixelwise) (hc : c.image.WellFormed)
    (hi : i < c.image.pixels.length) :
    (c.cell i).request space = ((c.request space).1.cell i, (c.request space).2.cell i) := by
  unfold request
  split
  · rfl
  · simp only [last?_cell, cached?_cell]
    cases c.last? space.key with
    | some r => rfl
    | none =>
      cases c.cached? space.key with
      | some r => rfl
      | none =>
        have hencode : space.encode (c.image.cell i) = (space.encode c.image).cell i :=
          hspace.encode.cell hc hi
        simp only [Option.map_none, convert]
        rw [show (c.cell i).image = c.image.cell i from rfl, hencode]
        simp only [cell, Option.map_map]
        rfl

end Context

/-- A compiled masker selects pixel by pixel, whatever a context remembers of an image. -/
theorem Masker.Pixelwise.mask_cell {k : Masker} {c : Context} (hk : k.Pixelwise)
    (hc : c.All c.image.Like) (hi : i < c.image.pixels.length) :
    k.mask (c.cell i) = ((k.mask c).1.map (Mask.cell i), (k.mask c).2.cell i) := by
  have hwf := hc.image.wellFormed
  obtain ⟨hr, -, -⟩ := hc.request k.space (hk.space.encode.like hwf)
  simp only [mask, Context.request_cell hk.space hwf hi,
    hk.maskOf_cell hr.wellFormed (hr.lt_length hwf hi)]

end Recolor
