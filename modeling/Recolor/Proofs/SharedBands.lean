import Recolor.Proofs.Caching
import Recolor.Proofs.PixelLocality

/-!
# Predicates and actions see the same bands

A predicate sees the bands of the whole image, as the context of the run answers them. The first
action of the entry sees those of a chunk, which it converts by itself. If the conversion of the
space maps each pixel on its own, converting the pixels that are taken out is taking them out of the
converted image (`Raster.MapsPixels.gather`). Hence both see the same numbers at the pixels of the
entry.

This asks that a context and an action convert alike. A context answers the image itself for any
space with the key of red, green and blue, while an action uses the conversion that such a space
comes with. If a registry has a space under that key that converts anything, the predicate and the
first action see different numbers (`CompiledScript.bands_differ_of_negative`).
-/

set_option autoImplicit false

namespace Recolor

/-! ## Taking pixels out of planes and bands -/

/-- Mapping and selecting commute. -/
theorem selected_map {α β : Type} (f : α → β) (bits : List Bool) (xs : List α) :
    selected bits (xs.map f) = (selected bits xs).map f := by
  induction bits generalizing xs with
  | nil => cases xs <;> rfl
  | cons b bs ih =>
    cases xs with
    | nil => rfl
    | cons x xs => cases b <;> simp [selected, ih]

/-- What both masks select is selected by the second. -/
theorem Mask.selects_of_and {m n r : Mask} {i : Nat} (h : m.and n = .ok r)
    (hi : r.selects i = true) : n.selects i = true := by
  obtain ⟨-, heq⟩ := zipWith_eq_ok.1 h
  rw [heq, selects_iff, List.getElem?_zipWith] at hi
  rw [selects_iff]
  cases hm : m.bits[i]? with
  | none => simp [hm] at hi
  | some b =>
    cases hn : n.bits[i]? with
    | none => simp [hm, hn] at hi
    | some b' => simp_all

/-- The numbers of a plane at the selected positions, in one row. -/
def Plane.gather (m : Mask) (p : Plane) : Plane :=
  ⟨(selected m.bits p.values).length, 1, selected m.bits p.values⟩

/-- The number of a selected position stands at its place among those that are taken out. -/
theorem Plane.getElem?_gather {m : Mask} {i : Nat} (p : Plane) (hi : m.selects i = true) :
    (p.gather m).values[rank m.bits i]? = p.values[i]? :=
  getElem?_selected (Mask.selects_iff.1 hi)

/-- The band of the pixels taken out is what is taken out of the band. -/
theorem Raster.band_gather (r : Raster) (m : Mask) (i : Nat) :
    (r.gather m).band i = (r.band i).map (Plane.gather m) := by
  have hchannels : (r.gather m).channels = r.channels := rfl
  unfold band requireBand
  rw [hchannels]
  by_cases hi : i < r.channels
  · simp [hi, gather, Plane.gather, selected_map]
  · simp [hi]

namespace Bands

/-- The bands of the selected pixels. -/
def gather (m : Mask) (b : Bands) : Bands := ⟨b.space, b.raster.gather m⟩

/-- Bands that pixels are taken out of keep their names. -/
theorem names_gather (b : Bands) (m : Mask) : (b.gather m).names = b.names := rfl

/-- A named band of the pixels taken out is what is taken out of that band. -/
theorem band_gather (b : Bands) (m : Mask) (name : String) :
    (b.gather m).band name = (b.band name).map (Plane.gather m) := by
  have hindex : (b.gather m).index name = b.index name := rfl
  unfold band
  rw [hindex]
  cases b.index name with
  | error fault => rfl
  | ok i => exact Raster.band_gather b.raster m i

end Bands

/-! ## Conversions of single pixels -/

/-- A conversion of images that maps each pixel on its own. The number of channels of the result
depends on that of the image only. -/
def Raster.MapsPixels (g : Raster → Raster) : Prop :=
  ∃ (f : Nat → Pixel → Pixel) (channels : Nat → Nat), ∀ r : Raster, r.WellFormed →
    g r = ⟨r.width, r.height, channels r.channels, r.pixels.map (f r.channels)⟩

namespace Raster

variable {g : Raster → Raster} {r : Raster}

/-- A conversion that is pixel by pixel maps pixels, and so it commutes with taking pixels out. -/
theorem Pixelwise.mapsPixels (hg : Pixelwise g) : MapsPixels g := by
  obtain ⟨f, -, hmap⟩ := hg
  exact ⟨fun _ => f, id, hmap⟩

/-- The pixels that are taken out can be converted before or afterwards. -/
theorem MapsPixels.gather (hg : MapsPixels g) (hr : r.WellFormed) (hc : r.channels ≠ 0) (m : Mask) :
    g (r.gather m) = (g r).gather m := by
  obtain ⟨f, channels, hmap⟩ := hg
  rw [hmap _ (hr.gather hc m), hmap r hr]
  simp [Raster.gather, selected_map]

end Raster

/-! ## What predicates and actions see -/

/-- The bands that the predicate of a masker is asked about in a context. -/
def Masker.bands (k : Masker) (c : Context) : Bands := ⟨k.space, (c.request k.space).1⟩

/-- The bands that the transform of an action starts with. -/
def Action.bands (a : Action) (chunk : Raster) : Bands := ⟨a.space, a.space.encode chunk⟩

/-- The mask that a masker answers is the one that its predicate selects of these bands. -/
theorem Masker.select_bands {k : Masker} {c : Context} {m : Mask} (h : (k.mask c).1 = .ok m) :
    k.predicate.select (k.bands c) = .ok m :=
  (maskOf_eq_ok.1 h).1

namespace Mapper

variable {registry : Registry} {entries : List Entry} {c : Context} {image output out : Raster}
  {caching : Bool} {parts : List (Mask × Entry)} {remaining rest : Mask}

/-- The context that maskers leave behind when they are asked one after another. -/
def contextAfter (entries : List Entry) (c : Context) : Context :=
  entries.foldl (fun c e => (e.masker.mask c).2) c

/-- The context that maskers leave behind keeps for each space what its conversion made of the
image. -/
theorem faithful_contextAfter (he : ∀ e ∈ entries, registry.Holds e.masker.space)
    (hc : c.Faithful registry) :
    (contextAfter entries c).Faithful registry ∧ (contextAfter entries c).image = c.image := by
  induction entries generalizing c with
  | nil => exact ⟨hc, rfl⟩
  | cons e entries ih =>
    obtain ⟨-, hnext, himage⟩ := hc.request (he e List.mem_cons_self)
    obtain ⟨hfaithful, hsame⟩ := ih (fun e he' => he e (List.mem_cons_of_mem _ he')) hnext
    exact ⟨hfaithful, hsame.trans himage⟩

/-- The parts of a partition belong to the entries, in their order. -/
theorem map_snd_of_partition (h : partition entries c remaining = .ok (parts, rest)) :
    parts.map Prod.snd = entries := by
  induction entries generalizing c remaining parts with
  | nil =>
    cases h
    rfl
  | cons e entries ih =>
    obtain ⟨_, -, matched, -, left, -, more, hmore, heq⟩ := partition_cons_eq_ok.1 h
    rw [heq, List.map_cons, ih hmore]

/-- The pixels of an entry are among those that its masker selects, in the context that the maskers
before it leave behind. -/
theorem exists_mask_of_partition (h : partition entries c remaining = .ok (parts, rest)) {k : Nat}
    {part : Mask × Entry} (hpart : parts[k]? = some part) :
    ∃ m, (part.2.masker.mask (contextAfter (entries.take k) c)).1 = .ok m ∧
      ∀ i, part.1.selects i = true → m.selects i = true := by
  induction entries generalizing c remaining parts k with
  | nil =>
    cases h
    cases hpart
  | cons e entries ih =>
    obtain ⟨m, hm, matched, hmatched, left, -, more, hmore, heq⟩ := partition_cons_eq_ok.1 h
    rw [heq] at hpart
    cases k with
    | zero =>
      cases hpart
      exact ⟨m, hm, fun i hi => Mask.selects_of_and hmatched hi⟩
    | succ k => exact ih hmore hpart

/-- An entry changes pixels of the image that is written, but neither their number nor that of the
channels. -/
theorem frame_of_recolour {part : Mask × Entry} (h : recolour image output part = .ok out) :
    out.channels = output.channels ∧ out.pixels.length = output.pixels.length := by
  have hcopied := length_chooseSelected part.1.bits output.pixels image.pixels
  rcases recolour_eq_ok.1 h with ⟨-, heq⟩ | ⟨-, -, chunk, -, hscatter⟩
  · rw [heq]
    exact ⟨rfl, hcopied⟩
  · obtain ⟨-, heq⟩ := Raster.scatter_eq_ok.1 hscatter
    rw [heq]
    exact ⟨rfl, (length_replaceSelected _ _ _).trans hcopied⟩

/-- The parts that are written one after another change neither the number of pixels nor that of the
channels. -/
theorem frame_of_foldlM (h : parts.foldlM (recolour image) output = .ok out) :
    out.channels = output.channels ∧ out.pixels.length = output.pixels.length := by
  induction parts generalizing output with
  | nil =>
    cases h
    exact ⟨rfl, rfl⟩
  | cons part rest ih =>
    obtain ⟨next, hnext, hrest⟩ := bind_eq_ok.1 h
    obtain ⟨hchannels, hlength⟩ := frame_of_recolour hnext
    obtain ⟨hchannels', hlength'⟩ := ih hrest
    exact ⟨hchannels'.trans hchannels, hlength'.trans hlength⟩

/-- Spaces are converted alike by contexts and actions: either they are not taken for the identity,
or they are. -/
theorem represent_eq_encode {s : ColorSpace} (himage : image.WellFormed)
    (hidentity : s.isIdentity = true → ∀ r : Raster, r.WellFormed → s.encode r = r) :
    s.represent image = s.encode image := by
  unfold ColorSpace.represent
  by_cases h : s.isIdentity = true
  · rw [if_pos h, hidentity h image himage]
  · rw [if_neg h]

/-- Whatever was written before, an action in the space of a masker starts with the bands that the
masker was asked about, as far as they belong to the selected pixels. -/
theorem bands_of_action {e : Entry} {a : Action} (hc : c.Faithful registry)
    (hcontext : c.image = image) (he : registry.Holds e.masker.space)
    (ha : a.space = e.masker.space) (hmaps : Raster.MapsPixels a.space.encode)
    (hidentity : a.space.isIdentity = true → ∀ r : Raster, r.WellFormed → a.space.encode r = r)
    (himage : image.WellFormed) (hnonzero : image.channels ≠ 0)
    (hchannels : output.channels = image.channels)
    (hlength : output.pixels.length = image.pixels.length) (m : Mask) :
    a.bands ((output.copySelected image m).gather m) = (e.masker.bands c).gather m := by
  obtain ⟨hanswer, -⟩ := hc.request he
  have hrepresent := represent_eq_encode himage hidentity
  have hconverted := hmaps.gather himage hnonzero m
  have hchunk := gather_copySelected_of_length hlength hchannels m
  rw [ha] at hrepresent hconverted
  unfold Action.bands Masker.bands Bands.gather
  rw [ha, hchunk, hconverted, hanswer, hcontext, hrepresent]

end Mapper

/-! ## Scripts -/

namespace Registry

variable {registry : Registry} {s : ColorSpace} {spaces : List ColorSpace}

/-- The spaces that a registry holds are among those that it was made of. -/
theorem Holds.mem_of_ofList (h : (ofList spaces).Holds s) : s ∈ spaces := by
  have hmem : s ∈ (ofList spaces).spaces := List.mem_of_find?_eq_some h
  rcases mem_of_mem_foldl_register hmem with hempty | hmem
  · cases hempty
  · exact hmem

end Registry

namespace CompiledScript

variable {source : String} {registry : Registry} {spaces : List ColorSpace} {config : Config}
  {s : CompiledScript} {lexed : Lexed} {program : Program} {warnings : Diagnostics}
  {globals : Environment} {r : Rule} {block : ActionBlock} {blocks : List ActionBlock}
  {image output : Raster} {caching : Bool} {parts : List (Mask × Entry)} {rest : Mask}
  {part : Mask × Entry} {k : Nat}

/-- A rule whose first block acts in its own space has an entry whose first action is in the space
of its masker. -/
theorem exists_firstAction {e : Entry} (h : entry registry globals r = .ok e)
    (hblocks : r.blocks = block :: blocks) (hspace : block.space = r.space) :
    ∃ a actions, e.actions = a :: actions ∧ action registry globals block = .ok a ∧
      a.space = e.masker.space := by
  obtain ⟨space, hresolved, h⟩ := bind_eq_ok.1 h
  obtain ⟨actions, hactions, h⟩ := bind_eq_ok.1 h
  cases h
  rw [hblocks, List.mapM_cons] at hactions
  obtain ⟨a, ha, hactions⟩ := bind_eq_ok.1 hactions
  obtain ⟨more, -, hactions⟩ := bind_eq_ok.1 hactions
  cases hactions
  refine ⟨a, more, rfl, ha, ?_⟩
  have haction : action registry globals block =
      .ok ⟨.compiled block.statements globals, space⟩ := by
    rw [action, hspace, hresolved]
    rfl
  rw [Except.ok.inj (ha.symm.trans haction)]

/-- The parts of an image that are shared out are those of the rules, in their order. -/
theorem entry_of_part (hlexed : readTokens source config.strictLexing = .ok lexed)
    (hparse : Program.parse lexed.tokens = .ok (program, warnings))
    (hs : compile source registry config = .ok s) (hr : program.rules[k]? = some r) {c : Context}
    {remaining : Mask}
    (hshared : Mapper.partition s.mapper.entries c remaining = .ok (parts, rest))
    (hpart : parts[k]? = some part) : entry registry s.globals r = .ok part.2 := by
  rw [compile_of_parse hlexed hparse] at hs
  obtain ⟨-, hentries⟩ := of_ofProgram_eq_ok hs
  obtain ⟨e, he, hentry⟩ := getElem?_of_mapM hentries hr
  have hsame : some part.2 = some e := by
    rw [← he, ← Mapper.map_snd_of_partition hshared, List.getElem?_map, hpart]
    rfl
  rw [hentry, Option.some.inj hsame]

/-- On the pixels of a rule, the first block starts with the numbers that the predicate has seen, if
it acts in the space of the rule and this is not one that is wrongly taken for the identity. -/
theorem bands_of_firstBlock
    (hspaces : ∀ t ∈ spaces, Raster.MapsPixels t.encode)
    (hrgb : r.space = ColorSpace.identityKey → ∀ t,
      (Registry.ofList spaces).get? ColorSpace.identityKey = some t →
        ∀ x : Raster, x.WellFormed → t.encode x = x)
    (hlexed : readTokens source config.strictLexing = .ok lexed)
    (hparse : Program.parse lexed.tokens = .ok (program, warnings))
    (hs : compile source (.ofList spaces) config = .ok s)
    (hr : program.rules[k]? = some r) (hblocks : r.blocks = block :: blocks)
    (hspace : block.space = r.space)
    (himage : image.WellFormed) (hchannels : image.channels = 3 ∨ image.channels = 4)
    (hshared : Mapper.partition s.mapper.entries (.start image caching)
      (Mask.filled image.width image.height true) = .ok (parts, rest))
    (hpart : parts[k]? = some part)
    (houtput : (parts.take k).foldlM (Mapper.recolour image)
      (Raster.zero image.width image.height image.channels) = .ok output) :
    ∃ a actions seen started mask, entry (.ofList spaces) s.globals r = .ok part.2 ∧
      part.2.actions = a :: actions ∧ action (.ofList spaces) s.globals block = .ok a ∧
      seen = part.2.masker.bands
        (Mapper.contextAfter (s.mapper.entries.take k) (.start image caching)) ∧
      part.2.masker.predicate.select seen = .ok mask ∧
      started = a.bands ((output.copySelected image part.1).gather part.1) ∧
      started.names = seen.names ∧
      ∀ i, part.1.selects i = true → mask.selects i = true ∧
        ∀ name plane, seen.band name = .ok plane → ∃ taken, started.band name = .ok taken ∧
          taken.values[rank part.1.bits i]? = plane.values[i]? := by
  have hentry := entry_of_part hlexed hparse hs hr hshared hpart
  obtain ⟨a, actions, hactions, haction, haspace⟩ := exists_firstAction hentry hblocks hspace
  obtain ⟨hholds, hkey⟩ := holds_of_entry_eq_ok hentry
  have hstart : (Context.start image caching).Faithful (.ofList spaces) := .start
  obtain ⟨hfaithful, hsame⟩ := @Mapper.faithful_contextAfter _ (s.mapper.entries.take k) _
    (fun e he => holds_of_mem_entries hs (List.mem_of_mem_take he)) hstart
  have hcontext : (Mapper.contextAfter (s.mapper.entries.take k) (.start image caching)).image =
      image := hsame
  have hmaps : Raster.MapsPixels a.space.encode := by
    rw [haspace]
    exact hspaces _ hholds.mem_of_ofList
  have hidentity : a.space.isIdentity = true →
      ∀ x : Raster, x.WellFormed → a.space.encode x = x := by
    intro h
    rw [haspace] at h ⊢
    have hidentityKey : part.2.masker.space.key = ColorSpace.identityKey := beq_iff_eq.1 h
    rw [Registry.Holds, hidentityKey] at hholds
    exact hrgb (hkey.symm.trans hidentityKey) _ hholds
  -- what was written for the rules before has the frame of the image, so the chunk is cut from it
  obtain ⟨hsameChannels, hsameLength⟩ := Mapper.frame_of_foldlM houtput
  have hblank := (Mapper.like_zero image).length_pixels himage
  have hnonzero : image.channels ≠ 0 := by omega
  have hbands := Mapper.bands_of_action hfaithful hcontext hholds haspace hmaps hidentity himage
    hnonzero hsameChannels (hsameLength.trans hblank) part.1
  obtain ⟨mask, hmask, hselects⟩ := Mapper.exists_mask_of_partition hshared hpart
  refine ⟨a, actions, _, _, mask, hentry, hactions, haction, rfl, Masker.select_bands hmask, rfl,
    ?_, ?_⟩
  · rw [hbands, Bands.names_gather]
  · intro i hi
    refine ⟨hselects i hi, ?_⟩
    intro name plane hplane
    refine ⟨plane.gather part.1, ?_, plane.getElem?_gather hi⟩
    rw [hbands, Bands.band_gather, hplane]
    rfl

/-- The only rule of a script and its only block, with the part of an image that the rule gets and
the action of the block. -/
def onlyRule (source : String) (spaces : List ColorSpace) (image : Raster) :
    Except Fault (Rule × ActionBlock × (Mask × Entry) × Action) := do
  let lexed ← readTokens source Config.standard.strictLexing
  let parsed ← Program.parse lexed.tokens
  let s ← compile source (.ofList spaces)
  let shared ← Mapper.partition s.mapper.entries (.start image true)
    (Mask.filled image.width image.height true)
  match parsed.1.rules, shared.1 with
  | [r], [part] =>
    match r.blocks, part.2.actions with
    | [block], [a] => return (r, block, part, a)
    | _, _ => throw (.config (.invalid ""))
  | _, _ => throw (.config (.invalid ""))

/-- What is answered for a script with one rule and one block: the stages that it comes from. -/
theorem of_onlyRule {a : Action}
    (h : onlyRule source spaces image = .ok (r, block, part, a)) :
    ∃ lexed program warnings s rest,
      readTokens source Config.standard.strictLexing = .ok lexed ∧
      Program.parse lexed.tokens = .ok (program, warnings) ∧
      compile source (.ofList spaces) = .ok s ∧
      Mapper.partition s.mapper.entries (.start image true)
        (Mask.filled image.width image.height true) = .ok ([part], rest) ∧
      program.rules = [r] ∧ r.blocks = [block] ∧ part.2.actions = [a] := by
  obtain ⟨lexed, hlexed, h⟩ := bind_eq_ok.1 h
  obtain ⟨⟨program, warnings⟩, hparse, h⟩ := bind_eq_ok.1 h
  obtain ⟨s, hs, h⟩ := bind_eq_ok.1 h
  obtain ⟨⟨parts, rest⟩, hshared, h⟩ := bind_eq_ok.1 h
  split at h
  next r' part' hrules hparts =>
    split at h
    next block' a' hblocks hactions =>
      cases h
      obtain rfl : parts = [part] := hparts
      exact ⟨lexed, program, warnings, s, rest, hlexed, hparse, hs, hshared, hrules, hblocks,
        hactions⟩
    next => cases h
  next => cases h

/-- A script with a rule whose block acts in the space of the rule, a standard one. -/
def darkening : String := "on hsv pixels having $v > 0.5 do $v = $v - 0.5; end;"

/-- For a block in the space of its rule, a pixel that the rule selects has the same value in
both. -/
theorem bands_of_firstBlock_darkening :
    ∃ (s : CompiledScript) (r : Rule) (part : Mask × Entry) (a : Action) (plane taken : Plane),
      compile darkening (.ofList ColorSpace.standard) = .ok s ∧
      entry (.ofList ColorSpace.standard) s.globals r = .ok part.2 ∧ part.2.actions = [a] ∧
      part.1.selects 1 = true ∧
      (part.2.masker.bands (.start ⟨2, 1, 3, [[0, 0.25, 0.25], [1, 1, 0]]⟩ true)).band "v" =
        .ok plane ∧
      (a.bands (((Raster.zero 2 1 3).copySelected ⟨2, 1, 3, [[0, 0.25, 0.25], [1, 1, 0]]⟩
        part.1).gather part.1)).band "v" = .ok taken ∧
      taken.values[rank part.1.bits 1]? = plane.values[1]? := by
  have hok : (onlyRule darkening ColorSpace.standard ⟨2, 1, 3, [[0, 0.25, 0.25], [1, 1, 0]]⟩ >>=
      fun (r, block, part, _) => do
        let _ ← (part.2.masker.bands (.start ⟨2, 1, 3, [[0, 0.25, 0.25], [1, 1, 0]]⟩ true)).band "v"
        if block.space = r.space ∧ r.space ≠ ColorSpace.identityKey ∧ part.1.selects 1 = true then
          .ok ()
        else .error (.config (.invalid ""))).isOk = true := by decide +kernel
  obtain ⟨_, hok⟩ := exists_of_isOk hok
  obtain ⟨⟨r, block, part, a⟩, honly, hok⟩ := bind_eq_ok.1 hok
  obtain ⟨plane, hplane, hok⟩ := bind_eq_ok.1 hok
  obtain ⟨lexed, program, warnings, s, rest, hlexed, hparse, hs, hshared, hrules, hblocks,
    hactions⟩ := of_onlyRule honly
  split at hok
  next hseen =>
    obtain ⟨hspace, hkey, hselected⟩ := hseen
    have hspaces : ∀ t ∈ ColorSpace.standard, Raster.MapsPixels t.encode := by
      intro t ht
      exact (ColorSpace.pixelwise_of_mem_standard ht).encode.mapsPixels
    have himage : (⟨2, 1, 3, [[0, 0.25, 0.25], [1, 1, 0]]⟩ : Raster).WellFormed := by
      simp [Raster.WellFormed]
    have hr : program.rules[0]? = some r := by
      rw [hrules]
      rfl
    obtain ⟨first, more, seen, started, mask, hentry, hfirst, -, rfl, -, rfl, -, hbands⟩ :=
      bands_of_firstBlock hspaces (fun h => absurd h hkey) hlexed hparse hs hr hblocks hspace
        himage (.inl rfl) hshared rfl rfl
    obtain ⟨rfl, -⟩ := List.cons.inj (hfirst.symm.trans hactions)
    obtain ⟨taken, htaken, hsame⟩ := (hbands 1 hselected).2 "v" plane hplane
    exact ⟨s, r, part, first, plane, taken, hs, hentry, hactions, hselected, hplane, htaken, hsame⟩
  next => cases hok

end CompiledScript

/-! ## A space that is taken for the identity -/

/-- The negative is a conversion pixel by pixel. -/
theorem ColorSpace.pixelwise_negative (key : String) : (negative key).Pixelwise :=
  ⟨pixelwise_mapPixels _, pixelwise_mapPixels _⟩

namespace CompiledScript

/-- A script with a rule whose block acts in the space of the rule. -/
def copying : String := "on pixels having $c > 0.5 do $m = $c; end;"

/-- For the predicate the first band is the red of the image, for the block it is cyan. -/
theorem bands_differ_of_negative :
    ∃ lexed program warnings s r block part rest a plane taken,
      (∀ t ∈ [ColorSpace.negative "rgb"], t.Pixelwise) ∧
      readTokens copying Config.standard.strictLexing = .ok lexed ∧
      Program.parse lexed.tokens = .ok (program, warnings) ∧
      compile copying (.ofList [.negative "rgb"]) = .ok s ∧
      program.rules = [r] ∧ r.blocks = [block] ∧ block.space = r.space ∧
      Mapper.partition s.mapper.entries (.start ⟨1, 1, 3, [[1, 0.5, 0]]⟩ true)
        (Mask.filled 1 1 true) = .ok ([part], rest) ∧
      part.2.actions = [a] ∧ part.1.selects 0 = true ∧
      (part.2.masker.bands (.start ⟨1, 1, 3, [[1, 0.5, 0]]⟩ true)).band "c" = .ok plane ∧
      (a.bands (((Raster.zero 1 1 3).copySelected ⟨1, 1, 3, [[1, 0.5, 0]]⟩ part.1).gather
        part.1)).band "c" = .ok taken ∧
      taken.values[rank part.1.bits 0]? ≠ plane.values[0]? := by
  have hok : (onlyRule copying [.negative "rgb"] ⟨1, 1, 3, [[1, 0.5, 0]]⟩ >>=
      fun (r, block, part, a) => do
        let plane ← (part.2.masker.bands (.start ⟨1, 1, 3, [[1, 0.5, 0]]⟩ true)).band "c"
        let taken ← (a.bands (((Raster.zero 1 1 3).copySelected ⟨1, 1, 3, [[1, 0.5, 0]]⟩
          part.1).gather part.1)).band "c"
        if block.space = r.space ∧ part.1.selects 0 = true ∧
            (plane.values[0]?).any (fun x => (0.5 : Number) < x) = true ∧
            (taken.values[rank part.1.bits 0]?).any (fun x => (0.5 : Number) < x) = false then
          .ok ()
        else .error (.config (.invalid ""))).isOk = true := by decide +kernel
  obtain ⟨_, hok⟩ := exists_of_isOk hok
  obtain ⟨⟨r, block, part, a⟩, honly, hok⟩ := bind_eq_ok.1 hok
  obtain ⟨plane, hplane, hok⟩ := bind_eq_ok.1 hok
  obtain ⟨taken, htaken, hok⟩ := bind_eq_ok.1 hok
  obtain ⟨lexed, program, warnings, s, rest, hlexed, hparse, hs, hshared, hrules, hblocks,
    hactions⟩ := of_onlyRule honly
  split at hok
  next hseen =>
    obtain ⟨hspace, hselected, hbright, hdark⟩ := hseen
    refine ⟨lexed, program, warnings, s, r, block, part, rest, a, plane, taken, ?_, hlexed, hparse,
      hs, hrules, hblocks, hspace, hshared, hactions, hselected, hplane, htaken, ?_⟩
    · intro t ht
      rw [List.mem_singleton.1 ht]
      exact ColorSpace.pixelwise_negative "rgb"
    · intro hsame
      rw [hsame, hbright] at hdark
      cases hdark
  next => cases hok

end CompiledScript

end Recolor
