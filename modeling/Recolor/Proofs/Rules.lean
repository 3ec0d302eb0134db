import Recolor.Mapping.Mapper
import Recolor.Proofs.Buffers

/-!
# Well-formed rules

Masks and rasters also come from outside: from functions of the library's user, and from the
conversions of colour spaces. A rule is well formed if these answer well-formed masks and rasters
(`Entry.WellFormed`). Then the masks of its masker and the chunks of its actions are well formed,
whatever images a context has been asked for before.
-/

set_option autoImplicit false

namespace Recolor

/-! ## Rasters of one shape -/

/-- The second raster is well formed, and has the size and the channels of the first. -/
structure Raster.Like (r s : Raster) : Prop where
  wellFormed : s.WellFormed
  size : s.size = r.size
  channels : s.channels = r.channels

namespace Raster.Like

variable {r s t : Raster}

/-- A well-formed raster has its own shape. -/
theorem refl (h : r.WellFormed) : r.Like r := ⟨h, rfl, rfl⟩

/-- Rasters like one another are like a third. -/
theorem trans (h : r.Like s) (h' : s.Like t) : r.Like t :=
  ⟨h'.wellFormed, h'.size.trans h.size, h'.channels.trans h.channels⟩

/-- Rasters like one another have one width. -/
theorem width_eq (h : r.Like s) : s.width = r.width := congrArg Prod.fst h.size

/-- Rasters like one another have one height. -/
theorem height_eq (h : r.Like s) : s.height = r.height := congrArg Prod.snd h.size

/-- Rasters like one another have as many places. -/
theorem area_eq (h : r.Like s) : s.area = r.area := by
  rw [area, area, h.width_eq, h.height_eq]

/-- Rasters of one shape have equally many pixels. -/
theorem length_pixels (h : r.Like s) (hr : r.WellFormed) : s.pixels.length = r.pixels.length := by
  rw [h.wellFormed.2, hr.2, h.channels, h.width_eq, h.height_eq]

/-- Writing a band keeps the shape. -/
theorem setBand {i : Nat} {plane : Plane} (h : r.WellFormed) (hs : r.setBand i plane = .ok s) :
    r.Like s := by
  have hwf := h.setBand hs
  obtain ⟨-, -, rfl⟩ := setBand_eq_ok.1 hs
  exact ⟨hwf, rfl, rfl⟩

/-- Filling a band keeps the shape. -/
theorem fillBand {i : Nat} {x : Number} (h : r.WellFormed) (hs : r.fillBand i x = .ok s) :
    r.Like s := by
  have hwf := h.fillBand hs
  obtain ⟨-, rfl⟩ := fillBand_eq_ok.1 hs
  exact ⟨hwf, rfl, rfl⟩

/-- Changing each pixel keeps the shape. -/
theorem mapPixels {f : Pixel → Pixel} (h : r.WellFormed) (hf : ∀ p, (f p).length = p.length) :
    r.Like (r.mapPixels f) :=
  ⟨h.mapPixels hf, rfl, rfl⟩

end Raster.Like

/-! ## Bands as variables -/

namespace Bands

variable {b c : Bands} {layout : Layout} {globals env final : Environment}

/-- A band is answered if its name has an index and the raster has a channel there. -/
theorem band_eq_ok {name : String} {plane : Plane} :
    b.band name = .ok plane ↔ ∃ i, b.index name = .ok i ∧ b.raster.band i = .ok plane := by
  simp only [band, bind_eq_ok]

/-- A band is written if its name has an index and the raster takes the plane there. -/
theorem setBand_eq_ok {name : String} {plane : Plane} :
    b.setBand name plane = .ok c ↔
      ∃ i, b.index name = .ok i ∧ ∃ r, b.raster.setBand i plane = .ok r ∧
        c = { b with raster := r } := by
  simp only [setBand, bind_eq_ok, pure_eq_ok, Except.ok.injEq, @eq_comm _ c]

/-- A band is filled if its name has an index and the raster has a channel there. -/
theorem fillBand_eq_ok {name : String} {x : Number} :
    b.fillBand name x = .ok c ↔
      ∃ i, b.index name = .ok i ∧ ∃ r, b.raster.fillBand i x = .ok r ∧
        c = { b with raster := r } := by
  simp only [fillBand, bind_eq_ok, pure_eq_ok, Except.ok.injEq, @eq_comm _ c]

/-- A band of a well-formed raster is laid out in its size. -/
theorem laid_band {name : String} {plane : Plane} (h : b.raster.WellFormed)
    (hband : b.band name = .ok plane) : (Value.band plane).Laid (.ofSize b.raster.size) := by
  obtain ⟨i, -, hi⟩ := band_eq_ok.1 hband
  exact h.laid_band hi

/-- Binding bands of a layout keeps the layout of the variables. -/
theorem laid_bindAll {names : List String}
    (hbands : ∀ name plane, b.band name = .ok plane → (Value.band plane).Laid layout)
    (henv : env.Laid layout) (h : b.bindAll names env = .ok final) : final.Laid layout := by
  induction names generalizing env with
  | nil =>
    cases h
    exact henv
  | cons name rest ih =>
    obtain ⟨plane, hplane, hrest⟩ := bind_eq_ok.1 h
    exact ih (henv.bind (hbands name plane hplane)) hrest

/-- In the scope of a transform all planes and masks have the layout of the bands and of the global
variables. -/
theorem laid_environment
    (hbands : ∀ name plane, b.band name = .ok plane → (Value.band plane).Laid layout)
    (hglobals : globals.Laid layout) (h : b.environment globals = .ok env) : env.Laid layout :=
  laid_bindAll hbands hglobals.child h

/-- The bands are those of a well-formed raster in the same space and of the same shape. -/
structure Like (b c : Bands) : Prop where
  space : c.space = b.space
  raster : b.raster.Like c.raster

/-- Storing a value keeps the shape. -/
theorem like_store {name : String} {value? : Option Value} (h : b.raster.WellFormed)
    (hc : b.store name value? = .ok c) : b.Like c := by
  unfold store at hc
  split at hc
  · obtain ⟨i, -, r, hr, rfl⟩ := setBand_eq_ok.1 hc
    exact ⟨rfl, .setBand h hr⟩
  · obtain ⟨i, -, r, hr, rfl⟩ := fillBand_eq_ok.1 hc
    exact ⟨rfl, .fillBand h hr⟩
  · cases hc
  · cases hc
    exact ⟨rfl, .refl h⟩

/-- Storing all variables keeps the shape. -/
theorem like_storeAll {names : List String} (h : b.raster.WellFormed)
    (hc : storeAll names b env = .ok (c, final)) : b.Like c := by
  induction names generalizing b env with
  | nil =>
    cases hc
    exact ⟨rfl, .refl h⟩
  | cons name rest ih =>
    obtain ⟨b₁, hstore, hrest⟩ := bind_eq_ok.1 hc
    have hfirst : b.Like b₁ := like_store h hstore
    have hlater : b₁.Like c := ih hfirst.raster.wellFormed hrest
    exact ⟨hlater.space.trans hfirst.space, hfirst.raster.trans hlater.raster⟩

/-- Writing the variables back is storing them all, unless alpha is left over. -/
theorem writeBack_eq_ok :
    b.writeBack env = .ok c ↔ ∃ final, storeAll b.names b env = .ok (c, final) ∧
      ¬(!c.raster.hasAlpha && (final.take alphaName).1.isSome) = true := by
  simp only [writeBack, bind_eq_ok, Prod.exists]
  constructor
  · rintro ⟨c', final, hstore, h⟩
    split at h
    · obtain ⟨_, h, _⟩ := bind_eq_ok.1 h
      cases h
    · cases h
      exact ⟨final, hstore, ‹_›⟩
  · rintro ⟨final, hstore, h⟩
    exact ⟨c, final, hstore, by simp only [if_neg h]; rfl⟩

/-- Writing the variables back keeps the shape. -/
theorem like_writeBack (h : b.raster.WellFormed) (hc : b.writeBack env = .ok c) : b.Like c := by
  obtain ⟨final, hstore, -⟩ := writeBack_eq_ok.1 hc
  exact like_storeAll h hstore

end Bands

/-! ## Rules -/

/-- The conversions make well-formed rasters of well-formed rasters. -/
structure ColorSpace.WellFormed (s : ColorSpace) : Prop where
  encode : ∀ r : Raster, r.WellFormed → (s.encode r).WellFormed
  decode : ∀ r : Raster, r.WellFormed → (s.decode r).WellFormed

/-- The representation of an image has the size of the image: conversions are made for the bands of
pixels, and leave the pixels where they are. -/
def ColorSpace.KeepsSize (s : ColorSpace) : Prop :=
  ∀ r : Raster, r.WellFormed → (s.encode r).size = r.size

/-- A function answers well-formed masks, and a script sees no other planes and masks. -/
def Predicate.WellFormed : Predicate → Prop
  | .native f => ∀ b m, b.raster.WellFormed → f b = .ok m → m.WellFormed
  | .compiled _ globals => globals.Laid .full

/-- A function answers well-formed rasters. -/
def Transform.WellFormed : Transform → Prop
  | .native f => ∀ b r, b.raster.WellFormed → f b = .ok r → r.WellFormed
  | .compiled _ _ => True

/-- The predicate answers well-formed masks, over a space whose conversions make well-formed
images. -/
structure Masker.WellFormed (m : Masker) : Prop where
  predicate : m.predicate.WellFormed
  space : m.space.WellFormed

/-- The transform answers well-formed images, and so do the conversions around it. -/
structure Action.WellFormed (a : Action) : Prop where
  transform : a.transform.WellFormed
  space : a.space.WellFormed

/-- The masker and all actions of the entry are well formed. -/
structure Entry.WellFormed (e : Entry) : Prop where
  masker : e.masker.WellFormed
  actions : ∀ a ∈ e.actions, a.WellFormed

/-- All rules are well formed. -/
def Mapper.WellFormed (m : Mapper) : Prop := ∀ e ∈ m.entries, e.WellFormed

/-- The layout of a size is a full one. -/
theorem Value.Laid.full {v : Value} {size : Nat × Nat} (h : v.Laid (.ofSize size)) :
    v.Laid .full := by
  cases v with
  | mask m => exact h.2
  | band p => exact h.2
  | _ => trivial

/-- The value of a compiled predicate is a mask or a truth value. -/
theorem Predicate.wellFormed_maskOfValue {width height : Nat} {v : Value} {m : Mask}
    (hv : v.Laid .full) (h : maskOfValue width height v = .ok m) : m.WellFormed := by
  unfold maskOfValue at h
  split at h
  · cases h
    exact hv
  · cases h
    simp [Mask.WellFormed, Mask.filled]
  · cases h

/-- A well-formed predicate answers well-formed masks. -/
theorem Predicate.WellFormed.select {p : Predicate} {b : Bands} {m : Mask} (hp : p.WellFormed)
    (hb : b.raster.WellFormed) (h : p.select b = .ok m) : m.WellFormed := by
  cases p with
  | native f => exact hp b m hb h
  | compiled expr globals =>
    obtain ⟨env, henv, h⟩ := bind_eq_ok.1 h
    obtain ⟨v, hv, h⟩ := bind_eq_ok.1 h
    have hlaid : env.Laid .full :=
      Bands.laid_environment (fun _ _ hband => (Bands.laid_band hb hband).full) hp henv
    exact wellFormed_maskOfValue (Expr.laid_of_evaluate hlaid hv) h

/-- A mask is accepted if it has the size of the representation. -/
theorem Masker.maskOf_eq_ok {k : Masker} {r : Raster} {m : Mask} :
    k.maskOf r = .ok m ↔ k.predicate.select ⟨k.space, r⟩ = .ok m ∧ m.size = r.size := by
  simp only [maskOf, bind_eq_ok]
  constructor
  · rintro ⟨m', hselect, h⟩
    split at h
    · cases h
      exact ⟨hselect, ‹_›⟩
    · cases h
  · rintro ⟨hselect, hsize⟩
    exact ⟨m, hselect, by simp [hsize]⟩

/-- A well-formed masker answers well-formed masks. -/
theorem Masker.WellFormed.maskOf {k : Masker} {r : Raster} {m : Mask} (hk : k.WellFormed)
    (hr : r.WellFormed) (h : k.maskOf r = .ok m) : m.WellFormed :=
  hk.predicate.select hr (Masker.maskOf_eq_ok.1 h).1

/-- A well-formed transform answers well-formed rasters. -/
theorem Transform.WellFormed.apply {t : Transform} {b : Bands} {r : Raster} (ht : t.WellFormed)
    (hb : b.raster.WellFormed) (h : t.apply b = .ok r) : r.WellFormed := by
  cases t with
  | native f => exact ht b r hb h
  | compiled statements globals =>
    obtain ⟨env, -, h⟩ := bind_eq_ok.1 h
    obtain ⟨final, -, h⟩ := bind_eq_ok.1 h
    obtain ⟨c, hc, h⟩ := bind_eq_ok.1 h
    cases h
    exact (Bands.like_writeBack hb hc).raster.wellFormed

/-- A well-formed action answers well-formed chunks. -/
theorem Action.WellFormed.run {a : Action} {chunk r : Raster} (ha : a.WellFormed)
    (hchunk : chunk.WellFormed) (h : a.run chunk = .ok r) : r.WellFormed := by
  obtain ⟨changed, hchanged, h⟩ := bind_eq_ok.1 h
  cases h
  exact ha.space.decode _ (ha.transform.apply (ha.space.encode _ hchunk) hchanged)

/-- Well-formed actions, run one after another, answer well-formed chunks. -/
theorem Entry.WellFormed.apply {e : Entry} {chunk r : Raster} (he : e.WellFormed)
    (hchunk : chunk.WellFormed) (h : e.apply chunk = .ok r) : r.WellFormed := by
  have hactions := he.actions
  unfold Entry.apply at h
  generalize e.actions = actions at h hactions
  induction actions generalizing chunk with
  | nil =>
    cases h
    exact hchunk
  | cons a rest ih =>
    obtain ⟨next, hnext, hrest⟩ := bind_eq_ok.1 h
    have hnext : next.WellFormed := (hactions a List.mem_cons_self).run hchunk hnext
    exact ih hnext hrest fun a ha => hactions a (List.mem_cons_of_mem _ ha)

/-! ## Contexts -/

namespace Context

/-- The image and all remembered representations have a property. -/
structure All (c : Context) (P : Raster → Prop) : Prop where
  image : P c.image
  cache : ∀ entries, c.cache = some entries → ∀ entry ∈ entries, P entry.2
  last : ∀ entry, c.last = some entry → P entry.2

variable {c : Context} {P : Raster → Prop}

/-- At the start nothing is remembered. -/
theorem All.start {image : Raster} {caching : Bool} (h : P image) :
    (start image caching).All P where
  image := h
  cache entries hentries := by
    cases caching with
    | false => cases hentries
    | true =>
      cases hentries
      simp
  last entry hentry := by cases hentry

/-- What is remembered under a key is one of the remembered representations. -/
theorem All.of_cached (h : c.All P) {key : String} {r : Raster} (hr : c.cached? key = some r) :
    P r := by
  obtain ⟨entries, hentries, hlookup⟩ := Option.bind_eq_some_iff.1 hr
  obtain ⟨before, after, rfl, -⟩ := List.lookup_eq_some_iff.1 hlookup
  exact h.cache _ hentries (key, r) (by simp)

/-- What is remembered last is one of the remembered representations. -/
theorem All.of_last (h : c.All P) {key : String} {r : Raster} (hr : c.last? key = some r) :
    P r := by
  unfold last? at hr
  split at hr
  · split at hr
    · cases hr
      exact h.last _ ‹_›
    · cases hr
  · cases hr

/-- If the conversion that is asked for has the property, the answer and all that is remembered
afterwards have it. -/
theorem All.request (h : c.All P) (space : ColorSpace) (hencode : P (space.encode c.image)) :
    P (c.request space).1 ∧ (c.request space).2.All P ∧ (c.request space).2.image = c.image := by
  unfold Context.request
  split
  · exact ⟨h.image, h, rfl⟩
  · split
    next r hr => exact ⟨h.of_last hr, h, rfl⟩
    next =>
      split
      next r hr =>
        have hP : P r := h.of_cached hr
        refine ⟨hP, ⟨h.image, h.cache, fun entry hentry => ?_⟩, rfl⟩
        cases hentry
        exact hP
      next =>
        refine ⟨hencode, ⟨h.image, fun entries hentries entry hentry => ?_, fun entry hentry => ?_⟩,
          rfl⟩
        · obtain ⟨known, hknown, rfl⟩ := Option.map_eq_some_iff.1 hentries
          rcases List.mem_cons.1 hentry with rfl | hentry
          · exact hencode
          · exact h.cache known hknown entry hentry
        · cases hentry
          exact hencode

end Context

end Recolor
