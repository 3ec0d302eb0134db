import Recolor.Proofs.BandFaults
import Recolor.Proofs.NativeRules
import Recolor.Proofs.SharedBands

/-!
# Buffers stay well formed

A raster is kept in one list of numbers, `channels` for each of its places, and a plane or a mask in
a list of one item for each. Such a list is never of another length: what is made of well-formed
rasters, planes and masks is well formed, by any operation (`Raster.Keeps`, `Plane.Keeps`,
`Mask.Keeps`), in the evaluation of any expression (`Environment.Keeps`), where bands become
variables and are written back (`Bands.Keeps`), and at every stage of a run of a mapper whose
functions answer well-formed masks and rasters (`Mapper.Keeps`).

Operations on two buffers walk along both and stop where the shorter one ends. As buffers of one
size have one length, none of them stops early (`Raster.WalksAll`).
-/

set_option autoImplicit false

namespace Recolor

/-! ## Rasters as lists of numbers -/

namespace Raster

variable {r s chunk source : Raster} {m : Mask}

/-- As many numbers as fill `count` pieces are cut into these pieces, and nothing is dropped. -/
theorem flatten_chunksOfSucc {n count fuel : Nat} {xs : List Number}
    (hxs : xs.length = count * (n + 1)) (hfuel : count ≤ fuel) :
    (chunksOfSucc n fuel xs).flatten = xs ∧ (chunksOfSucc n fuel xs).length = count ∧
      ∀ p ∈ chunksOfSucc n fuel xs, p.length = n + 1 := by
  induction fuel generalizing count xs with
  | zero =>
    obtain rfl : count = 0 := Nat.le_zero.1 hfuel
    obtain rfl : xs = [] := by simpa using hxs
    simp [chunksOfSucc]
  | succ fuel ih =>
    cases count with
    | zero =>
      obtain rfl : xs = [] := by simpa using hxs
      simp [chunksOfSucc]
    | succ count =>
      have hlong : ¬xs.length ≤ n := by
        rw [hxs, Nat.succ_mul]
        omega
      have hdrop : (xs.drop (n + 1)).length = count * (n + 1) := by
        rw [List.length_drop, hxs, Nat.succ_mul, Nat.add_sub_cancel]
      obtain ⟨hflatten, hlength, hpieces⟩ := ih hdrop (Nat.le_of_succ_le_succ hfuel)
      rw [chunksOfSucc, if_neg hlong]
      refine ⟨?_, ?_, ?_⟩
      · rw [List.flatten_cons, hflatten, List.take_append_drop]
      · rw [List.length_cons, hlength]
      · intro p hp
        rcases List.mem_cons.1 hp with rfl | hp
        · rw [List.length_take]
          omega
        · exact hpieces p hp

/-- Pieces that were joined are cut apart again. -/
theorem chunksOfSucc_flatten {n fuel : Nat} {pixels : List Pixel}
    (hpixels : ∀ p ∈ pixels, p.length = n + 1) (hfuel : pixels.length ≤ fuel) :
    chunksOfSucc n fuel pixels.flatten = pixels := by
  induction pixels generalizing fuel with
  | nil => cases fuel <;> simp [chunksOfSucc]
  | cons p rest ih =>
    obtain ⟨fuel, rfl⟩ : ∃ more, fuel = more + 1 := Nat.exists_eq_succ_of_ne_zero (by
      rintro rfl
      simp at hfuel)
    have hp : p.length = n + 1 := hpixels p List.mem_cons_self
    have hrest : chunksOfSucc n fuel rest.flatten = rest :=
      ih (fun q hq => hpixels q (List.mem_cons_of_mem _ hq)) (by simpa using hfuel)
    have hlong : ¬(p ++ rest.flatten).length ≤ n := by
      rw [List.length_append, hp]
      omega
    rw [List.flatten_cons, chunksOfSucc, if_neg hlong, ← hp, List.take_left, List.drop_left, hrest]

/-- A well-formed raster holds `channels` numbers for each of its places. -/
theorem WellFormed.length_data (h : r.WellFormed) :
    r.data.length = r.width * r.height * r.channels := by
  have hlengths : r.pixels.map List.length = List.replicate r.pixels.length r.channels := by
    rw [List.eq_replicate_iff]
    refine ⟨List.length_map _, fun n hn => ?_⟩
    obtain ⟨p, hp, rfl⟩ := List.mem_map.1 hn
    exact h.1 p hp
  rw [data, List.length_flatten, hlengths, List.sum_replicate_nat, h.2]
  split
  next hc => simp [hc]
  next => rfl

/-- Numbers make a raster if there are as many as its size asks for. -/
theorem ofData_eq_ok {width height channels : Nat} {data : List Number} :
    ofData width height channels data = .ok r ↔
      data.length = width * height * channels ∧
        r = ⟨width, height, channels, pixelsOfData channels data⟩ := by
  unfold ofData
  split
  next h => simp [h, @eq_comm _ r]
  next h => simp [h]

/-- A raster that is made of numbers is well formed and holds these numbers. -/
theorem wellFormed_of_ofData {width height channels : Nat} {data : List Number}
    (h : ofData width height channels data = .ok r) : r.WellFormed ∧ r.data = data := by
  obtain ⟨hlength, rfl⟩ := ofData_eq_ok.1 h
  cases channels with
  | zero =>
    obtain rfl : data = [] := by simpa using hlength
    simp [WellFormed, Raster.data, pixelsOfData]
  | succ n =>
    have hfuel : width * height ≤ data.length := hlength ▸ Nat.le_mul_of_pos_right _ n.succ_pos
    obtain ⟨hflatten, hcount, hpieces⟩ := flatten_chunksOfSucc hlength hfuel
    refine ⟨⟨hpieces, ?_⟩, hflatten⟩
    rw [if_neg n.succ_ne_zero]
    exact hcount

/-- A well-formed raster is made of the numbers that it holds. -/
theorem WellFormed.ofData_data (h : r.WellFormed) :
    ofData r.width r.height r.channels r.data = .ok r := by
  refine ofData_eq_ok.2 ⟨h.length_data, ?_⟩
  obtain ⟨width, height, channels, pixels⟩ := r
  congr 1
  cases channels with
  | zero => exact List.eq_nil_of_length_eq_zero h.2
  | succ n =>
    have hlength : pixels.length ≤ pixels.flatten.length := by
      have hdata : pixels.flatten.length = width * height * (n + 1) := h.length_data
      have hpixels : pixels.length = width * height := h.2
      rw [hdata, hpixels]
      exact Nat.le_mul_of_pos_right _ n.succ_pos
    exact (chunksOfSucc_flatten h.1 hlength).symm

/-! ## Operations on rasters -/

/-- The pixels that are taken out are a well-formed image, also if there are no channels and so no
pixels. -/
theorem WellFormed.gather_any (h : r.WellFormed) (m : Mask) : (r.gather m).WellFormed := by
  by_cases hc : r.channels = 0
  · have hpixels : r.pixels = [] := List.eq_nil_of_length_eq_zero (by rw [h.2, if_pos hc])
    have hselected : selected m.bits r.pixels = [] := by
      rw [hpixels]
      cases m.bits <;> rfl
    refine ⟨fun p hp => h.1 p (mem_of_mem_selected hp), ?_⟩
    show (selected m.bits r.pixels).length = if r.channels = 0 then 0 else _
    rw [hselected, if_pos hc]
    rfl
  · exact h.gather hc m

/-- Putting an image back keeps the shape. -/
theorem Like.scatter (hr : r.WellFormed) (hchunk : chunk.WellFormed)
    (h : r.scatter m chunk = .ok s) : r.Like s := by
  have hs : s.WellFormed := hr.scatter hchunk h
  obtain ⟨-, rfl⟩ := scatter_eq_ok.1 h
  exact ⟨hs, rfl, rfl⟩

/-- Copying selected pixels keeps the shape. -/
theorem Like.copySelected (hr : r.WellFormed) (hsource : source.WellFormed)
    (hchannels : source.channels = r.channels) (m : Mask) : r.Like (r.copySelected source m) :=
  ⟨hr.copySelected hsource hchannels m, rfl, rfl⟩

/-- The conversion of a pixel keeps the number of its channels. -/
theorem length_convertPixel (f : Triple → Triple) (p : Pixel) :
    (ColorSpace.convertPixel f p).length = p.length := by
  unfold ColorSpace.convertPixel
  split <;> rfl

/-- What is made of a well-formed raster is well formed: the pixels that any mask takes out, the
raster with a chunk put back or with pixels of another copied, a band as a plane, the raster with a
band written or filled, and the raster converted pixel by pixel. -/
structure Keeps (r : Raster) : Prop where
  data : r.data.length = r.width * r.height * r.channels
  gather : ∀ m : Mask, (r.gather m).WellFormed
  scatter : ∀ (m : Mask) (chunk s : Raster), chunk.WellFormed → r.scatter m chunk = .ok s → r.Like s
  copySelected : ∀ (source : Raster) (m : Mask), source.WellFormed →
    source.channels = r.channels → r.Like (r.copySelected source m)
  band : ∀ i plane, r.band i = .ok plane → plane.WellFormed ∧ plane.size = r.size
  setBand : ∀ i plane s, r.setBand i plane = .ok s → r.Like s
  fillBand : ∀ i x s, r.fillBand i x = .ok s → r.Like s
  convert : ∀ f : Triple → Triple, r.Like (r.mapPixels (ColorSpace.convertPixel f))

/-- What is made of a well-formed raster is well formed. -/
theorem WellFormed.keeps (h : r.WellFormed) : r.Keeps where
  data := h.length_data
  gather := h.gather_any
  scatter _ _ _ hchunk hs := .scatter h hchunk hs
  copySelected _ m hsource hchannels := .copySelected h hsource hchannels m
  band _ _ hband := ⟨(h.laid_band hband).2, (h.laid_band hband).1⟩
  setBand _ _ _ hs := .setBand h hs
  fillBand _ _ _ hs := .fillBand h hs
  convert f := .mapPixels h (length_convertPixel f)

/-! ## Walking along pixels -/

/-- A mask of the size of a raster with channels has a bit for each pixel. -/
theorem WellFormed.length_pixels_eq (h : r.WellFormed) (hc : r.channels ≠ 0) (hm : m.WellFormed)
    (hsize : m.size = r.size) : r.pixels.length = m.bits.length := by
  obtain ⟨hwidth, hheight⟩ := Prod.mk.inj hsize
  rw [h.length_pixels hc, hm, hwidth, hheight, area]

/-- On a raster with channels, operations with a mask, a chunk, a raster or a plane of fitting size
leave out no pixel: the lists that they walk along have one length, as many pixels are taken out as
are selected, all pixels of a chunk are put in, each selected pixel is copied and no other, and a
band that was written holds what was written. -/
structure WalksAll (r : Raster) : Prop where
  gather : ∀ m : Mask, m.WellFormed → m.size = r.size →
    r.pixels.length = m.bits.length ∧ (r.gather m).pixels.length = m.count
  scatter : ∀ (m : Mask) (chunk : Raster), m.WellFormed → m.size = r.size → chunk.WellFormed →
    chunk.channels = r.channels → chunk.area = m.count →
      (selected m.bits r.pixels).length = chunk.pixels.length ∧
        ∃ s, r.scatter m chunk = .ok s ∧ (s.gather m).pixels = chunk.pixels
  copySelected : ∀ (source : Raster) (m : Mask), r.Like source → m.WellFormed → m.size = r.size →
    r.pixels.length = source.pixels.length ∧ source.pixels.length = m.bits.length ∧
      ∀ i, (r.copySelected source m).pixels[i]? =
        if m.selects i = true then source.pixels[i]? else r.pixels[i]?
  setBand : ∀ i plane, plane.WellFormed → plane.size = r.size → i < r.channels →
    r.pixels.length = plane.values.length ∧ ∃ s, r.setBand i plane = .ok s ∧ s.band i = .ok plane

/-- On a well-formed raster with channels, operations leave out no pixel. -/
theorem WellFormed.walksAll (h : r.WellFormed) (hc : r.channels ≠ 0) : r.WalksAll where
  gather m hm hsize := by
    have hlength : r.pixels.length = m.bits.length := h.length_pixels_eq hc hm hsize
    exact ⟨hlength, length_selected (Nat.le_of_eq hlength.symm)⟩
  scatter m chunk hm hsize hchunk hchannels harea := by
    have hlength : r.pixels.length = m.bits.length := h.length_pixels_eq hc hm hsize
    have hcount : chunk.pixels.length = m.bits.count true :=
      (hchunk.length_pixels (hchannels ▸ hc)).trans harea
    refine ⟨(length_selected (Nat.le_of_eq hlength.symm)).trans hcount.symm, _,
      scatter_eq_ok.2 ⟨⟨hchannels, harea⟩, rfl⟩, ?_⟩
    exact selected_replaceSelected (Nat.le_of_eq hlength.symm) hcount
  copySelected source m hlike hm hsize := by
    have hlength : r.pixels.length = source.pixels.length := (hlike.length_pixels h).symm
    have hback : source.Like r := ⟨h, hlike.size.symm, hlike.channels.symm⟩
    exact ⟨hlength, hlength ▸ h.length_pixels_eq hc hm hsize, fun i =>
      Mapper.getElem?_copySelected hlike.wellFormed hback m i⟩
  setBand i plane hplane hsize hi := by
    obtain ⟨hwidth, hheight⟩ := Prod.mk.inj hsize
    have hlength : r.pixels.length = plane.values.length := by
      rw [h.length_pixels hc, hplane, hwidth, hheight, area]
    exact ⟨hlength, band_setBand h ⟨hsize, hplane⟩ hi⟩

end Raster

/-! ## Operations on planes and masks -/

/-- What is made of a well-formed plane is well formed. Planes combine, or are tested together, if
they have one size; then they have one length. -/
structure Plane.Keeps (p : Plane) : Prop where
  map : ∀ f, (p.map f).WellFormed
  test : ∀ f, (p.test f).WellFormed
  zipWith : ∀ f q r, q.WellFormed → p.zipWith f q = .ok r →
    r.WellFormed ∧ r.size = p.size ∧ p.values.length = q.values.length
  testWith : ∀ f q m, q.WellFormed → p.testWith f q = .ok m →
    m.WellFormed ∧ m.size = p.size ∧ p.values.length = q.values.length

/-- What is made of a well-formed mask is well formed. Masks combine, by one of the connectives or
by any other function, if they have one size; then they have one length. -/
structure Mask.Keeps (m : Mask) : Prop where
  map : ∀ f, (m.map f).WellFormed
  complement : m.complement.WellFormed
  combine : ∀ n r, n.WellFormed →
    (m.and n = .ok r ∨ m.or n = .ok r ∨ m.xor n = .ok r ∨ ∃ f, m.zipWith f n = .ok r) →
      r.WellFormed ∧ r.size = m.size ∧ m.bits.length = n.bits.length

/-- What is made of a well-formed plane is well formed. -/
theorem Plane.WellFormed.keeps {p : Plane} (h : p.WellFormed) : p.Keeps where
  map f := by
    have hmap : (Value.band (p.map f)).Laid .full := Plane.laid_map h
    exact hmap
  test f := by
    have htest : (Value.mask (p.test f)).Laid .full := Plane.laid_test h
    exact htest
  zipWith f q r hq hr := by
    have hlaid : (Value.band r).Laid .full := Plane.laid_zipWith h hq hr
    obtain ⟨hsize, rfl⟩ := Plane.zipWith_eq_ok.1 hr
    obtain ⟨hwidth, hheight⟩ := Prod.mk.inj hsize
    exact ⟨hlaid, rfl, by rw [h, hq, hwidth, hheight]⟩
  testWith f q m hq hm := by
    have hlaid : (Value.mask m).Laid .full := Plane.laid_testWith h hq hm
    obtain ⟨hsize, rfl⟩ := Plane.testWith_eq_ok.1 hm
    obtain ⟨hwidth, hheight⟩ := Prod.mk.inj hsize
    exact ⟨hlaid, rfl, by rw [h, hq, hwidth, hheight]⟩

/-- Well-formed masks of one size have one length, and combine into a well-formed mask. -/
theorem Mask.WellFormed.zipWith {m n r : Mask} {f : Bool → Bool → Bool} (h : m.WellFormed)
    (hn : n.WellFormed) (hr : m.zipWith f n = .ok r) :
    r.WellFormed ∧ r.size = m.size ∧ m.bits.length = n.bits.length := by
  have hlaid : (Value.mask r).Laid .full := Mask.laid_zipWith h hn hr
  obtain ⟨hsize, rfl⟩ := Mask.zipWith_eq_ok.1 hr
  obtain ⟨hwidth, hheight⟩ := Prod.mk.inj hsize
  exact ⟨hlaid, rfl, by rw [h, hn, hwidth, hheight]⟩

/-- What is made of a well-formed mask is well formed. -/
theorem Mask.WellFormed.keeps {m : Mask} (h : m.WellFormed) : m.Keeps where
  map f := by
    have hmap : (Value.mask (m.map f)).Laid .full := Mask.laid_map h
    exact hmap
  complement := Mask.wellFormed_complement h
  combine n r hn hr := by
    rcases hr with hr | hr | hr | ⟨f, hr⟩
    all_goals exact h.zipWith hn hr

/-! ## Operators and evaluation -/

/-- The value of an operator on well-formed planes and masks, and on anything else, is well formed
if it is a plane or a mask. -/
structure Value.Keeps (a b : Value) : Prop where
  binary : ∀ op v, Value.binary op a b = .ok v → v.Laid .full
  unary : ∀ op v, Value.unary op a = .ok v → v.Laid .full
  saturate : ∀ v, Value.saturate a = .ok v → v.Laid .full

/-- Operators on well-formed planes and masks answer well-formed ones. -/
theorem Value.Laid.keeps {a b : Value} (ha : a.Laid .full) (hb : b.Laid .full) : a.Keeps b where
  binary _ _ h := laid_binary ha hb h
  unary _ _ h := laid_unary ha h
  saturate _ h := laid_saturate ha h

/-- In an environment of well-formed planes and masks each expression, and so each part of an
expression, has a well-formed value, and assignments leave such an environment behind. -/
structure Environment.Keeps (env : Environment) : Prop where
  evaluate : ∀ (e : Expr) v, e.evaluate env = .ok v → v.Laid .full
  execute : ∀ statements final, execute statements env = .ok final → final.Laid .full

/-- Expressions and assignments over well-formed planes and masks make well-formed ones. -/
theorem Environment.Laid.keeps {env : Environment} (h : env.Laid .full) : env.Keeps where
  evaluate _ _ hv := Expr.laid_of_evaluate h hv
  execute _ _ hfinal := laid_of_execute h hfinal

/-- Narrowing a well-formed mask by tests of bands makes a well-formed mask. -/
theorem Bands.wellFormed_narrow {b : Bands} (hb : b.raster.WellFormed) {value : MaskValue}
    {names : List String} {place : Nat} {m r : Mask} (hm : m.WellFormed)
    (h : b.narrow value place names m = .ok r) : r.WellFormed := by
  induction names generalizing place m with
  | nil =>
    cases h
    exact hm
  | cons name rest ih =>
    obtain ⟨plane, hplane, h⟩ := bind_eq_ok.1 h
    obtain ⟨both, hboth, h⟩ := bind_eq_ok.1 h
    have hband : plane.WellFormed := (laid_band hb hplane).2
    exact ih (hm.zipWith (hband.keeps.test _) hboth).1 h

/-- The bands of a raster are well-formed planes, and tests of them make well-formed masks. Over
well-formed variables they become an environment of well-formed planes, and what is written back
into them keeps the shape of the raster. -/
structure Bands.Keeps (b : Bands) : Prop where
  band : ∀ name plane, b.band name = .ok plane → plane.WellFormed
  mask : ∀ names value m, b.mask names value = .ok m → m.WellFormed
  environment : ∀ globals env, globals.Laid .full → b.environment globals = .ok env →
    env.Laid .full
  writeBack : ∀ env c, b.writeBack env = .ok c → b.raster.Like c.raster

/-- What is made of the bands of a well-formed raster is well formed. -/
theorem Bands.keeps {b : Bands} (h : b.raster.WellFormed) : b.Keeps where
  band _ _ hband := (laid_band h hband).2
  mask names value m hm := by
    unfold Bands.mask at hm
    split at hm
    · cases hm
    · obtain ⟨_, -, hm⟩ := bind_eq_ok.1 hm
      exact wellFormed_narrow h (Mask.wellFormed_filled _ _ _) hm
  environment _ _ hglobals henv :=
    laid_environment (fun _ _ hband => (laid_band h hband).full) hglobals henv
  writeBack _ _ hc := (like_writeBack h hc).raster

/-! ## Runs -/

namespace Mapper

variable {entries : List Entry} {c : Context} {image output out : Raster} {caching : Bool}
  {part : Mask × Entry} {parts : List (Mask × Entry)} {remaining rest : Mask}

/-- All representations that maskers have asked for are well formed. -/
theorem all_contextAfter (he : ∀ e ∈ entries, e.WellFormed) (hc : c.All Raster.WellFormed) :
    (contextAfter entries c).All Raster.WellFormed := by
  induction entries generalizing c with
  | nil => exact hc
  | cons e entries ih =>
    have hspace : e.masker.space.WellFormed := (he e List.mem_cons_self).masker.space
    obtain ⟨-, hnext, -⟩ := hc.request e.masker.space (hspace.encode _ hc.image)
    exact ih (fun d hd => he d (List.mem_cons_of_mem _ hd)) hnext

/-- Sharing out the pixels of a well-formed mask makes well-formed masks of its size. -/
theorem wellFormed_of_partition (he : ∀ e ∈ entries, e.WellFormed) (hc : c.All Raster.WellFormed)
    (hremaining : remaining.WellFormed) (h : partition entries c remaining = .ok (parts, rest)) :
    (rest.WellFormed ∧ rest.size = remaining.size) ∧
      ∀ part ∈ parts, part.1.WellFormed ∧ part.1.size = remaining.size := by
  induction entries generalizing c remaining parts with
  | nil =>
    cases h
    exact ⟨⟨hremaining, rfl⟩, fun part hpart => by cases hpart⟩
  | cons e entries ih =>
    obtain ⟨m, hm, matched, hmatched, left, hleft, more, hmore, rfl⟩ := partition_cons_eq_ok.1 h
    have hfirst : e.WellFormed := he e List.mem_cons_self
    obtain ⟨hr, hnext, -⟩ := hc.request e.masker.space (hfirst.masker.space.encode _ hc.image)
    have hmask : m.WellFormed := hfirst.masker.maskOf hr hm
    obtain ⟨hmatchedWf, hmatchedSize, -⟩ := hremaining.zipWith hmask hmatched
    obtain ⟨hleftWf, hleftSize, -⟩ :=
      hremaining.zipWith (Mask.wellFormed_complement hmatchedWf) hleft
    obtain ⟨⟨hrest, hrestSize⟩, hparts⟩ :=
      ih (fun d hd => he d (List.mem_cons_of_mem _ hd)) hnext hleftWf hmore
    refine ⟨⟨hrest, hrestSize.trans hleftSize⟩, fun part hpart => ?_⟩
    rcases List.mem_cons.1 hpart with rfl | hpart
    · exact ⟨hmatchedWf, hmatchedSize⟩
    · obtain ⟨hwf, hsize⟩ := hparts part hpart
      exact ⟨hwf, hsize.trans hleftSize⟩

/-- One action after another answers well-formed chunks. -/
theorem wellFormed_of_foldlM_run {actions : List Action} {chunk next : Raster}
    (ha : ∀ a ∈ actions, a.WellFormed) (hchunk : chunk.WellFormed)
    (h : actions.foldlM (fun chunk a => a.run chunk) chunk = .ok next) : next.WellFormed := by
  induction actions generalizing chunk with
  | nil =>
    cases h
    exact hchunk
  | cons a rest ih =>
    obtain ⟨first, hfirst, hrest⟩ := bind_eq_ok.1 h
    have hfirstWf : first.WellFormed := (ha a List.mem_cons_self).run hchunk hfirst
    exact ih (fun b hb => ha b (List.mem_cons_of_mem _ hb)) hfirstWf hrest

/-- Writing the pixels of one entry keeps the shape of the image. -/
theorem like_of_recolour (himage : image.WellFormed) (houtput : image.Like output)
    (he : part.2.WellFormed) (h : recolour image output part = .ok out) : image.Like out := by
  have hcopied : output.Like (output.copySelected image part.1) :=
    .copySelected houtput.wellFormed himage houtput.channels.symm part.1
  rcases recolour_eq_ok.1 h with ⟨-, rfl⟩ | ⟨-, -, chunk, hchunk, hscatter⟩
  · exact houtput.trans hcopied
  · have hchunkWf : chunk.WellFormed := he.apply (hcopied.wellFormed.gather_any part.1) hchunk
    exact (houtput.trans hcopied).trans (.scatter hcopied.wellFormed hchunkWf hscatter)

/-- Writing the pixels of one entry after another keeps the shape of the image. -/
theorem like_of_foldlM_recolour (himage : image.WellFormed) (houtput : image.Like output)
    (he : ∀ part ∈ parts, part.2.WellFormed)
    (h : parts.foldlM (recolour image) output = .ok out) : image.Like out := by
  induction parts generalizing output with
  | nil =>
    cases h
    exact houtput
  | cons part rest ih =>
    obtain ⟨next, hnext, hrest⟩ := bind_eq_ok.1 h
    have hlike : image.Like next :=
      like_of_recolour himage houtput (he part List.mem_cons_self) hnext
    exact ih hlike (fun p hp => he p (List.mem_cons_of_mem _ hp)) hrest

end Mapper

/-- A script among the actions of an entry sees well-formed planes and masks in its global
variables. -/
def Mapper.SeesFull (m : Mapper) : Prop :=
  ∀ e ∈ m.entries, ∀ a ∈ e.actions, ∀ statements globals,
    a.transform = .compiled statements globals → globals.Laid .full

/-- The masks that the pixels of an image are shared out by, when the first entries had their turn,
and the pixels that are left. -/
def Mapper.shares (m : Mapper) (image : Raster) (caching : Bool) (turns : Nat) :
    Except Fault (List (Mask × Entry) × Mask) :=
  partition (m.entries.take turns) (.start image caching) (.filled image.width image.height true)

/-- The image as far as it is written, when the first parts had their turn. -/
def Mapper.written (image : Raster) (parts : List (Mask × Entry)) (turns : Nat) :
    Except Fault Raster :=
  (parts.take turns).foldlM (recolour image) (.zero image.width image.height image.channels)

/-- What an action works on: the chunk in its space is well formed, so is what the transform makes
of it and what this is decoded to, and a script sees well-formed planes and masks. -/
structure Action.Keeps (a : Action) (chunk : Raster) : Prop where
  encoded : (a.space.encode chunk).WellFormed
  changed : ∀ r, a.transform.apply ⟨a.space, a.space.encode chunk⟩ = .ok r →
    r.WellFormed ∧ (a.space.decode r).WellFormed
  scope : ∀ statements globals env, a.transform = .compiled statements globals →
    Bands.environment ⟨a.space, a.space.encode chunk⟩ globals = .ok env → env.Laid .full

/-- What a well-formed action makes of a well-formed chunk is well formed. -/
theorem Action.WellFormed.keeps {a : Action} {chunk : Raster} (ha : a.WellFormed)
    (hfull : ∀ statements globals, a.transform = .compiled statements globals →
      globals.Laid .full) (hchunk : chunk.WellFormed) : a.Keeps chunk where
  encoded := ha.space.encode _ hchunk
  changed r hr := by
    have hwf : r.WellFormed := ha.transform.apply (ha.space.encode _ hchunk) hr
    exact ⟨hwf, ha.space.decode _ hwf⟩
  scope statements globals env htransform henv :=
    (Bands.keeps (ha.space.encode _ hchunk)).environment globals env
      (hfull statements globals htransform) henv

/-- Whenever an entry has its turn in a run, all buffers are well formed: the representation that
its masker asks for, the scope of a script and the mask of the masker, the masks that the pixels are
shared out by until then, the image as far as it is written, the chunk of the pixels of the entry,
and what its actions make of it one after another. What a run answers has the shape of the image.
Masks and images that meet have one length, unless there are no channels. -/
structure Mapper.Keeps (m : Mapper) (image : Raster) (caching : Bool) : Prop where
  representation : ∀ k e, m.entries[k]? = some e →
    ((contextAfter (m.entries.take k) (.start image caching)).request e.masker.space).1.WellFormed
  scope : ∀ k e expr globals env, m.entries[k]? = some e →
    e.masker.predicate = .compiled expr globals →
      Bands.environment ⟨e.masker.space, ((contextAfter (m.entries.take k)
        (.start image caching)).request e.masker.space).1⟩ globals = .ok env → env.Laid .full
  mask : ∀ mask, .ok mask ∈ answers m.entries (.start image caching) → mask.WellFormed
  shared : ∀ turns parts rest, m.shares image caching turns = .ok (parts, rest) →
    (rest.WellFormed ∧ rest.size = image.size) ∧
      ∀ part ∈ parts, part.1.WellFormed ∧ part.1.size = image.size
  output : ∀ turns parts rest, m.shares image caching turns = .ok (parts, rest) →
    ∀ k output, written image parts k = .ok output → image.Like output
  chunk : ∀ turns parts rest, m.shares image caching turns = .ok (parts, rest) →
    ∀ k output part, written image parts k = .ok output → parts[k]? = some part →
      image.Like (output.copySelected image part.1) ∧
        ∀ j chunk, (part.2.actions.take j).foldlM (fun chunk a => a.run chunk)
            ((output.copySelected image part.1).gather part.1) = .ok chunk →
          chunk.WellFormed ∧ ∀ a, part.2.actions[j]? = some a → a.Keeps chunk
  walks : image.channels ≠ 0 → ∀ turns parts rest,
    m.shares image caching turns = .ok (parts, rest) →
      rest.bits.length = image.pixels.length ∧
        ∀ part ∈ parts, part.1.bits.length = image.pixels.length ∧
          ∀ k output, written image parts k = .ok output →
            output.pixels.length = image.pixels.length
  run : ∀ out, m.run image caching = .ok out → image.Like out

namespace Mapper

variable {m : Mapper} {image : Raster} {caching : Bool} {parts : List (Mask × Entry)} {rest : Mask}

/-- The masks that pixels are shared out by, and that of the pixels left, have the size of the
image. -/
theorem wellFormed_of_shares (hm : m.WellFormed) (himage : image.WellFormed) {turns : Nat}
    (h : m.shares image caching turns = .ok (parts, rest)) :
    (rest.WellFormed ∧ rest.size = image.size) ∧
      ∀ part ∈ parts, part.1.WellFormed ∧ part.1.size = image.size :=
  wellFormed_of_partition (fun e he => hm e (List.mem_of_mem_take he)) (.start himage)
    (Mask.wellFormed_filled _ _ _) h

/-- Each share belongs to an entry of the mapper. -/
theorem mem_entries_of_shares {turns : Nat} (h : m.shares image caching turns = .ok (parts, rest)) :
    ∀ part ∈ parts, part.2 ∈ m.entries := by
  intro part hpart
  exact List.mem_of_mem_take (mem_of_partition h part hpart)

/-- The image that is written keeps the shape of the original, however many parts had their turn. -/
theorem like_of_written (hm : m.WellFormed) (himage : image.WellFormed) {turns k : Nat}
    (h : m.shares image caching turns = .ok (parts, rest)) {output : Raster}
    (houtput : written image parts k = .ok output) : image.Like output := by
  have he : ∀ part ∈ parts.take k, part.2.WellFormed := fun part hpart =>
    hm part.2 (mem_entries_of_shares h part (List.mem_of_mem_take hpart))
  exact like_of_foldlM_recolour himage (like_zero image) he houtput

/-- The representation of an image that a masker asks for is well formed, whatever those before it
have asked for. -/
theorem wellFormed_representation (hm : m.WellFormed) (himage : image.WellFormed) {k : Nat}
    {e : Entry} (he : e ∈ m.entries) :
    ((contextAfter (m.entries.take k) (.start image caching)).request
      e.masker.space).1.WellFormed := by
  have hearlier : ∀ d ∈ m.entries.take k, d.WellFormed := fun d hd =>
    hm d (List.mem_of_mem_take hd)
  have hall : (contextAfter (m.entries.take k) (.start image caching)).All Raster.WellFormed :=
    all_contextAfter hearlier (.start himage)
  exact (hall.request e.masker.space ((hm e he).masker.space.encode _ hall.image)).1

/-- Masks and images that meet in a run have one length. -/
theorem length_of_shares (hm : m.WellFormed) (himage : image.WellFormed) (hc : image.channels ≠ 0)
    {turns : Nat} (h : m.shares image caching turns = .ok (parts, rest)) :
    rest.bits.length = image.pixels.length ∧
      ∀ part ∈ parts, part.1.bits.length = image.pixels.length := by
  obtain ⟨⟨hrest, hsize⟩, hparts⟩ := wellFormed_of_shares hm himage h
  refine ⟨(himage.length_pixels_eq hc hrest hsize).symm, fun part hpart => ?_⟩
  obtain ⟨hpartWf, hpartSize⟩ := hparts part hpart
  exact (himage.length_pixels_eq hc hpartWf hpartSize).symm

/-- A run that succeeds writes the shares of all entries, and copies the pixels that are left. -/
theorem exists_written_of_run {out : Raster} (h : m.run image caching = .ok out) :
    ∃ parts rest output, m.shares image caching m.entries.length = .ok (parts, rest) ∧
      written image parts parts.length = .ok output ∧ out = output.copySelected image rest := by
  have hmappable : image.channels = 3 ∨ image.channels = 4 := by
    obtain ⟨_, hrequire, -⟩ := bind_eq_ok.1 h
    unfold requireMappable at hrequire
    split at hrequire
    · assumption
    · cases hrequire
  obtain ⟨parts, rest, hshared, output, houtput, hout⟩ := (run_eq_ok hmappable).1 h
  refine ⟨parts, rest, output, ?_, ?_, hout⟩
  · rwa [shares, List.take_length, ← Mask.without_nil (.filled image.width image.height true)]
  · rwa [written, List.take_length]

/-- A mapper whose functions answer well-formed masks and rasters, and whose scripts see well-formed
planes and masks, keeps all buffers of a run well formed. -/
theorem WellFormed.keeps (hm : m.WellFormed) (hfull : m.SeesFull) (himage : image.WellFormed) :
    m.Keeps image caching where
  representation k e he := wellFormed_representation hm himage (List.mem_of_getElem? he)
  scope k e expr globals env he hpredicate henv := by
    have hmem : e ∈ m.entries := List.mem_of_getElem? he
    have hglobals : (Predicate.compiled expr globals).WellFormed :=
      hpredicate ▸ (hm e hmem).masker.predicate
    exact (Bands.keeps (wellFormed_representation hm himage hmem)).environment _ _ hglobals henv
  mask mask hmask := wellFormed_of_mem_answers hm (.start himage) hmask
  shared turns parts rest h := wellFormed_of_shares hm himage h
  output turns parts rest h k output houtput := like_of_written hm himage h houtput
  chunk turns parts rest h k output part houtput hpart := by
    have hlike : image.Like output := like_of_written hm himage h houtput
    have hcopied : image.Like (output.copySelected image part.1) :=
      hlike.trans (.copySelected hlike.wellFormed himage hlike.channels.symm part.1)
    have hmem : part.2 ∈ m.entries := mem_entries_of_shares h part (List.mem_of_getElem? hpart)
    have hactions : ∀ a ∈ part.2.actions, a.WellFormed := (hm part.2 hmem).actions
    refine ⟨hcopied, fun j chunk hchunk => ?_⟩
    have hchunkWf : chunk.WellFormed :=
      wellFormed_of_foldlM_run (fun a ha => hactions a (List.mem_of_mem_take ha))
        (hcopied.wellFormed.gather_any part.1) hchunk
    refine ⟨hchunkWf, fun a ha => ?_⟩
    have ha : a ∈ part.2.actions := List.mem_of_getElem? ha
    exact (hactions a ha).keeps (hfull part.2 hmem a ha) hchunkWf
  walks hc turns parts rest h := by
    obtain ⟨hrest, hparts⟩ := length_of_shares hm himage hc h
    refine ⟨hrest, fun part hpart => ⟨hparts part hpart, fun k output houtput => ?_⟩⟩
    exact (like_of_written hm himage h houtput).length_pixels himage
  run out hout := by
    obtain ⟨parts, rest, output, hshared, houtput, rfl⟩ := exists_written_of_run hout
    have hlike : image.Like output := like_of_written hm himage hshared houtput
    exact hlike.trans (.copySelected hlike.wellFormed himage hlike.channels.symm rest)

end Mapper

/-! ## All buffers -/

/-- Buffers stay well formed. Numbers that fill a raster make a well-formed one, and all of these
are made so. What operations make of well-formed rasters, planes, masks and values is well formed,
and on buffers of one size they walk along whole lists if there are channels. Expressions and
assignments over well-formed variables have and bind well-formed values, and the bands of a raster
are such variables. At each stage of a run of well-formed rules, whether it succeeds or fails
later, all buffers are well formed, and the answer has the shape of the image. -/
theorem buffers_wellFormed :
    (∀ width height channels data r, Raster.ofData width height channels data = .ok r →
      r.WellFormed ∧ r.data = data) ∧
    (∀ r : Raster, r.WellFormed → Raster.ofData r.width r.height r.channels r.data = .ok r ∧
      r.Keeps ∧ (r.channels ≠ 0 → r.WalksAll)) ∧
    (∀ p : Plane, p.WellFormed → p.Keeps) ∧
    (∀ m : Mask, m.WellFormed → m.Keeps) ∧
    (∀ a b : Value, a.Laid .full → b.Laid .full → a.Keeps b) ∧
    (∀ env : Environment, env.Laid .full → env.Keeps) ∧
    (∀ b : Bands, b.raster.WellFormed → b.Keeps) ∧
    ∀ (m : Mapper) (image : Raster) (caching : Bool), m.WellFormed → m.SeesFull →
      image.WellFormed → m.Keeps image caching := by
  refine ⟨fun _ _ _ _ _ h => Raster.wellFormed_of_ofData h, fun r h => ?_, fun _ h => h.keeps,
    fun _ h => h.keeps, fun _ _ ha hb => ha.keeps hb, fun _ h => h.keeps, fun _ h => Bands.keeps h,
    fun _ _ _ hm hfull himage => hm.keeps hfull himage⟩
  exact ⟨h.ofData_data, h.keeps, fun hc => h.walksAll hc⟩

/-- The standard spaces convert well-formed rasters to well-formed rasters. -/
theorem ColorSpace.wellFormed_of_mem_standard {space : ColorSpace} (h : space ∈ standard) :
    space.WellFormed :=
  (pixelwise_of_mem_standard h).keepsShape.wellFormed

/-- Scaling the bands is a well-formed action. -/
theorem Action.wellFormed_scale (factors : List Number) : (scale factors).WellFormed := by
  refine ⟨fun b r hb h => ?_, ColorSpace.wellFormed_of_mem_standard List.mem_cons_self⟩
  cases h
  exact hb.mapPixels fun p => length_scalePixel p factors

/-- Bright reds are tested by a function and get a script as their action, and what is left goes to
a script and is scaled by a function. -/
def brightReds : Mapper where
  entries :=
    [⟨⟨.native fun b => b.mask ["r"] (.range ⟨0.5, 1, false, false⟩), .rgb⟩,
        [⟨.compiled [⟨.scalar "v", .binary (.arithmetic .mul) (.variable (.scalar "v"))
          (.variable (.scalar "s"))⟩] .empty, .hsv⟩]⟩,
      ⟨⟨.compiled (.binary (.comparison .lt) (.variable (.scalar "g")) (.number 0.5)) .empty, .rgb⟩,
        [.scale [0.5, 1, 1]]⟩]

/-- A raster without channels and a mask of another size, and a run of functions and scripts on an
image of three pixels. -/
theorem buffers_wellFormed_brightReds :
    ((⟨3, 2, 0, []⟩ : Raster).WellFormed ∧
      ((⟨3, 2, 0, []⟩ : Raster).gather ⟨5, 1, [true, true, false, false, true]⟩).WellFormed) ∧
    brightReds.WellFormed ∧ brightReds.SeesFull ∧
      (⟨3, 1, 3, [[0.75, 0, 0.25], [0, 0.25, 1], [0, 1, 0]]⟩ : Raster).WellFormed ∧
      ∃ out, brightReds.run ⟨3, 1, 3, [[0.75, 0, 0.25], [0, 0.25, 1], [0, 1, 0]]⟩ true = .ok out ∧
        Raster.Like ⟨3, 1, 3, [[0.75, 0, 0.25], [0, 0.25, 1], [0, 1, 0]]⟩ out := by
  have hempty : (⟨3, 2, 0, []⟩ : Raster).WellFormed := by simp [Raster.WellFormed]
  have hrgb : ColorSpace.rgb.WellFormed :=
    ColorSpace.wellFormed_of_mem_standard List.mem_cons_self
  have hhsv : ColorSpace.hsv.WellFormed :=
    ColorSpace.wellFormed_of_mem_standard (List.mem_cons_of_mem _ List.mem_cons_self)
  have hm : brightReds.WellFormed := by
    intro e he
    simp only [brightReds, List.mem_cons, List.not_mem_nil, or_false] at he
    rcases he with rfl | rfl
    · refine ⟨⟨fun b m hb h => (Bands.keeps hb).mask _ _ _ h, hrgb⟩, fun a ha => ?_⟩
      obtain rfl := List.mem_singleton.1 ha
      exact ⟨trivial, hhsv⟩
    · refine ⟨⟨Environment.laid_empty, hrgb⟩, fun a ha => ?_⟩
      obtain rfl := List.mem_singleton.1 ha
      exact Action.wellFormed_scale _
  have hfull : brightReds.SeesFull := by
    intro e he a ha statements globals htransform
    simp only [brightReds, List.mem_cons, List.not_mem_nil, or_false] at he
    rcases he with rfl | rfl
    · obtain rfl := List.mem_singleton.1 ha
      cases htransform
      exact Environment.laid_empty
    · obtain rfl := List.mem_singleton.1 ha
      cases htransform
  have himage : (⟨3, 1, 3, [[0.75, 0, 0.25], [0, 0.25, 1], [0, 1, 0]]⟩ : Raster).WellFormed := by
    simp [Raster.WellFormed]
  have hok : (brightReds.run ⟨3, 1, 3, [[0.75, 0, 0.25], [0, 0.25, 1], [0, 1, 0]]⟩ true).isOk =
      true := by decide +kernel
  obtain ⟨out, hout⟩ := exists_of_isOk hok
  obtain ⟨-, hraster, -, -, -, -, -, hrun⟩ := buffers_wellFormed
  obtain ⟨-, hkeeps, -⟩ := hraster _ hempty
  exact ⟨⟨hempty, hkeeps.gather _⟩, hm, hfull, himage, out, hout,
    (hrun brightReds _ true hm hfull himage).run out hout⟩

end Recolor
