import Recolor.Proofs.Checked
import Recolor.Proofs.FirstMatch
import Recolor.Proofs.PixelLocality

/-!
# Blocks leave the bands alone that they do not assign

All bands of an image are variables of a block, and all that is left in these variables is written
back. A band whose variable no statement assigns still comes out as it went in: the variable holds
the band until it is taken out (`take_of_execute`), and a band that is written back as it was read
changes nothing (`Raster.setBand_band`). Storing the variables thus keeps a band if its variable, as
long as it holds anything, holds the band (`Bands.band_storeAll`).

No name but that of alpha stands for the alpha band, in any colour space. So scripts that never
assign `$alpha` in a block keep the alpha values of images (`CompiledScript.frame_run`), over all
spaces whose conversions do.
-/

set_option autoImplicit false

namespace Recolor

/-- Some statement assigns `$name`. -/
def Assigns (statements : List Assignment) (name : String) : Prop :=
  ∃ a ∈ statements, a.target = .scalar name

/-- Whether statements assign a variable is seen from their targets. -/
instance (statements : List Assignment) (name : String) : Decidable (Assigns statements name) :=
  inferInstanceAs (Decidable (∃ a ∈ statements, a.target = .scalar name))

/-- Some block of a rule assigns `$name`. -/
def Program.AssignsInBlock (p : Program) (name : String) : Prop :=
  ∃ r ∈ p.rules, ∃ block ∈ r.blocks, Assigns block.statements name

/-- Whether a program assigns a variable in a block is seen from its rules. -/
instance (p : Program) (name : String) : Decidable (p.AssignsInBlock name) :=
  inferInstanceAs (Decidable (∃ r ∈ p.rules, ∃ block ∈ r.blocks, Assigns block.statements name))

/-! ## Variables of a scope -/

section Scope

variable {env next final : Environment} {name : String}

/-- What is taken out of a scope after a binding is the new value for its name, and for other names
what was there. -/
theorem Environment.take_bind (env : Environment) (name other : String) (v : Value) :
    ((env.bind name v).take other).1 = if other = name then some v else (env.take other).1 := by
  simp only [take, bind, Bindings.get?_insert]

/-- What has been taken out of a scope is gone, and other variables are still there. -/
theorem Environment.take_take (env : Environment) (name other : String) :
    ((env.take name).2.take other).1 = if other = name then none else (env.take other).1 := by
  simp only [take, Bindings.get?_erase]

/-- An assignment to another variable leaves what can be taken out under a name. -/
theorem Assignment.take_of_run {a : Assignment} (hname : a.target ≠ .scalar name)
    (h : a.run env = .ok next) : (next.take name).1 = (env.take name).1 := by
  rcases cases_of_run h with ⟨other, items, -, -, rfl⟩ | ⟨other, v, htarget, -, -, rfl⟩
  · rfl
  · have hne : name ≠ other := by
      intro heq
      exact hname (heq ▸ htarget)
    rw [Environment.take_bind, if_neg hne]

/-- Assignments change no variable of their scope but those that they assign. -/
theorem take_of_execute {statements : List Assignment} (hname : ¬Assigns statements name)
    (h : execute statements env = .ok final) : (final.take name).1 = (env.take name).1 := by
  induction statements generalizing env with
  | nil =>
    cases h
    rfl
  | cons a rest ih =>
    obtain ⟨next, hnext, hrest⟩ := bind_eq_ok.1 h
    have hfirst : a.target ≠ .scalar name := fun ha => hname ⟨a, List.mem_cons_self, ha⟩
    have hlater : ¬Assigns rest name := by
      rintro ⟨b, hb, htarget⟩
      exact hname ⟨b, List.mem_cons_of_mem a hb, htarget⟩
    exact (ih hlater hrest).trans (Assignment.take_of_run hfirst hnext)

end Scope

/-! ## Names of bands -/

namespace ColorSpace

variable {s : ColorSpace} {i : Nat}

/-- No statement assigns the variable of a band, if the band has one. -/
def Unassigned (s : ColorSpace) (i : Nat) (statements : List Assignment) : Prop :=
  ∀ name, s.bandIndex? name = some i → ¬Assigns statements name

/-- A space has names for three bands. -/
@[simp] theorem length_bandNames (s : ColorSpace) : s.bandNames.length = alphaBand := by
  simp [bandNames, alphaBand]

/-- A name found among those of the three bands is that of a band before alpha. -/
theorem lt_of_findIdx?_bandNames {name : String} (h : s.bandNames.findIdx? (· == name) = some i) :
    i < alphaBand ∧ s.bandNames[i]? = some name := by
  obtain ⟨hi, hname, -⟩ := List.findIdx?_eq_some_iff_getElem.1 h
  refine ⟨s.length_bandNames ▸ hi, ?_⟩
  rw [List.getElem?_eq_getElem hi, beq_iff_eq.1 hname]

/-- If all names differ and none is that of alpha, each stands for the band at its place. -/
theorem bandIndex?_getElem (hnodup : s.bandNames.Nodup) (halpha : alphaName ∉ s.bandNames)
    (hi : i < s.bandNames.length) : s.bandIndex? s.bandNames[i] = some i := by
  have hne : s.bandNames[i] ≠ alphaName := fun h => halpha (h ▸ List.getElem_mem hi)
  rw [bandIndex?, if_neg hne]
  refine List.findIdx?_eq_some_iff_getElem.2 ⟨hi, beq_self_eq_true _, fun j hj => ?_⟩
  have hother : s.bandNames[j] ≠ s.bandNames[i] :=
    List.pairwise_iff_getElem.1 hnodup j i (Nat.lt_trans hj hi) hi hj
  simpa using hother

/-- A band has at most one name. -/
theorem eq_of_bandIndex? {name other : String} (hname : s.bandIndex? name = some i)
    (hother : s.bandIndex? other = some i) : name = other := by
  unfold bandIndex? at hname hother
  by_cases hn : name = alphaName
  · by_cases ho : other = alphaName
    · rw [hn, ho]
    · -- the components come before alpha
      rw [if_pos hn, Option.some.injEq] at hname
      rw [if_neg ho] at hother
      have hi := (lt_of_findIdx?_bandNames hother).1
      omega
  · rw [if_neg hn] at hname
    have hi := lt_of_findIdx?_bandNames hname
    by_cases ho : other = alphaName
    · rw [if_pos ho, Option.some.injEq] at hother
      have hlt := hi.1
      omega
    · rw [if_neg ho] at hother
      exact Option.some.inj (hi.2.symm.trans (lt_of_findIdx?_bandNames hother).2)

/-- A band is left unassigned exactly if the one name that it has is not assigned. -/
theorem unassigned_iff {name : String} {statements : List Assignment}
    (hname : s.bandIndex? name = some i) :
    s.Unassigned i statements ↔ ¬Assigns statements name := by
  constructor
  · intro h
    exact h name hname
  · intro h other hother
    rwa [eq_of_bandIndex? hother hname]

/-- The band of alpha is left unassigned exactly if the variable of alpha is, in every space. -/
theorem unassigned_alpha {statements : List Assignment} :
    s.Unassigned alphaBand statements ↔ ¬Assigns statements alphaName :=
  unassigned_iff (if_pos rfl)

end ColorSpace

/-! ## Bands as variables -/

namespace Bands

variable {b c : Bands} {env final globals : Environment} {i : Nat}

/-- The variable of the band, if the band has one, holds nothing else than the band. -/
def Shows (b : Bands) (i : Nat) (env : Environment) : Prop :=
  ∀ name, b.index name = .ok i → ∀ v ∈ (env.take name).1,
    ∃ plane, v = .band plane ∧ b.raster.band i = .ok plane

/-- The place of a band is that which the space has for its name. -/
theorem index_eq_ok {name : String} : b.index name = .ok i ↔ b.space.bandIndex? name = some i := by
  unfold index
  split <;> simp_all

/-- Whether variables show a band depends only on what can be taken out under the name of that band.
-/
theorem Shows.of_take (h : b.Shows i env)
    (htake : ∀ name, b.index name = .ok i → (final.take name).1 = (env.take name).1) :
    b.Shows i final := by
  intro name hname v hv
  rw [htake name hname] at hv
  exact h name hname v hv

/-- Binding bands lets variables go on showing a band. -/
theorem shows_bindAll {names : List String} (henv : b.Shows i env)
    (h : b.bindAll names env = .ok final) : b.Shows i final := by
  induction names generalizing env with
  | nil =>
    cases h
    exact henv
  | cons name rest ih =>
    obtain ⟨plane, hplane, hrest⟩ := bind_eq_ok.1 h
    refine ih ?_ hrest
    intro other hother v hv
    rw [Environment.take_bind] at hv
    by_cases heq : other = name
    · rw [if_pos heq] at hv
      obtain ⟨j, hj, hband⟩ := band_eq_ok.1 hplane
      -- one name stands for one band
      have hij : i = j := by
        rw [heq, hj] at hother
        exact (Except.ok.inj hother).symm
      exact ⟨plane, (Option.some.inj hv).symm, hij ▸ hband⟩
    · rw [if_neg heq] at hv
      exact henv other hother v hv

/-- At the start of a transform the variables show each band. -/
theorem shows_environment (h : b.environment globals = .ok env) : b.Shows i env := by
  have hchild : b.Shows i globals.child := by
    intro name _ v hv
    cases hv
  exact shows_bindAll hchild h

/-- Storing what a variable holds keeps a band, unless it is another value than the band that the
variable stands for. -/
theorem band_store {name : String} {value? : Option Value}
    (hvalue : b.index name = .ok i → ∀ v ∈ value?,
      ∃ plane, v = .band plane ∧ b.raster.band i = .ok plane)
    (h : b.store name value? = .ok c) :
    c.space = b.space ∧ c.raster.band i = b.raster.band i := by
  unfold store at h
  split at h
  next plane =>
    obtain ⟨j, hj, r, hr, rfl⟩ := setBand_eq_ok.1 h
    refine ⟨rfl, ?_⟩
    by_cases hji : j = i
    · subst hji
      obtain ⟨plane', heq, hband⟩ := hvalue hj _ rfl
      cases heq
      rw [Raster.setBand_band hband] at hr
      rw [← Except.ok.inj hr]
    · exact Raster.band_setBand_of_ne hji hr
  next x =>
    obtain ⟨j, hj, r, hr, rfl⟩ := fillBand_eq_ok.1 h
    refine ⟨rfl, ?_⟩
    by_cases hji : j = i
    · subst hji
      obtain ⟨plane, heq, -⟩ := hvalue hj _ rfl
      cases heq
    · exact Raster.band_fillBand_of_ne hji hr
  next => cases h
  next =>
    cases h
    exact ⟨rfl, rfl⟩

/-- Storing variables that show a band leaves that band as it is. -/
theorem band_storeAll {names : List String} (henv : b.Shows i env)
    (h : storeAll names b env = .ok (c, final)) : c.raster.band i = b.raster.band i := by
  induction names generalizing b env with
  | nil =>
    cases h
    rfl
  | cons name rest ih =>
    obtain ⟨next, hnext, hrest⟩ := bind_eq_ok.1 h
    obtain ⟨hspace, hband⟩ := band_store (henv name) hnext
    have hindex : ∀ other, next.index other = .ok i ↔ b.index other = .ok i := by
      intro other
      rw [index_eq_ok, index_eq_ok, hspace]
    -- the variables that are left show the band of the image that is left
    have hshows : next.Shows i (env.take name).2 := by
      intro other hother v hv
      rw [Environment.take_take] at hv
      by_cases heq : other = name
      · rw [if_pos heq] at hv
        cases hv
      · rw [if_neg heq] at hv
        rw [hband]
        exact henv other ((hindex other).1 hother) v hv
    exact (ih hshows hrest).trans hband

/-- Writing back variables that show a band leaves that band as it is. -/
theorem band_writeBack (henv : b.Shows i env) (h : b.writeBack env = .ok c) :
    c.raster.band i = b.raster.band i := by
  obtain ⟨final, hstore, -⟩ := writeBack_eq_ok.1 h
  exact band_storeAll henv hstore

end Bands

/-- A transform of statements leaves a band alone that they do not assign. -/
theorem Transform.band_apply {statements : List Assignment} {globals : Environment} {b : Bands}
    {r : Raster} {i : Nat} (hi : b.space.Unassigned i statements)
    (h : (Transform.compiled statements globals).apply b = .ok r) :
    r.band i = b.raster.band i := by
  obtain ⟨env, henv, h⟩ := bind_eq_ok.1 h
  obtain ⟨final, hfinal, h⟩ := bind_eq_ok.1 h
  obtain ⟨c, hc, h⟩ := bind_eq_ok.1 h
  cases h
  have hshows : b.Shows i env := Bands.shows_environment henv
  refine Bands.band_writeBack (hshows.of_take ?_) hc
  intro name hname
  have hassigns : ¬Assigns statements name := hi name (Bands.index_eq_ok.1 hname)
  exact take_of_execute hassigns hfinal

/-! ## Alpha -/

namespace Raster

variable {r s : Raster} {k : Nat}

/-- Images that agree in a band have that band. -/
theorem channels_of_band_eq (hk : k < r.channels) (h : s.band k = r.band k) : k < s.channels := by
  have hr : r.band k = .ok ⟨r.width, r.height, r.pixels.map (·.getD k 0)⟩ :=
    band_eq_ok.2 ⟨hk, rfl⟩
  exact (band_eq_ok.1 (h.trans hr)).1

/-- Images that agree in a band have the same numbers there, pixel by pixel. -/
theorem map_getD_of_band_eq (hk : k < r.channels) (h : s.band k = r.band k) :
    s.pixels.map (·.getD k 0) = r.pixels.map (·.getD k 0) := by
  have hr : r.band k = .ok ⟨r.width, r.height, r.pixels.map (·.getD k 0)⟩ :=
    band_eq_ok.2 ⟨hk, rfl⟩
  have hplane := (band_eq_ok.1 (h.trans hr)).2
  exact (congrArg Plane.values hplane).symm

end Raster

/-- The conversions leave the alpha band of images that have one untouched. -/
structure ColorSpace.KeepsAlpha (s : ColorSpace) : Prop where
  encode : ∀ r : Raster, r.WellFormed → r.hasAlpha = true →
    (s.encode r).band alphaBand = r.band alphaBand
  decode : ∀ r : Raster, r.WellFormed → r.hasAlpha = true →
    (s.decode r).band alphaBand = r.band alphaBand

namespace ColorSpace

/-- Conversions of the first three numbers of pixels keep the band of alpha. -/
theorem keepsAlpha_ofConversions (key : String) (components : Vector String 3)
    (encode decode : Triple → Triple) :
    (ofConversions key components encode decode).KeepsAlpha := by
  have hconvert : ∀ (f : Triple → Triple) (p : Pixel),
      (convertPixel f p).getD alphaBand 0 = p.getD alphaBand 0 := by
    intro f p
    unfold convertPixel
    split <;> rfl
  exact ⟨fun r _ _ => Raster.band_mapPixels (hconvert encode) r,
    fun r _ _ => Raster.band_mapPixels (hconvert decode) r⟩

/-- Each standard space keeps the band of alpha. -/
theorem keepsAlpha_of_mem_standard {space : ColorSpace} (h : space ∈ standard) :
    space.KeepsAlpha := by
  simp only [standard, List.mem_cons, List.not_mem_nil, or_false] at h
  rcases h with rfl | rfl | rfl | rfl | rfl | rfl
  · exact ⟨fun _ _ _ => rfl, fun _ _ _ => rfl⟩
  all_goals exact keepsAlpha_ofConversions _ _ _ _

end ColorSpace

/-- The action runs statements that do not assign `$alpha`, in a space whose conversions leave alpha
untouched. -/
structure Action.KeepsAlpha (a : Action) : Prop where
  transform : ∃ statements globals, a.transform = .compiled statements globals ∧
    ¬Assigns statements alphaName
  wellFormed : a.space.WellFormed
  space : a.space.KeepsAlpha

variable {chunk r : Raster}

/-- An action that does not assign alpha, in a space that keeps it, leaves the band of alpha of a
chunk as it is. -/
theorem Action.KeepsAlpha.band_run {a : Action} (ha : a.KeepsAlpha) (hchunk : chunk.WellFormed)
    (halpha : chunk.hasAlpha = true) (h : a.run chunk = .ok r) :
    r.WellFormed ∧ r.band alphaBand = chunk.band alphaBand := by
  obtain ⟨statements, globals, htransform, hassigns⟩ := ha.transform
  obtain ⟨changed, hchanged, h⟩ := bind_eq_ok.1 h
  cases h
  rw [htransform] at hchanged
  have hencoded : (a.space.encode chunk).WellFormed := ha.wellFormed.encode chunk hchunk
  have hwf : changed.WellFormed := (Transform.like_apply hencoded hchanged).wellFormed
  have hband : changed.band alphaBand = chunk.band alphaBand := by
    refine (Transform.band_apply ?_ hchanged).trans (ha.space.encode chunk hchunk halpha)
    exact ColorSpace.unassigned_alpha.2 hassigns
  have hchannels : alphaBand < changed.channels :=
    Raster.channels_of_band_eq (of_decide_eq_true halpha) hband
  refine ⟨ha.wellFormed.decode changed hwf, ?_⟩
  exact (ha.space.decode changed hwf (decide_eq_true hchannels)).trans hband

/-- The actions of an entry that all keep alpha leave the band of alpha of a chunk as it is. -/
theorem Entry.band_apply {e : Entry} (he : ∀ a ∈ e.actions, a.KeepsAlpha)
    (hchunk : chunk.WellFormed) (halpha : chunk.hasAlpha = true) (h : e.apply chunk = .ok r) :
    r.band alphaBand = chunk.band alphaBand := by
  unfold Entry.apply at h
  generalize e.actions = actions at h he
  induction actions generalizing chunk with
  | nil =>
    cases h
    rfl
  | cons a rest ih =>
    obtain ⟨next, hnext, hrest⟩ := bind_eq_ok.1 h
    obtain ⟨hwf, hband⟩ := (he a List.mem_cons_self).band_run hchunk halpha hnext
    have hchannels : alphaBand < next.channels :=
      Raster.channels_of_band_eq (of_decide_eq_true halpha) hband
    have hlater := fun b hb => he b (List.mem_cons_of_mem a hb)
    exact (ih hwf (decide_eq_true hchannels) hrest hlater).trans hband

/-! ## Mapping an image -/

/-- A mapper of actions that all keep alpha leaves the band of alpha of an image as it is. -/
theorem Mapper.band_run {m : Mapper} {image out : Raster} {caching : Bool} (hm : m.WellFormed)
    (he : ∀ e ∈ m.entries, ∀ a ∈ e.actions, a.KeepsAlpha) (himage : image.WellFormed)
    (hc : image.channels = 4) (h : m.run image caching = .ok out) :
    out.band alphaBand = image.band alphaBand := by
  obtain ⟨masks, -, hfirst⟩ := firstMatch_of_run_eq_ok hm himage (.inr hc) h
  refine Raster.band_eq_band hfirst.like.size hfirst.like.channels (List.ext_getElem? fun i => ?_)
  rw [List.getElem?_map, List.getElem?_map]
  by_cases htaken : ∃ (k : Nat) (e : Entry) (mask : Mask), m.entries[k]? = some e ∧
      masks[k]? = some mask ∧ e.actions ≠ [] ∧ (mask.without (masks.take k)).selects i = true
  · -- the pixel is in the chunk of an entry, at the rank of its position
    obtain ⟨k, e, mask, hk, hmask, hactions, hi⟩ := htaken
    have hany := Mask.any_iff.2 ⟨i, hi⟩
    obtain ⟨chunk, happly, hpixels⟩ := hfirst.changed k e mask hk hmask hactions hany
    generalize mask.without (masks.take k) = share at hi happly hpixels
    have hgathered : (image.gather share).WellFormed := himage.gather (by omega) share
    have halpha : alphaBand < (image.gather share).channels := by
      show alphaBand < image.channels
      rw [hc]
      decide
    have hband := Entry.band_apply (he e (List.mem_of_getElem? hk)) hgathered
      (decide_eq_true halpha) happly
    have hvalues := Raster.map_getD_of_band_eq halpha hband
    have hbit := Mask.selects_iff.1 hi
    have hout := @getElem?_selected Pixel share.bits out.pixels i hbit
    have hin := @getElem?_selected Pixel share.bits image.pixels i hbit
    rw [← hpixels] at hvalues
    have hrank := congrArg (·[rank share.bits i]?) hvalues
    simp only [Raster.gather, List.getElem?_map, hout, hin] at hrank
    exact hrank
  · have hkept : out.pixels[i]? = image.pixels[i]? := by
      apply hfirst.kept
      intro k e mask hk hmask hactions
      cases hi : (mask.without (masks.take k)).selects i with
      | false => rfl
      | true => exact absurd ⟨k, e, mask, hk, hmask, hactions, hi⟩ htaken
    rw [hkept]

/-! ## Scripts -/

namespace CompiledScript

variable {source : String} {registry : Registry} {config : Config} {lexed : Lexed}
  {program : Program} {warnings : Diagnostics} {s : CompiledScript} {image out : Raster}

/-- What a compiled block hands to the conversion of its space has the bands of what the conversion
made for it, but for those that its statements assign. -/
theorem band_of_action_run {globals : Environment} {block : ActionBlock} {a : Action}
    (ha : action registry globals block = .ok a) (h : a.run image = .ok out) :
    ∃ changed, a.transform.apply ⟨a.space, a.space.encode image⟩ = .ok changed ∧
      out = a.space.decode changed ∧
      ∀ i, a.space.Unassigned i block.statements →
        changed.band i = (a.space.encode image).band i := by
  obtain ⟨htransform, -⟩ := of_action_eq_ok ha
  obtain ⟨changed, hchanged, h⟩ := bind_eq_ok.1 h
  cases h
  refine ⟨changed, hchanged, rfl, ?_⟩
  intro i hi
  rw [htransform] at hchanged
  exact Transform.band_apply hi hchanged

/-- The entries of a script are those of the rules of its program. -/
theorem exists_rule_of_mem_entries (hlexed : readTokens source config.strictLexing = .ok lexed)
    (hparse : Program.parse lexed.tokens = .ok (program, warnings))
    (hs : compile source registry config = .ok s) {e : Entry} (he : e ∈ s.mapper.entries) :
    ∃ r ∈ program.rules, entry registry s.globals r = .ok e := by
  rw [compile_of_parse hlexed hparse] at hs
  exact exists_of_mem_mapM (of_ofProgram_eq_ok hs).2 he

/-- A script over spaces with well-formed conversions is compiled to a well-formed mapper. -/
theorem wellFormed_of_compile_eq_ok (hspaces : ∀ space ∈ registry.spaces, space.WellFormed)
    (h : compile source registry config = .ok s) : s.mapper.WellFormed := by
  intro e he
  obtain ⟨hglobals, ⟨⟨expr, hpredicate⟩, hspace⟩, hactions⟩ := compiled_of_mem_entries h he
  refine ⟨⟨?_, hspaces _ hspace⟩, fun a ha => ?_⟩
  · rw [hpredicate]
    exact hglobals.laid .full
  · obtain ⟨⟨statements, htransform⟩, hspace⟩ := hactions a ha
    refine ⟨?_, hspaces _ hspace⟩
    rw [htransform]
    trivial

/-- A script without a block that assigns `$alpha` keeps the alpha values of images. -/
theorem alpha_run (hlexed : readTokens source config.strictLexing = .ok lexed)
    (hparse : Program.parse lexed.tokens = .ok (program, warnings))
    (hs : compile source registry config = .ok s)
    (hspaces : ∀ space ∈ registry.spaces, space.WellFormed ∧ space.KeepsAlpha)
    (halpha : ¬program.AssignsInBlock alphaName) (himage : image.WellFormed)
    (hc : image.channels = 4) :
    (∀ caching, s.run image caching = .ok out → out.band alphaBand = image.band alphaBand) ∧
      ∀ other, s.runWith image other = .ok out → out.band alphaBand = image.band alphaBand := by
  have hkeeps : ∀ e ∈ s.mapper.entries, ∀ a ∈ e.actions, a.KeepsAlpha := by
    intro e he a ha
    obtain ⟨r, hr, hentry⟩ := exists_rule_of_mem_entries hlexed hparse hs he
    obtain ⟨-, -, hactions⟩ := of_entry_eq_ok hentry
    obtain ⟨block, hblock, htransform, hspace⟩ := hactions a ha
    obtain ⟨hwf, hspace⟩ := hspaces _ (Registry.mem_of_resolve hspace)
    have hassigns : ¬Assigns block.statements alphaName := fun h => halpha ⟨r, hr, block, hblock, h⟩
    exact ⟨⟨_, _, htransform, hassigns⟩, hwf, hspace⟩
  have hm : s.mapper.WellFormed := wellFormed_of_compile_eq_ok (fun _ h => (hspaces _ h).1) hs
  constructor
  · intro caching h
    obtain ⟨_, -, h⟩ := bind_eq_ok.1 h
    exact Mapper.band_run hm hkeeps himage hc h
  · intro other h
    obtain ⟨_, -, h⟩ := bind_eq_ok.1 h
    exact Mapper.band_run hm hkeeps himage hc h

/-- Blocks change only the bands that they assign. What a compiled block hands to the conversion of
its space has all other bands, that of alpha included, as the conversion made them for it. So over
spaces whose conversions leave alpha untouched, as those of the standard spaces do, a script none of
whose blocks assigns `$alpha` keeps the alpha values of images. -/
theorem bands_unassigned :
    (∀ (registry : Registry) (globals : Environment) (block : ActionBlock) (a : Action)
      (chunk out : Raster), action registry globals block = .ok a → a.run chunk = .ok out →
        ∃ changed, a.transform.apply ⟨a.space, a.space.encode chunk⟩ = .ok changed ∧
          out = a.space.decode changed ∧
          ∀ i, a.space.Unassigned i block.statements →
            changed.band i = (a.space.encode chunk).band i) ∧
    (∀ (source : String) (registry : Registry) (config : Config) (lexed : Lexed)
      (program : Program) (warnings : Diagnostics) (s : CompiledScript) (image out : Raster),
        readTokens source config.strictLexing = .ok lexed →
        Program.parse lexed.tokens = .ok (program, warnings) →
        compile source registry config = .ok s →
        (∀ space ∈ registry.spaces, space.WellFormed ∧ space.KeepsAlpha) →
        ¬program.AssignsInBlock alphaName → image.WellFormed → image.channels = 4 →
          (∀ caching, s.run image caching = .ok out →
            out.band alphaBand = image.band alphaBand) ∧
          ∀ other, s.runWith image other = .ok out →
            out.band alphaBand = image.band alphaBand) ∧
    ∀ space ∈ ColorSpace.standard, space.WellFormed ∧ space.KeepsAlpha := by
  refine ⟨?_, ?_, ?_⟩
  · intro registry globals block a chunk out ha h
    exact band_of_action_run ha h
  · intro source registry config lexed program warnings s image out hlexed hparse hs hspaces
      halpha himage hc
    exact alpha_run hlexed hparse hs hspaces halpha himage hc
  · intro space hspace
    have hwf := (ColorSpace.pixelwise_of_mem_standard hspace).keepsShape.wellFormed
    exact ⟨hwf, ColorSpace.keepsAlpha_of_mem_standard hspace⟩

/-- A script with blocks in two spaces, which reads alpha and assigns a variable of its own. -/
def dimming : String :=
  "on hsv pixels having $v > 0.4 do $dim = $v * $alpha; $v = $dim; using rgb: $r = $b; end;"

/-- A block that assigns one band of three and of alpha, and a run on two pixels with alpha. -/
theorem bands_unassigned_dimming :
    (∃ a out changed, action .standard .empty ⟨"hsv", [⟨.scalar "v", .number 0.5⟩]⟩ = .ok a ∧
      a.run ⟨1, 1, 4, [[1, 0.5, 0, 0.25]]⟩ = .ok out ∧ out = a.space.decode changed ∧
      ∀ i ∈ [0, 1, alphaBand],
        changed.band i = (a.space.encode ⟨1, 1, 4, [[1, 0.5, 0, 0.25]]⟩).band i) ∧
    ∃ s out, compile dimming .standard = .ok s ∧
      s.run ⟨2, 1, 4, [[1, 0.5, 0, 0.25], [0, 0, 0.25, 1]]⟩ true = .ok out ∧
      out.band alphaBand = .ok ⟨2, 1, [0.25, 1]⟩ := by
  constructor
  · have hok : (action .standard .empty ⟨"hsv", [⟨.scalar "v", .number 0.5⟩]⟩ >>= fun a =>
        a.run ⟨1, 1, 4, [[1, 0.5, 0, 0.25]]⟩).isOk = true := by decide +kernel
    obtain ⟨out, hok⟩ := exists_of_isOk hok
    obtain ⟨a, ha, hout⟩ := bind_eq_ok.1 hok
    obtain ⟨changed, -, hdecode, hbands⟩ := bands_unassigned.1 _ _ _ _ _ _ ha hout
    refine ⟨a, out, changed, ha, hout, hdecode, fun i hi => hbands i ?_⟩
    have hspace : a.space = ColorSpace.hsv := by
      have hresolve : Registry.standard.resolve "hsv" = .ok ColorSpace.hsv := rfl
      exact Except.ok.inj ((of_action_eq_ok ha).2.symm.trans hresolve)
    intro name hname hassigns
    obtain ⟨b, hb, htarget⟩ := hassigns
    cases List.mem_singleton.1 hb
    cases htarget
    rw [hspace, show ColorSpace.hsv.bandIndex? "v" = some 2 from rfl] at hname
    cases hname
    simp [alphaBand] at hi
  · have hok : (readTokens dimming Config.standard.strictLexing >>= fun lexed =>
        Program.parse lexed.tokens >>= fun read =>
          if read.1.AssignsInBlock alphaName then .error (.config (.invalid ""))
          else compile dimming .standard >>= fun s =>
            s.run ⟨2, 1, 4, [[1, 0.5, 0, 0.25], [0, 0, 0.25, 1]]⟩ true).isOk = true := by
      decide +kernel
    obtain ⟨out, hok⟩ := exists_of_isOk hok
    obtain ⟨lexed, hlexed, hok⟩ := bind_eq_ok.1 hok
    obtain ⟨⟨program, warnings⟩, hparse, hok⟩ := bind_eq_ok.1 hok
    split at hok
    next => cases hok
    next halpha =>
      obtain ⟨s, hs, hout⟩ := bind_eq_ok.1 hok
      have hspaces : ∀ space ∈ Registry.standard.spaces, space.WellFormed ∧ space.KeepsAlpha := by
        intro space hspace
        rcases Registry.mem_of_mem_foldl_register hspace with h | h
        · cases h
        · exact bands_unassigned.2.2 space h
      have himage : (⟨2, 1, 4, [[1, 0.5, 0, 0.25], [0, 0, 0.25, 1]]⟩ : Raster).WellFormed := by
        simp [Raster.WellFormed]
      exact ⟨s, out, hs, hout, (bands_unassigned.2.1 _ _ _ _ _ _ _ _ _ hlexed hparse hs hspaces
        halpha himage rfl).1 true hout⟩

end CompiledScript

end Recolor
