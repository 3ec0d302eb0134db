import Recolor.Proofs.BandFrame

/-!
# Rules of functions and rules of scripts

A mask of bands can be asked for by a function of the library, or by a script: as the conjunction of
one condition on each band. Both select the same pixels (`Bands.select_predicate`), because the
script sees each band under its name, whatever the global variables are. This asks for an image
that has all three bands of its space: the scope of a script binds each of them, so that over a
conversion that answers fewer a script fails where the function reads the bands that are there
(`Masker.mask_compiled_eq_error`, `mask_differs_of_firstBand`).

Scaling the bands of an image by factors, and a block that multiplies the variables of these bands,
make the same image as well (`Bands.apply_scaling`). The block reads all bands, multiplies some
of them, and writes all of them back; an image that is written band by band is known by its bands
(`Raster.ext_band`).
-/

set_option autoImplicit false

namespace Recolor

/-! ## Conditions on bands -/

namespace MaskValue

/-- The condition of a script on a band of the given name, which stands at a place in the list of
bands. -/
def conditionAt (value : MaskValue) (place : Nat) (name : String) : Expr :=
  match value with
  | .number x => .binary (.comparison .eq) (.variable (.scalar name)) (.number x)
  | .tuple xs => .binary (.comparison .eq) (.variable (.scalar name)) (.number (xs.getD place 0))
  | .range r =>
    .binary .within (.variable (.scalar name))
      (.range (.number r.min) (.number r.max) r.strictMin r.strictMax)

/-- A predicate joined by `&` with the conditions on bands, the first of which stands at `place`. -/
def conjoin (value : MaskValue) : Nat → Expr → List String → Expr
  | _, e, [] => e
  | place, e, name :: rest =>
    conjoin value (place + 1) (.binary (.connective .and) e (value.conditionAt place name)) rest

/-- The conditions on bands, of which there is at least one, joined by `&`. -/
def predicate (value : MaskValue) : List String → Expr
  | [] => .boolean true
  | name :: rest => value.conjoin 1 (value.conditionAt 0 name) rest

/-- A condition on a band selects the positions whose number passes the test. -/
theorem evaluate_conditionAt {env : Environment} {name : String} {p : Plane}
    (h : env.scalar? name = some (.band p)) (value : MaskValue) (place : Nat) :
    (value.conditionAt place name).evaluate env = .ok (.mask (p.test (value.testAt place))) := by
  have hlookup : env.lookup (.scalar name) = some (.band p) := h
  have hband := Expr.evaluate_variable_eq_ok.2 hlookup
  cases value with
  | number x =>
    exact Expr.evaluate_binary_eq_ok.2 ⟨_, hband, _, Expr.evaluate_number env x, rfl⟩
  | tuple xs =>
    exact Expr.evaluate_binary_eq_ok.2 ⟨_, hband, _, Expr.evaluate_number env _, rfl⟩
  | range r =>
    have hrange := Expr.evaluate_range_eq_ok.2
      (show ∃ low, (Expr.number r.min).evaluate env = .ok (.number low) ∧
          ∃ high, (Expr.number r.max).evaluate env = .ok (.number high) ∧
            Value.range r = .range ⟨low, high, r.strictMin, r.strictMax⟩ from
        ⟨r.min, Expr.evaluate_number env _, r.max, Expr.evaluate_number env _, rfl⟩)
    exact Expr.evaluate_binary_eq_ok.2 ⟨_, hband, _, hrange, rfl⟩

end MaskValue

/-! ## Masks of bands -/

/-- All positions of a mask are selected by it and the full mask. -/
theorem Mask.filled_and {width height : Nat} {m : Mask}
    (h : (Value.mask m).Laid (.ofSize (width, height))) :
    (Mask.filled width height true).and m = .ok m := by
  obtain ⟨hsize, hlength⟩ := h
  obtain ⟨rfl, rfl⟩ := Prod.mk.inj hsize
  refine zipWith_eq_ok.2 ⟨rfl, ?_⟩
  have hbits :
      List.zipWith (· && ·) (List.replicate (m.width * m.height) true) m.bits = m.bits := by
    rw [← hlength]
    exact List.ext_getElem (by simp) (by simp)
  rw [filled, hbits]

namespace Bands

variable {b : Bands} {env globals : Environment} {names : List String} {name : String}

/-- Each listed band is there, and is what the variable of its name holds. -/
def Visible (b : Bands) (names : List String) (env : Environment) : Prop :=
  ∀ name ∈ names, ∃ p, b.band name = .ok p ∧ env.scalar? name = some (.band p)

/-- A conjunction of conditions selects what is left of a mask that the bands narrow. -/
theorem evaluate_conjoin (value : MaskValue) (place : Nat) {e : Expr} {m : Mask}
    (hb : b.raster.WellFormed) (henv : b.Visible names env) (hsize : m.size = b.raster.size)
    (he : e.evaluate env = .ok (.mask m)) :
    ∃ narrowed, b.narrow value place names m = .ok narrowed ∧ narrowed.size = b.raster.size ∧
      (value.conjoin place e names).evaluate env = .ok (.mask narrowed) := by
  induction names generalizing place e m with
  | nil => exact ⟨m, rfl, hsize, he⟩
  | cons name rest ih =>
    obtain ⟨p, hp, hname⟩ := henv name List.mem_cons_self
    have htest : (p.test (value.testAt place)).size = b.raster.size := (laid_band hb hp).1
    obtain ⟨both, hboth⟩ : ∃ both, m.and (p.test (value.testAt place)) = .ok both :=
      ⟨_, Mask.zipWith_eq_ok.2 ⟨hsize.trans htest.symm, rfl⟩⟩
    have hsame : both.size = b.raster.size := by
      obtain ⟨-, rfl⟩ := Mask.zipWith_eq_ok.1 hboth
      exact hsize
    have hcondition := MaskValue.evaluate_conditionAt hname value place
    have hnext : (Expr.binary (.connective .and) e (value.conditionAt place name)).evaluate env =
        .ok (.mask both) := by
      refine Expr.evaluate_binary_eq_ok.2 ⟨_, he, _, hcondition, ?_⟩
      rw [Value.binary, Value.connect]
      exact map_eq_ok.2 ⟨both, hboth, rfl⟩
    obtain ⟨narrowed, hnarrowed, hlast, heval⟩ :=
      ih (place + 1) (fun n hn => henv n (List.mem_cons_of_mem _ hn)) hsame hnext
    refine ⟨narrowed, ?_, hlast, heval⟩
    rw [narrow, hp, ok_bind, hboth]
    exact hnarrowed

/-- Where the listed bands can be seen, the conjunction of conditions on them selects the mask of
these bands. -/
theorem evaluate_predicate {value : MaskValue} (hb : b.raster.WellFormed)
    (henv : b.Visible names env) (hne : names ≠ [])
    (hlength : value.checkLength names.length = .ok ()) :
    ∃ m, b.mask names value = .ok m ∧ m.size = b.raster.size ∧
      (value.predicate names).evaluate env = .ok (.mask m) := by
  cases names with
  | nil => exact absurd rfl hne
  | cons name rest =>
    obtain ⟨p, hp, hname⟩ := henv name List.mem_cons_self
    have hlaid := Plane.laid_test (f := value.testAt 0) (laid_band hb hp)
    obtain ⟨m, hm, hsize, heval⟩ := evaluate_conjoin value 1 hb
      (fun n hn => henv n (List.mem_cons_of_mem _ hn)) hlaid.1
      (MaskValue.evaluate_conditionAt hname value 0)
    refine ⟨m, ?_, hsize, heval⟩
    rw [mask, hlength, ok_bind, narrow, hp, ok_bind, Mask.filled_and hlaid]
    exact hm

/-- Binding bands makes them visible, in front of all that was bound before. -/
theorem exists_bindAll (hbands : ∀ name ∈ names, ∃ p, b.band name = .ok p) (env : Environment) :
    ∃ final, b.bindAll names env = .ok final ∧
      (∀ name ∈ names, ∃ p, b.band name = .ok p ∧ (final.take name).1 = some (.band p)) ∧
      ∀ other ∉ names, (final.take other).1 = (env.take other).1 := by
  induction names generalizing env with
  | nil => exact ⟨env, rfl, by simp, fun _ _ => rfl⟩
  | cons name rest ih =>
    obtain ⟨p, hp⟩ := hbands name List.mem_cons_self
    obtain ⟨final, hfinal, hbound, hkept⟩ :=
      ih (fun n hn => hbands n (List.mem_cons_of_mem _ hn)) (env.bind name (.band p))
    refine ⟨final, ?_, ?_, ?_⟩
    · rw [bindAll, hp]
      exact hfinal
    · intro n hn
      by_cases hrest : n ∈ rest
      · exact hbound n hrest
      · -- a name that does not come again keeps its band
        obtain rfl : n = name := (List.mem_cons.1 hn).resolve_right hrest
        refine ⟨p, hp, ?_⟩
        rw [hkept n hrest, Environment.take_bind, if_pos rfl]
    · intro other hother
      have hne : other ≠ name := fun h => hother (h ▸ List.mem_cons_self)
      have hlater : other ∉ rest := fun h => hother (List.mem_cons_of_mem _ h)
      rw [hkept other hlater, Environment.take_bind, if_neg hne]

/-- In the scope of a rule all bands of the image are visible, and no other variable is bound in
front of the global ones. -/
theorem exists_environment (hbands : ∀ name ∈ b.names, ∃ p, b.band name = .ok p)
    (globals : Environment) :
    ∃ env, b.environment globals = .ok env ∧
      (∀ name ∈ b.names, ∃ p, b.band name = .ok p ∧ (env.take name).1 = some (.band p)) ∧
      ∀ other ∉ b.names, (env.take other).1 = none :=
  exists_bindAll hbands globals.child

/-- The bands that an image is said to have are there, if it has the three of its space and none of
these is taken for alpha. -/
theorem exists_band (halpha : alphaName ∉ b.space.bandNames) (hchannels : 3 ≤ b.raster.channels)
    (hname : name ∈ b.names) : ∃ p, b.band name = .ok p := by
  obtain ⟨i, hindex, hi⟩ : ∃ i, b.space.bandIndex? name = some i ∧ i < b.raster.channels := by
    rcases List.mem_append.1 hname with hcomponent | hfourth
    · have hne : name ≠ alphaName := fun h => halpha (h ▸ hcomponent)
      have hsome : (b.space.bandNames.findIdx? (· == name)).isSome = true := by
        rw [List.findIdx?_isSome]
        exact List.any_eq_true.2 ⟨name, hcomponent, beq_self_eq_true name⟩
      obtain ⟨i, hi⟩ := Option.isSome_iff_exists.1 hsome
      have hlt := (ColorSpace.lt_of_findIdx?_bandNames hi).1
      rw [alphaBand] at hlt
      exact ⟨i, by rw [ColorSpace.bandIndex?, if_neg hne, hi], by omega⟩
    · split at hfourth
      next h =>
        rw [List.mem_singleton.1 hfourth]
        exact ⟨alphaBand, if_pos rfl, of_decide_eq_true h⟩
      next => cases hfourth
  exact ⟨_, band_eq_ok.2 ⟨i, index_eq_ok.2 hindex, Raster.band_eq_ok.2 ⟨hi, rfl⟩⟩⟩

/-- A band that is there is among those that an image is said to have. -/
theorem mem_names_of_band {p : Plane} (h : b.band name = .ok p) : name ∈ b.names := by
  obtain ⟨i, hindex, hband⟩ := band_eq_ok.1 h
  obtain ⟨hi, -⟩ := Raster.band_eq_ok.1 hband
  have hplace := index_eq_ok.1 hindex
  by_cases halpha : name = alphaName
  · rw [halpha, ColorSpace.bandIndex?, if_pos rfl] at hplace
    have hhas : b.raster.hasAlpha = true := decide_eq_true (Option.some.inj hplace ▸ hi)
    rw [names, hhas, halpha]
    exact List.mem_append_right _ (List.mem_singleton.2 rfl)
  · rw [ColorSpace.bandIndex?, if_neg halpha] at hplace
    have hcomponent := (ColorSpace.lt_of_findIdx?_bandNames hplace).2
    exact List.mem_append_left _ (List.mem_of_getElem? hcomponent)

/-- Binding bands fails at the first one that fails to be read. -/
theorem bindAll_append_eq_error {later : List String} {fault : Fault}
    (hbands : ∀ name ∈ names, ∃ p, b.band name = .ok p) (hname : b.band name = .error fault)
    (env : Environment) : b.bindAll (names ++ name :: later) env = .error fault := by
  induction names generalizing env with
  | nil =>
    rw [List.nil_append, bindAll, hname]
    rfl
  | cons first rest ih =>
    obtain ⟨p, hp⟩ := hbands first List.mem_cons_self
    rw [List.cons_append, bindAll, hp]
    exact ih (fun n hn => hbands n (List.mem_cons_of_mem _ hn)) (env.bind first (.band p))

/-- The scope of a rule takes all three bands of a space: over an image with fewer it cannot be set
up, whatever bands the rule asks for. -/
theorem environment_eq_error (hnodup : b.space.bandNames.Nodup)
    (halpha : alphaName ∉ b.space.bandNames) (hfew : b.raster.channels < 3)
    (globals : Environment) :
    b.environment globals =
      .error (.image (.missingBand b.raster.channels b.raster.channels)) := by
  have hlt : b.raster.channels < b.space.bandNames.length := by
    rw [ColorSpace.length_bandNames]
    exact hfew
  have hindex : ∀ i (hi : i < b.space.bandNames.length),
      b.index b.space.bandNames[i] = .ok i := by
    intro i hi
    exact index_eq_ok.2 (ColorSpace.bandIndex?_getElem hnodup halpha hi)
  have hsplit : b.names = b.space.bandNames.take b.raster.channels ++
      b.space.bandNames[b.raster.channels] ::
        (b.space.bandNames.drop (b.raster.channels + 1) ++
          if b.raster.hasAlpha then [alphaName] else []) := by
    rw [names, ← List.cons_append, ← List.append_assoc, ← List.drop_eq_getElem_cons,
      List.take_append_drop]
  rw [environment, hsplit]
  refine bindAll_append_eq_error (fun name hname => ?_) ?_ _
  · obtain ⟨i, hi, rfl⟩ := List.mem_take_iff_getElem.1 hname
    have hpresent : i < b.raster.channels := by omega
    exact ⟨_, band_eq_ok.2 ⟨i, hindex i (by omega), Raster.band_eq_ok.2 ⟨hpresent, rfl⟩⟩⟩
  · rw [band, hindex _ hlt, ok_bind, Raster.band, Raster.requireBand,
      if_neg (Nat.lt_irrefl b.raster.channels)]
    rfl

end Bands

/-- A variable of the innermost scope hides all others of its name. -/
theorem Environment.scalar?_of_take {env : Environment} {name : String} {v : Value}
    (h : (env.take name).1 = some v) : env.scalar? name = some v := by
  have hinner : env.inner.scalars.get? name = some v := h
  simp [scalar?, layers, hinner]

namespace Bands

variable {b : Bands} {names : List String}

/-- Bands that are there have a mask, which a script that sees them under their names selects as
well. -/
theorem exists_mask {value : MaskValue} (hb : b.raster.WellFormed)
    (hbands : ∀ name ∈ names, ∃ p, b.band name = .ok p) (hne : names ≠ [])
    (hlength : value.checkLength names.length = .ok ()) :
    ∃ m, b.mask names value = .ok m ∧ m.size = b.raster.size ∧
      ∀ env : Environment, b.Visible names env →
        (value.predicate names).evaluate env = .ok (.mask m) := by
  -- one scope in which these bands can be seen tells what their mask is
  obtain ⟨scope, -, hbound, -⟩ := exists_bindAll hbands .empty
  have hvisible : b.Visible names scope := by
    intro name hname
    obtain ⟨p, hp, htake⟩ := hbound name hname
    exact ⟨p, hp, Environment.scalar?_of_take htake⟩
  obtain ⟨m, hm, hsize, -⟩ := evaluate_predicate hb hvisible hne hlength
  refine ⟨m, hm, hsize, fun env henv => ?_⟩
  obtain ⟨m', hm', -, heval⟩ := evaluate_predicate hb henv hne hlength
  rw [heval, Except.ok.inj (hm.symm.trans hm')]

/-- Predicates of both sorts select the same pixels of an image that has all bands of its space,
whatever the global variables are. -/
theorem select_predicate {value : MaskValue} {m : Mask} (halpha : alphaName ∉ b.space.bandNames)
    (hchannels : 3 ≤ b.raster.channels) (hbands : ∀ name ∈ names, ∃ p, b.band name = .ok p)
    (heval : ∀ env : Environment, b.Visible names env →
      (value.predicate names).evaluate env = .ok (.mask m)) (globals : Environment) :
    (Predicate.compiled (value.predicate names) globals).select b = .ok m := by
  obtain ⟨env, henv, hbound, -⟩ :=
    exists_environment (fun _ hname => exists_band halpha hchannels hname) globals
  have hvisible : b.Visible names env := by
    intro name hname
    obtain ⟨p, hp⟩ := hbands name hname
    obtain ⟨q, hq, htake⟩ := hbound name (mem_names_of_band hp)
    rw [Except.ok.inj (hq.symm.trans hp)] at htake
    exact ⟨p, hp, Environment.scalar?_of_take htake⟩
  rw [Predicate.select, henv, ok_bind, heval env hvisible]
  rfl

end Bands

namespace Masker

/-- The masker of a script fails over a representation that has not all bands of its space, even if
it asks for none of those that are missing. -/
theorem mask_compiled_eq_error {space : ColorSpace} {c : Context}
    (hnodup : space.bandNames.Nodup) (halpha : alphaName ∉ space.bandNames)
    (hfew : (c.request space).1.channels < 3) (expr : Expr) (globals : Environment) :
    (Masker.mk (.compiled expr globals) space).mask c =
      (.error (.image (.missingBand (c.request space).1.channels (c.request space).1.channels)),
        (c.request space).2) := by
  have hscope := @Bands.environment_eq_error ⟨space, (c.request space).1⟩ hnodup halpha hfew globals
  simp only [mask, maskOf, Predicate.select, hscope, error_bind]

/-- Of bands that are there, a masker of a function answers a mask. That of a script answers the
same mask, in the same context, if the representation has all bands of its space, and fails
otherwise. -/
theorem mask_predicate {space : ColorSpace} {c : Context} {names : List String} {value : MaskValue}
    (hnodup : space.bandNames.Nodup) (halpha : alphaName ∉ space.bandNames)
    (hwf : (c.request space).1.WellFormed) (hne : names ≠ [])
    (hbands : ∀ name ∈ names, ∃ p, (Bands.mk space (c.request space).1).band name = .ok p)
    (hlength : value.checkLength names.length = .ok ()) (globals : Environment) :
    ∃ m, (Masker.mk (.native (·.mask names value)) space).mask c =
        (.ok m, (c.request space).2) ∧
      (3 ≤ (c.request space).1.channels →
        (Masker.mk (.compiled (value.predicate names) globals) space).mask c =
          (.ok m, (c.request space).2)) ∧
      ((c.request space).1.channels < 3 →
        (Masker.mk (.compiled (value.predicate names) globals) space).mask c =
          (.error (.image
            (.missingBand (c.request space).1.channels (c.request space).1.channels)),
            (c.request space).2)) := by
  obtain ⟨m, hnative, hsize, heval⟩ :=
    @Bands.exists_mask ⟨space, (c.request space).1⟩ _ _ hwf hbands hne hlength
  refine ⟨m, Prod.ext (maskOf_eq_ok.2 ⟨hnative, hsize⟩) rfl, fun hchannels => ?_, fun hfew => ?_⟩
  · have hcompiled := Bands.select_predicate halpha hchannels hbands heval globals
    exact Prod.ext (maskOf_eq_ok.2 ⟨hcompiled, hsize⟩) rfl
  · exact mask_compiled_eq_error hnodup halpha hfew _ globals

end Masker

/-! ## Images band by band -/

namespace Raster

variable {r s : Raster}

/-- Images of one shape are the same if their bands are. -/
theorem ext_band (hr : r.WellFormed) (h : r.Like s)
    (hbands : ∀ i < r.channels, s.band i = r.band i) : s = r := by
  have hpixels : s.pixels = r.pixels := by
    refine List.ext_getElem (h.length_pixels hr) fun k hk hk' => ?_
    have hlength : s.pixels[k].length = r.channels :=
      (h.wellFormed.1 _ (List.getElem_mem hk)).trans h.channels
    have hlength' : r.pixels[k].length = r.channels := hr.1 _ (List.getElem_mem hk')
    refine List.ext_getElem (hlength.trans hlength'.symm) fun i hi hi' => ?_
    have hband := map_getD_of_band_eq (hlength ▸ hi) (hbands i (hlength ▸ hi))
    have hvalue := congrArg (·[k]?) hband
    simpa [List.getElem?_map, hk, hk', List.getD_eq_getElem?_getD, hi, hi'] using hvalue
  have hwidth := h.width_eq
  have hheight := h.height_eq
  have hchannels := h.channels
  cases r
  cases s
  simp_all

end Raster

namespace Bands

variable {b : Bands} {env : Environment} {names : List String} {planes : String → Plane}

/-- Storing planes that variables hold writes each into the band of its name. -/
theorem exists_storeAll (hnodup : names.Nodup) (hb : b.raster.WellFormed)
    (hindex : ∀ name ∈ names, ∃ i, b.space.bandIndex? name = some i ∧ i < b.raster.channels)
    (hlaid : ∀ name ∈ names, (Value.band (planes name)).Laid (.ofSize b.raster.size))
    (henv : ∀ name ∈ names, (env.take name).1 = some (.band (planes name))) :
    ∃ c final, storeAll names b env = .ok (c, final) ∧
      (∀ name ∈ names, c.band name = .ok (planes name)) ∧
      ∀ other ∉ names, (final.take other).1 = (env.take other).1 := by
  induction names generalizing b env with
  | nil => exact ⟨b, env, rfl, by simp, fun _ _ => rfl⟩
  | cons name rest ih =>
    obtain ⟨hname, hrest⟩ := List.nodup_cons.1 hnodup
    obtain ⟨i, hi, hlt⟩ := hindex name List.mem_cons_self
    obtain ⟨r, hr, hband⟩ := Raster.band_setBand hb (hlaid name List.mem_cons_self) hlt
    have hlike := Raster.Like.setBand hb hr
    -- the bands after the first store, and the variables that are left
    have hstore : b.store name (env.take name).1 = .ok { b with raster := r } := by
      rw [henv name List.mem_cons_self]
      exact setBand_eq_ok.2 ⟨i, index_eq_ok.2 hi, r, hr, rfl⟩
    have hleft : ∀ other, other ≠ name →
        ((env.take name).2.take other).1 = (env.take other).1 := by
      intro other hother
      rw [Environment.take_take, if_neg hother]
    have hheld : ∀ n ∈ rest, ((env.take name).2.take n).1 = some (.band (planes n)) := by
      intro n hn
      rw [hleft n fun h => hname (h ▸ hn)]
      exact henv n (List.mem_cons_of_mem _ hn)
    obtain ⟨c, final, hc, hstored, hkept⟩ :=
      ih (b := { b with raster := r }) hrest hlike.wellFormed
        (fun n hn => by
          rw [hlike.channels]
          exact hindex n (List.mem_cons_of_mem _ hn))
        (fun n hn => by
          rw [hlike.size]
          exact hlaid n (List.mem_cons_of_mem _ hn))
        hheld
    refine ⟨c, final, ?_, ?_, ?_⟩
    · rw [storeAll]
      simp only [hstore, ok_bind]
      exact hc
    · intro n hn
      rcases List.mem_cons.1 hn with rfl | hn
      · -- no later store is for this band
        have hshows : Shows { b with raster := r } i (env.take n).2 := by
          intro other hother v hv
          have hsame : other = n := ColorSpace.eq_of_bandIndex? (index_eq_ok.1 hother) hi
          rw [Environment.take_take, if_pos hsame] at hv
          cases hv
        have hspace : c.space = b.space := (like_storeAll hlike.wellFormed hc).space
        refine band_eq_ok.2 ⟨i, index_eq_ok.2 (hspace ▸ hi), ?_⟩
        rw [band_storeAll hshows hc]
        exact hband
      · exact hstored n hn
    · intro other hother
      rw [hkept other fun h => hother (List.mem_cons_of_mem _ h),
        hleft other fun h => hother (h ▸ List.mem_cons_self)]

end Bands

/-! ## Scaling -/

/-- The statement that multiplies the variable of a band by a factor. -/
def scaleBy (name : String) (factor : Number) : Assignment :=
  ⟨.scalar name, .binary (.arithmetic .mul) (.variable (.scalar name)) (.number factor)⟩

/-- The block that multiplies the variables of bands by factors, one after another, as far as there
are both bands and factors. -/
def scaling (names : List String) (factors : List Number) : List Assignment :=
  List.zipWith scaleBy names factors

/-- The plane multiplied by a factor, if there is one. -/
def Plane.scaled (p : Plane) : Option Number → Plane
  | some factor => p.map (· * factor)
  | none => p

/-- A plane is laid out as before whether or not there is a factor for it. -/
theorem Plane.laid_scaled {layout : Layout} {p : Plane} (h : (Value.band p).Laid layout)
    (factor? : Option Number) : (Value.band (p.scaled factor?)).Laid layout := by
  cases factor? with
  | none => exact h
  | some factor => exact Plane.laid_map h

/-- The statement that scales a band binds its variable to the scaled plane. -/
theorem run_scaleBy {env : Environment} {name : String} {p : Plane}
    (h : (env.take name).1 = some (.band p)) (factor : Number) :
    (scaleBy name factor).run env = .ok (env.bind name (.band (p.scaled (some factor)))) := by
  have hlookup : env.lookup (.scalar name) = some (.band p) := Environment.scalar?_of_take h
  have hvalue : (scaleBy name factor).value.evaluate env =
      .ok (.band (p.scaled (some factor))) :=
    Expr.evaluate_binary_eq_ok.2 ⟨_, Expr.evaluate_variable_eq_ok.2 hlookup, _,
      Expr.evaluate_number env factor, rfl⟩
  rw [Assignment.run, hvalue]
  rfl

/-- A block that scales bands multiplies the variable of each by the factor at its place. -/
theorem exists_execute_scaling {names : List String} (hnodup : names.Nodup)
    {planes : String → Plane} {env : Environment}
    (henv : ∀ name ∈ names, (env.take name).1 = some (.band (planes name)))
    (factors : List Number) :
    ∃ final, execute (scaling names factors) env = .ok final ∧
      (∀ name ∈ names, (final.take name).1 =
        some (.band ((planes name).scaled factors[names.idxOf name]?))) ∧
      ∀ other ∉ names, (final.take other).1 = (env.take other).1 := by
  induction names generalizing env factors with
  | nil => exact ⟨env, rfl, by simp, fun _ _ => rfl⟩
  | cons name rest ih =>
    obtain ⟨hname, hrest⟩ := List.nodup_cons.1 hnodup
    cases factors with
    | nil => exact ⟨env, rfl, henv, fun _ _ => rfl⟩
    | cons factor factors =>
      have hrun := run_scaleBy (henv name List.mem_cons_self) factor
      have hbound : ∀ other, other ≠ name →
          ((env.bind name (.band ((planes name).scaled (some factor)))).take other).1 =
            (env.take other).1 := by
        intro other hother
        rw [Environment.take_bind, if_neg hother]
      have hheld : ∀ n ∈ rest,
          ((env.bind name (.band ((planes name).scaled (some factor)))).take n).1 =
            some (.band (planes n)) := by
        intro n hn
        rw [hbound n fun h => hname (h ▸ hn)]
        exact henv n (List.mem_cons_of_mem _ hn)
      obtain ⟨final, hfinal, hscaled, hkept⟩ := ih hrest hheld factors
      refine ⟨final, ?_, ?_, ?_⟩
      · rw [scaling, List.zipWith_cons_cons, execute, hrun]
        exact hfinal
      · intro n hn
        rcases List.mem_cons.1 hn with rfl | hn
        · rw [hkept n hname, Environment.take_bind, if_pos rfl, List.idxOf_cons_self]
          rfl
        · have hne : name ≠ n := fun h => hname (h ▸ hn)
          have hplace : (name :: rest).idxOf n = rest.idxOf n + 1 := by
            rw [List.idxOf_cons, beq_false_of_ne hne, cond_false]
          rw [hscaled n hn, hplace]
          rfl
      · intro other hother
        rw [hkept other fun h => hother (List.mem_cons_of_mem _ h),
          hbound other fun h => hother (h ▸ List.mem_cons_self)]

namespace Action

/-- A scaled pixel holds at each place the number times the factor there, or the number itself if
the factors do not last so far. -/
theorem getD_scalePixel {p : Pixel} {i : Nat} (hi : i < p.length) (factors : List Number) :
    (scalePixel p factors).getD i 0 = factors[i]?.elim (p.getD i 0) (p.getD i 0 * ·) := by
  induction p generalizing i factors with
  | nil => cases hi
  | cons x xs ih =>
    cases factors with
    | nil => rfl
    | cons factor factors =>
      cases i with
      | zero => rfl
      | succ i => exact ih (Nat.lt_of_succ_lt_succ hi) factors

/-- A scaled pixel has as many numbers as before. -/
theorem length_scalePixel (p : Pixel) (factors : List Number) :
    (scalePixel p factors).length = p.length := by
  induction p generalizing factors with
  | nil => rfl
  | cons x xs ih =>
    cases factors with
    | nil => rfl
    | cons factor factors => exact congrArg Nat.succ (ih factors)

/-- Scaling pixels by factors scales each band by the factor at its place. -/
theorem band_scalePixel {chunk : Raster} {i : Nat} {p : Plane} (h : chunk.WellFormed)
    (hp : chunk.band i = .ok p) (factors : List Number) :
    (chunk.mapPixels (scalePixel · factors)).band i = .ok (p.scaled factors[i]?) := by
  obtain ⟨hi, rfl⟩ := Raster.band_eq_ok.1 hp
  refine Raster.band_eq_ok.2 ⟨hi, ?_⟩
  have hvalues : ∀ q ∈ chunk.pixels, (scalePixel q factors).getD i 0 =
      factors[i]?.elim (q.getD i 0) (q.getD i 0 * ·) :=
    fun q hq => getD_scalePixel ((h.1 q hq).symm ▸ hi) factors
  simp only [Raster.mapPixels, List.map_map]
  cases hfactor : factors[i]? with
  | none =>
    simp only [hfactor] at hvalues
    rw [Plane.scaled]
    exact congrArg _ (List.map_congr_left fun q hq => (hvalues q hq).symm)
  | some factor =>
    simp only [hfactor] at hvalues
    rw [Plane.scaled, Plane.map, List.map_map]
    exact congrArg _ (List.map_congr_left fun q hq => (hvalues q hq).symm)

end Action

namespace Bands

/-- The bands of an image of red, green and blue are those three, and alpha if there is a fourth
channel. -/
theorem names_rgb {chunk : Raster} (hchannels : chunk.channels = 3 ∨ chunk.channels = 4) :
    (mk .rgb chunk).names = ["r", "g", "b"] ∧ chunk.channels = 3 ∨
      (mk .rgb chunk).names = ["r", "g", "b", "alpha"] ∧ chunk.channels = 4 := by
  rcases hchannels with h | h
  · exact .inl ⟨by simp [names, Raster.hasAlpha, h, alphaBand]; rfl, h⟩
  · exact .inr ⟨by simp [names, Raster.hasAlpha, h, alphaBand]; rfl, h⟩

/-- The bands of red, green and blue, and that of alpha if there is one, stand at the places of
their names. -/
theorem bandIndex?_rgb {chunk : Raster} (hchannels : chunk.channels = 3 ∨ chunk.channels = 4) :
    (mk .rgb chunk).names.Nodup ∧ (mk .rgb chunk).names.length = chunk.channels ∧
      ∀ name ∈ (mk .rgb chunk).names,
        ColorSpace.rgb.bandIndex? name = some ((mk .rgb chunk).names.idxOf name) := by
  rcases names_rgb hchannels with ⟨hnames, h⟩ | ⟨hnames, h⟩
  · rw [hnames, h]
    decide
  · rw [hnames, h]
    decide

/-- The block that multiplies bands of a chunk of red, green and blue by factors makes what scaling
its pixels makes, whatever the global variables are. -/
theorem apply_scaling {chunk : Raster} (hchunk : chunk.WellFormed)
    (hchannels : chunk.channels = 3 ∨ chunk.channels = 4) (factors : List Number)
    (globals : Environment) :
    (Transform.compiled (scaling (mk .rgb chunk).names factors) globals).apply (mk .rgb chunk) =
      .ok (chunk.mapPixels (Action.scalePixel · factors)) := by
  obtain ⟨hnodup, hcount, hindex⟩ := bandIndex?_rgb hchannels
  let planes (name : String) : Plane :=
    ⟨chunk.width, chunk.height, chunk.pixels.map (·.getD ((mk .rgb chunk).names.idxOf name) 0)⟩
  have hplace : ∀ name ∈ (mk .rgb chunk).names,
      (mk .rgb chunk).names.idxOf name < chunk.channels := by
    intro name hname
    rw [← hcount]
    exact List.idxOf_lt_length_of_mem hname
  have hband : ∀ name ∈ (mk .rgb chunk).names, (mk .rgb chunk).band name = .ok (planes name) := by
    intro name hname
    exact band_eq_ok.2 ⟨_, index_eq_ok.2 (hindex name hname),
      Raster.band_eq_ok.2 ⟨hplace name hname, rfl⟩⟩
  obtain ⟨env, henv, hbound, hfree⟩ :=
    exists_environment (fun name hname => ⟨_, hband name hname⟩) globals
  have hplanes : ∀ name ∈ (mk .rgb chunk).names,
      (env.take name).1 = some (.band (planes name)) := by
    intro name hname
    obtain ⟨p, hp, htake⟩ := hbound name hname
    rw [htake, Except.ok.inj (hp.symm.trans (hband name hname))]
  obtain ⟨final, hfinal, hscaled, hkept⟩ := exists_execute_scaling hnodup hplanes factors
  obtain ⟨c, left, hstore, hstored, hleft⟩ :=
    exists_storeAll hnodup hchunk (fun name hname => ⟨_, hindex name hname, hplace name hname⟩)
      (fun name hname => Plane.laid_scaled (laid_band hchunk (hband name hname)) _) hscaled
  have hlike := like_storeAll hchunk hstore
  -- without alpha no variable of that name was bound
  have halpha : ¬(!c.raster.hasAlpha && (left.take alphaName).1.isSome) = true := by
    have hsame : c.raster.hasAlpha = chunk.hasAlpha := by
      rw [Raster.hasAlpha, hlike.raster.channels]
      rfl
    rw [hsame]
    by_cases h : alphaName ∈ (mk .rgb chunk).names
    · have hlt := hplace _ h
      have hi := Option.some.inj ((if_pos rfl).symm.trans (hindex _ h))
      simp [Raster.hasAlpha, hi ▸ hlt]
    · rw [hleft _ h, hkept _ h, hfree _ h]
      simp
  have hraster : c.raster = chunk.mapPixels (Action.scalePixel · factors) := by
    have hpixels := Raster.Like.mapPixels (f := (Action.scalePixel · factors)) hchunk
      fun p => Action.length_scalePixel p factors
    refine Raster.ext_band hpixels.wellFormed
      ⟨hlike.raster.wellFormed, hlike.raster.size, hlike.raster.channels⟩ fun i hi => ?_
    obtain ⟨name, hname, rfl⟩ : ∃ name ∈ (mk .rgb chunk).names,
        (mk .rgb chunk).names.idxOf name = i := by
      have hlt : i < (mk .rgb chunk).names.length := hcount.symm ▸ hi
      exact ⟨_, List.getElem_mem hlt, hnodup.idxOf_getElem i hlt⟩
    obtain ⟨j, hj, hwritten⟩ := band_eq_ok.1 (hstored name hname)
    have hsame : j = (mk .rgb chunk).names.idxOf name := by
      have hj := index_eq_ok.1 hj
      rw [hlike.space] at hj
      exact Option.some.inj (hj.symm.trans (hindex name hname))
    rw [← hsame] at hwritten ⊢
    have hread : chunk.band j = .ok (planes name) :=
      Raster.band_eq_ok.2 ⟨hsame ▸ hplace name hname, hsame ▸ rfl⟩
    rw [hwritten, Action.band_scalePixel hchunk hread]
  rw [Transform.apply, henv, ok_bind, hfinal, ok_bind, writeBack_eq_ok.2 ⟨left, hstore, halpha⟩,
    ok_bind, hraster]
  rfl

end Bands

/-! ## Rules of both sorts -/

/-- Scaling as a function and scaling as a block of statements make the same image of a chunk. -/
theorem Action.run_scaling {chunk : Raster} (hchunk : chunk.WellFormed)
    (hchannels : chunk.channels = 3 ∨ chunk.channels = 4) (factors : List Number)
    (globals : Environment) :
    ∃ out, (scale factors).run chunk = .ok out ∧
      (Action.mk (.compiled (scaling (Bands.mk .rgb chunk).names factors) globals) .rgb).run chunk =
        .ok out := by
  refine ⟨chunk.mapPixels (scalePixel · factors), rfl, ?_⟩
  have happly := Bands.apply_scaling hchunk hchannels factors globals
  have hencode : ColorSpace.rgb.encode chunk = chunk := rfl
  rw [run, hencode, happly]
  rfl

/-- Rules of functions and rules of scripts agree, whatever the global variables are. Over any
space with three names other than alpha, a masker that asks for a mask of bands that are there
selects pixels. The masker of a script that joins one condition on each of these bands by `&`
selects the same pixels, and leaves the same context behind, if the representation of the image has
at least three channels; over fewer it fails, since its scope misses a band. Scaling red, green,
blue and alpha by factors and the block that multiplies the variables of these bands by the same
factors, in the order of the bands, make the same image. -/
theorem run_native_eq_compiled (globals : Environment) :
    (∀ (space : ColorSpace) (c : Context) (names : List String) (value : MaskValue),
      space.bandNames.Nodup → alphaName ∉ space.bandNames → (c.request space).1.WellFormed →
        names ≠ [] →
        (∀ name ∈ names, ∃ p, (Bands.mk space (c.request space).1).band name = .ok p) →
        value.checkLength names.length = .ok () →
          ∃ m, (Masker.mk (.native (·.mask names value)) space).mask c =
              (.ok m, (c.request space).2) ∧
            (3 ≤ (c.request space).1.channels →
              (Masker.mk (.compiled (value.predicate names) globals) space).mask c =
                (.ok m, (c.request space).2)) ∧
            ((c.request space).1.channels < 3 →
              (Masker.mk (.compiled (value.predicate names) globals) space).mask c =
                (.error (.image
                  (.missingBand (c.request space).1.channels (c.request space).1.channels)),
                  (c.request space).2))) ∧
    ∀ (factors : List Number) (chunk : Raster), chunk.WellFormed →
      chunk.channels = 3 ∨ chunk.channels = 4 →
        ∃ out, (Action.scale factors).run chunk = .ok out ∧
          (Action.mk (.compiled (scaling (Bands.mk .rgb chunk).names factors) globals) .rgb).run
            chunk = .ok out := by
  constructor
  · intro space c names value hnodup halpha hwf hne hbands hlength
    exact Masker.mask_predicate hnodup halpha hwf hne hbands hlength globals
  · intro factors chunk hchunk hchannels
    exact Action.run_scaling hchunk hchannels factors globals

/-- A mask of hue twice and of alpha, where a global variable has the name of the hue, and two
factors for a pixel of four bands. -/
theorem run_native_eq_compiled_hue :
    ∃ c m out, c = Context.start ⟨2, 1, 4, [[1, 0.5, 0, 0.25], [0, 0, 0.25, 1]]⟩ true ∧
      (Masker.mk (.native (·.mask ["h", "h", "alpha"] (.range ⟨0, 0.5, true, false⟩)))
        .hsv).mask c = (.ok m, (c.request .hsv).2) ∧
      (Masker.mk (.compiled ((MaskValue.range ⟨0, 0.5, true, false⟩).predicate ["h", "h", "alpha"])
        (Environment.empty.bind "h" .none)) .hsv).mask c = (.ok m, (c.request .hsv).2) ∧
      (Action.scale [2, 0.5]).run ⟨1, 1, 4, [[0.25, 1, 0, 1]]⟩ = .ok out ∧
      (Action.mk (.compiled (scaling ["r", "g", "b", "alpha"] [2, 0.5])
        (Environment.empty.bind "r" .none)) .rgb).run ⟨1, 1, 4, [[0.25, 1, 0, 1]]⟩ = .ok out := by
  obtain ⟨hmask, -⟩ := run_native_eq_compiled (Environment.empty.bind "h" .none)
  obtain ⟨-, hscale⟩ := run_native_eq_compiled (Environment.empty.bind "r" .none)
  have himage : (⟨2, 1, 4, [[1, 0.5, 0, 0.25], [0, 0, 0.25, 1]]⟩ : Raster).WellFormed := by
    simp [Raster.WellFormed]
  have hspace : ColorSpace.hsv ∈ ColorSpace.standard := by simp [ColorSpace.standard]
  have hlike := (ColorSpace.pixelwise_of_mem_standard hspace).encode.like himage
  have hchannels : 3 ≤ (ColorSpace.hsv.encode
      ⟨2, 1, 4, [[1, 0.5, 0, 0.25], [0, 0, 0.25, 1]]⟩).channels := hlike.channels ▸ by decide
  have hpresent : ∀ name ∈ ["h", "h", "alpha"], ∃ p, (Bands.mk .hsv (ColorSpace.hsv.encode
      ⟨2, 1, 4, [[1, 0.5, 0, 0.25], [0, 0, 0.25, 1]]⟩)).band name = .ok p := by
    intro name hname
    refine Bands.exists_band (by decide) hchannels ?_
    revert name
    decide
  obtain ⟨m, hnative, hcompiled, -⟩ := hmask .hsv
    (.start ⟨2, 1, 4, [[1, 0.5, 0, 0.25], [0, 0, 0.25, 1]]⟩ true) ["h", "h", "alpha"]
    (.range ⟨0, 0.5, true, false⟩) (by decide) (by decide) hlike.wellFormed (by simp) hpresent rfl
  obtain ⟨out, hrun, hblock⟩ := hscale [2, 0.5] ⟨1, 1, 4, [[0.25, 1, 0, 1]]⟩
    (by simp [Raster.WellFormed]) (.inr rfl)
  exact ⟨_, m, out, rfl, hnative, hcompiled hchannels, hrun, hblock⟩

/-- A space that keeps the first band of an image only, though it has names for three. -/
def ColorSpace.firstBand : ColorSpace :=
  ⟨"first", #v["k", "u", "w"], fun r => ⟨r.width, r.height, 1, r.pixels.map (·.take 1)⟩, id⟩

/-- Over a representation with the first band only, a function selects pixels by this band, while a
script that asks for the same band fails: its scope misses the second. -/
theorem mask_differs_of_firstBand :
    (⟨1, 1, 3, [[0.5, 0, 0]]⟩ : Raster).WellFormed ∧
      ColorSpace.firstBand.bandNames.Nodup ∧ alphaName ∉ ColorSpace.firstBand.bandNames ∧
      (Bands.mk .firstBand
        ((Context.start ⟨1, 1, 3, [[0.5, 0, 0]]⟩ true).request .firstBand).1).band "k" =
          .ok ⟨1, 1, [0.5]⟩ ∧
      ((Masker.mk (.native (·.mask ["k"] (.number 0.5))) .firstBand).mask
        (.start ⟨1, 1, 3, [[0.5, 0, 0]]⟩ true)).1 = .ok ⟨1, 1, [true]⟩ ∧
      ∀ globals : Environment,
        ((Masker.mk (.compiled ((MaskValue.number 0.5).predicate ["k"]) globals) .firstBand).mask
          (.start ⟨1, 1, 3, [[0.5, 0, 0]]⟩ true)).1 = .error (.image (.missingBand 1 1)) := by
  have hnodup : ColorSpace.firstBand.bandNames.Nodup := by decide
  have halpha : alphaName ∉ ColorSpace.firstBand.bandNames := by decide
  refine ⟨by simp [Raster.WellFormed], hnodup, halpha, rfl, rfl, fun globals => ?_⟩
  rw [Masker.mask_compiled_eq_error hnodup halpha (by decide)]
  rfl

end Recolor
