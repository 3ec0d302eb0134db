import Recolor.Proofs.OperatorFaults
import Recolor.Proofs.Partition

/-!
# The faults of bands

Images and bands fail for few reasons of their own: a band is not there, a plane, a mask or a chunk
does not fit the image, or a value is of a kind that no band holds or that selects no pixels. All
other faults are `BeyondBands`, and the only faults that are not `BeyondLookup` are those of a band
that is not there. As for operators, one lemma per step says that it avoids these faults.

So faults that neither operators nor bands have come up in the run of a mapper only where one of its
predicates or transforms fails with them, and are avoided if these avoid them (`Mapper.avoids_run`).
-/

set_option autoImplicit false

namespace Recolor

/-- A fault that looking up a band does not have. -/
@[simp] def Fault.BeyondLookup : Fault → Prop
  | .type (.unknownBand _ _ _) | .image (.missingBand _ _) => False
  | _ => True

/-- A fault that no step on images and bands has. -/
@[simp] def Fault.BeyondBands : Fault → Prop
  | .type (.unknownBand _ _ _) | .type (.storedKind _ _) | .type (.noAlphaBand _)
  | .type (.predicateKind _) | .image (.missingBand _ _) | .image (.notMappable _)
  | .shape (.bandSize _ _) | .shape (.maskSize _ _) | .shape (.chunkSize _ _ _ _) => False
  | _ => True

/-- The outcome is an answer, or a band is not there. -/
abbrev OfLookup {α : Type} (x : Except Fault α) : Prop := Avoids Fault.BeyondLookup x

/-- The outcome is an answer, or one of the faults that steps on images and bands have. -/
abbrev OfBands {α : Type} (x : Except Fault α) : Prop := Avoids Fault.BeyondBands x

/-- A fault that work on bands never has is one that the search for bands never has. -/
theorem Fault.BeyondBands.beyondLookup {fault : Fault} (h : fault.BeyondBands) :
    fault.BeyondLookup := by
  cases fault with
  | type cause => cases cause <;> simp_all
  | image cause => cases cause <;> simp_all
  | _ => trivial

/-- What fails only as the search for bands does, fails only as work on bands does. -/
theorem OfLookup.ofBands {α : Type} {x : Except Fault α} (hx : OfLookup x) : OfBands x :=
  hx.mono fun _ => Fault.BeyondBands.beyondLookup

/-! ## Images -/

namespace Raster

variable {r : Raster}

/-- A band is asked for by its number, which may be missing. -/
theorem ofLookup_requireBand (band : Nat) : OfLookup (r.requireBand band) := by
  unfold requireBand
  split <;> simp

/-- Reading a band fails only if the band is missing. -/
theorem ofLookup_band (band : Nat) : OfLookup (r.band band) :=
  (ofLookup_requireBand band).bind fun _ _ => avoids_ok _

/-- Filling a band fails only if the band is missing. -/
theorem ofLookup_fillBand (band : Nat) (x : Number) : OfLookup (r.fillBand band x) :=
  (ofLookup_requireBand band).bind fun _ _ => avoids_ok _

/-- Writing a band fails only if the band is missing or the plane has another size. -/
theorem ofBands_setBand (band : Nat) (plane : Plane) : OfBands (r.setBand band plane) := by
  refine (ofLookup_requireBand band).ofBands.bind fun _ _ => ?_
  split <;> simp

/-- Writing selected pixels fails only if the chunk has another shape. -/
theorem ofBands_scatter (m : Mask) (chunk : Raster) : OfBands (r.scatter m chunk) := by
  unfold scatter
  split <;> simp

end Raster

/-! ## Bands -/

namespace Bands

variable {b : Bands}

/-- A name may stand for no band. -/
theorem ofLookup_index (name : String) : OfLookup (b.index name) := by
  unfold index
  split <;> simp

/-- Reading a band by its name fails only in the search for the band. -/
theorem ofLookup_band (name : String) : OfLookup (b.band name) :=
  (ofLookup_index name).bind fun i _ => Raster.ofLookup_band i

/-- Filling a band by its name fails only in the search for the band. -/
theorem ofLookup_fillBand (name : String) (x : Number) : OfLookup (b.fillBand name x) :=
  (ofLookup_index name).bind fun i _ => (Raster.ofLookup_fillBand i x).bind fun _ _ => avoids_ok _

/-- Binding bands fails only in the search for one of them. -/
theorem ofLookup_bindAll (names : List String) (env : Environment) :
    OfLookup (b.bindAll names env) := by
  induction names generalizing env with
  | nil => exact avoids_ok _
  | cons name rest ih => exact (ofLookup_band name).bind fun plane _ => ih _

/-- Setting up the scope of a rule fails only in the search for a band. -/
theorem ofLookup_environment (globals : Environment) : OfLookup (b.environment globals) :=
  ofLookup_bindAll _ _

/-- Storing a value fails for the band, for the size of a plane, or for a kind that no band can
hold. -/
theorem ofBands_store (name : String) (value? : Option Value) : OfBands (b.store name value?) := by
  unfold store
  split
  case h_1 plane =>
    refine (ofLookup_index name).ofBands.bind fun i _ => ?_
    exact (Raster.ofBands_setBand i plane).bind fun _ _ => avoids_ok _
  case h_2 x => exact (ofLookup_fillBand name x).ofBands
  case h_3 => simp
  case h_4 => exact avoids_ok _

/-- Storing variables fails as storing one of them does. -/
theorem ofBands_storeAll (names : List String) (b : Bands) (env : Environment) :
    OfBands (storeAll names b env) := by
  induction names generalizing b env with
  | nil => exact avoids_ok _
  | cons name rest ih => exact (ofBands_store name _).bind fun next _ => ih next _

/-- Writing variables back fails as storing one of them does, or for a variable of alpha without a
band. -/
theorem ofBands_writeBack (env : Environment) : OfBands (b.writeBack env) := by
  refine (ofBands_storeAll _ b env).bind fun stored _ => ?_
  dsimp only
  split <;> simp

end Bands

/-! ## Rules -/

section Rules

variable {bad : Fault → Prop} {globals : Environment} {b : Bands}

/-- A compiled predicate avoids what its expression avoids. -/
theorem Predicate.avoids_compiled (hbeyond : ∀ fault, bad fault → fault.BeyondBands) {e : Expr}
    (he : ∀ env, b.environment globals = .ok env → Avoids bad (e.evaluate env)) :
    Avoids bad ((compiled e globals).select b) := by
  refine ((Bands.ofLookup_environment globals).ofBands.mono hbeyond).bind fun env henv => ?_
  refine (he env henv).bind fun v _ => ?_
  have hmask : OfBands (maskOfValue b.raster.width b.raster.height v) := by
    cases v <;> simp [maskOfValue]
  exact hmask.mono hbeyond

/-- A compiled transform avoids what its assignments avoid. -/
theorem Transform.avoids_compiled (hbeyond : ∀ fault, bad fault → fault.BeyondBands)
    {statements : List Assignment}
    (hstatements : ∀ env, b.environment globals = .ok env → Avoids bad (execute statements env)) :
    Avoids bad ((compiled statements globals).apply b) := by
  refine ((Bands.ofLookup_environment globals).ofBands.mono hbeyond).bind fun env henv => ?_
  refine (hstatements env henv).bind fun final _ => ?_
  exact ((Bands.ofBands_writeBack final).mono hbeyond).bind fun _ _ => avoids_ok _

/-- No predicate and no transform of the entry fails with such a fault, whatever bands it sees. -/
structure Entry.FreeOf (bad : Fault → Prop) (e : Entry) : Prop where
  masker : ∀ b, Avoids bad (e.masker.predicate.select b)
  actions : ∀ a ∈ e.actions, ∀ b, Avoids bad (a.transform.apply b)

namespace Entry.FreeOf

variable {e : Entry}

/-- The masker of an entry avoids the faults that its predicate avoids, if no work on bands has
them. -/
theorem maskOf (hbeyond : ∀ fault, bad fault → fault.BeyondBands) (he : e.FreeOf bad)
    (representation : Raster) : Avoids bad (e.masker.maskOf representation) := by
  refine (he.masker _).bind fun mask _ => Avoids.mono ?_ hbeyond
  split <;> simp

/-- Asking for a representation adds no fault to those of a masker. -/
theorem mask (hbeyond : ∀ fault, bad fault → fault.BeyondBands) (he : e.FreeOf bad) (c : Context) :
    Avoids bad (e.masker.mask c).1 :=
  he.maskOf hbeyond _

/-- The actions of an entry avoid the faults that its transforms avoid. -/
theorem apply (he : e.FreeOf bad) (chunk : Raster) : Avoids bad (e.apply chunk) :=
  avoids_foldlM_of_forall (fun _ a ha => (he.actions a ha _).bind fun _ _ => avoids_ok _) chunk

end Entry.FreeOf

end Rules

/-! ## Mapping an image -/

namespace Mapper

variable {bad : Fault → Prop} {entries : List Entry}

/-- Sharing out the pixels avoids the faults that all maskers avoid, if masks of different sizes do
not fail with one of them. -/
theorem avoids_partition (hforeign : ∀ fault, bad fault → fault.Foreign)
    (hbeyond : ∀ fault, bad fault → fault.BeyondBands) (he : ∀ e ∈ entries, e.FreeOf bad)
    (c : Context) (remaining : Mask) : Avoids bad (partition entries c remaining) := by
  induction entries generalizing c remaining with
  | nil => exact avoids_ok _
  | cons e rest ih =>
    have hand : ∀ m : Mask, Avoids bad (remaining.and m) := fun m =>
      (Mask.ordinary_zipWith _ remaining m).mono hforeign
    rw [partition_cons]
    refine ((he e List.mem_cons_self).mask hbeyond c).bind fun m _ => ?_
    refine (hand m).bind fun matched _ => (hand matched.complement).bind fun left _ => ?_
    exact (ih (fun d hd => he d (List.mem_cons_of_mem e hd)) _ left).bind fun _ _ => avoids_ok _

/-- Each part belongs to one of the entries. -/
theorem mem_of_partition {c : Context} {remaining rest : Mask} {parts : List (Mask × Entry)}
    (h : partition entries c remaining = .ok (parts, rest)) :
    ∀ part ∈ parts, part.2 ∈ entries := by
  induction entries generalizing c remaining parts with
  | nil =>
    cases h
    intro part hpart
    cases hpart
  | cons e entries ih =>
    obtain ⟨_, -, matched, -, left, -, more, hmore, rfl⟩ := partition_cons_eq_ok.1 h
    intro part hpart
    rcases List.mem_cons.1 hpart with rfl | hpart
    · exact List.mem_cons_self
    · exact List.mem_cons_of_mem _ (ih hmore part hpart)

/-- Writing the pixels of an entry avoids the faults that its actions avoid, if a chunk that does
not fit does not fail with one of them. -/
theorem avoids_recolour (hbeyond : ∀ fault, bad fault → fault.BeyondBands)
    {image output : Raster} {part : Mask × Entry} (hpart : part.2.FreeOf bad) :
    Avoids bad (recolour image output part) := by
  unfold recolour
  dsimp only
  split
  · exact avoids_ok _
  · exact (hpart.apply _).bind fun chunk _ => (Raster.ofBands_scatter _ chunk).mono hbeyond

/-- What neither operators nor bands have, a mapper avoids if its predicates and transforms do. -/
theorem avoids_run {m : Mapper} (hforeign : ∀ fault, bad fault → fault.Foreign)
    (hbeyond : ∀ fault, bad fault → fault.BeyondBands) (he : ∀ e ∈ m.entries, e.FreeOf bad)
    (image : Raster) (caching : Bool) : Avoids bad (m.run image caching) := by
  have hmappable : OfBands (requireMappable image) := by
    unfold requireMappable
    split <;> simp
  refine (hmappable.mono hbeyond).bind fun _ _ => ?_
  refine (avoids_partition hforeign hbeyond he _ _).bind fun shared hshared => ?_
  refine Avoids.bind ?_ fun _ _ => avoids_ok _
  refine avoids_foldlM_of_forall (fun output part hpart => ?_) _
  exact avoids_recolour hbeyond (he _ (mem_of_partition hshared part hpart))

end Mapper

end Recolor
