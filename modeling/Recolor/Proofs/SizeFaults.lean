import Recolor.Proofs.BandFaults
import Recolor.Proofs.Checked
import Recolor.Proofs.FirstMatch
import Recolor.Proofs.PixelLocality

/-!
# Sizes always fit together

Planes and masks are combined, written into bands and used as masks only if their sizes agree, and a
chunk is put back only if it has as many pixels as were taken out. No compiled script fails on any
of this (`CompiledScript.fits_of_compile`), as long as the conversions of the colour spaces keep the
shape of images.

The reason is one invariant: every plane and mask that can be seen while an expression is evaluated
has the size of the image whose bands are bound. It holds of the bands, the global variables hold no
planes and masks at all, and operators and assignments keep it (`Proofs.Layout`). So operators find
operands of one size (`Expr.fits_evaluate`), bands take the planes that are written back
(`Bands.fits_writeBack`), and chunks come back in the shape in which they were taken.
-/

set_option autoImplicit false

namespace Recolor

/-- The fault that sizes do not fit together: those of two operands, of a plane and the image it is
written into, of a mask and the image it is for, or of a chunk and the pixels that it replaces. -/
@[simp] def Fault.OfSizes : Fault → Prop
  | .shape (.operandSizes _ _) | .shape (.bandSize _ _) | .shape (.maskSize _ _)
  | .shape (.chunkSize _ _ _ _) => True
  | _ => False

/-- The outcome is no fault of sizes. -/
abbrev Fits {α : Type} (x : Except Fault α) : Prop := Avoids Fault.OfSizes x

/-- Looking up a band does not fail on sizes. -/
theorem Fault.OfSizes.beyondLookup {fault : Fault} (h : fault.OfSizes) : fault.BeyondLookup := by
  cases fault with
  | shape cause => trivial
  | _ => cases h

/-- An outcome that can only be a fault of a lookup is none of sizes. -/
theorem OfLookup.fits {α : Type} {x : Except Fault α} (hx : OfLookup x) : Fits x :=
  hx.mono fun _ => Fault.OfSizes.beyondLookup

/-! ## Planes and masks -/

section Buffers

variable {size : Nat × Nat}

/-- Planes of one size can be combined. -/
theorem Plane.fits_zipWith {f : Number → Number → Number} {p q : Plane}
    (hp : (Value.band p).Laid (.ofSize size)) (hq : (Value.band q).Laid (.ofSize size)) :
    Fits (p.zipWith f q) := by
  have hsize : p.size = q.size := hp.1.trans hq.1.symm
  rw [zipWith_eq_ok.2 ⟨hsize, rfl⟩]
  exact avoids_ok _

/-- Planes of one size can be tested together. -/
theorem Plane.fits_testWith {f : Number → Number → Bool} {p q : Plane}
    (hp : (Value.band p).Laid (.ofSize size)) (hq : (Value.band q).Laid (.ofSize size)) :
    Fits (p.testWith f q) := by
  have hsize : p.size = q.size := hp.1.trans hq.1.symm
  rw [testWith_eq_ok.2 ⟨hsize, rfl⟩]
  exact avoids_ok _

/-- Masks of one size can be combined. -/
theorem Mask.fits_zipWith {f : Bool → Bool → Bool} {m n : Mask}
    (hm : (Value.mask m).Laid (.ofSize size)) (hn : (Value.mask n).Laid (.ofSize size)) :
    Fits (m.zipWith f n) := by
  have hsize : m.size = n.size := hm.1.trans hn.1.symm
  rw [zipWith_eq_ok.2 ⟨hsize, rfl⟩]
  exact avoids_ok _

end Buffers

/-! ## Operators -/

/-- Taking a slice of a list does not fail on sizes. -/
theorem Slice.fits_apply (s : Slice) (items : List Number) : Fits (s.apply items) := by
  unfold apply
  extract_lets step length start stop
  by_cases hup : 0 < step.toInt
  · rw [dif_pos hup]
    exact avoids_ok _
  · by_cases hdown : step.toInt < 0
    · rw [dif_neg hup, dif_pos hdown]
      exact avoids_ok _
    · rw [dif_neg hup, dif_neg hdown]
      simp

namespace Value

variable {size : Nat × Nat} {a b : Value}

/-- Calculating with values of one size does not fail on sizes. -/
theorem fits_arithmetic (op : Arithmetic) (ha : a.Laid (.ofSize size))
    (hb : b.Laid (.ofSize size)) : Fits (arithmetic op a b) := by
  unfold arithmetic
  split
  case h_2 p q => exact (Plane.fits_zipWith ha hb).map
  -- vectors have lengths and no sizes
  case h_5 =>
    split
    · split <;> simp
    · simp [mismatch]
  case h_6 => split <;> simp [mismatch]
  case h_7 => split <;> simp [mismatch]
  all_goals simp [mismatch]

/-- Comparing values of one size does not fail on sizes. -/
theorem fits_compare (op : Comparison) (ha : a.Laid (.ofSize size)) (hb : b.Laid (.ofSize size)) :
    Fits (compare op a b) := by
  unfold compare
  split
  case h_2 p q => exact (Plane.fits_testWith ha hb).map
  case h_5 => split <;> simp [mismatch]
  case h_6 m n =>
    split
    · exact (Mask.fits_zipWith ha hb).map
    · simp [mismatch]
  case h_7 =>
    split
    · split <;> simp
    · simp [mismatch]
  all_goals simp [mismatch]

/-- The demand for an integer is none on sizes. -/
theorem fits_integerOperand (sign : String) (x : Number) : Fits (integerOperand sign x) := by
  unfold integerOperand
  split <;> simp

/-- Connecting values of one size does not fail on sizes. -/
theorem fits_connect (op : Connective) (ha : a.Laid (.ofSize size)) (hb : b.Laid (.ofSize size)) :
    Fits (connect op a b) := by
  unfold connect
  split
  case h_1 m n => exact (Mask.fits_zipWith ha hb).map
  case h_5 x y =>
    refine (fits_integerOperand _ x).bind fun i _ => ?_
    exact (fits_integerOperand _ y).bind fun j _ => avoids_ok _
  all_goals simp [mismatch]

/-- Looking for a value in another does not fail on sizes. -/
theorem fits_within (a b : Value) : Fits (within a b) := by
  unfold within
  split
  · split <;> simp
  · simp

/-- Operators find planes and masks of one size. -/
theorem fits_binary (op : BinaryOp) (ha : a.Laid (.ofSize size)) (hb : b.Laid (.ofSize size)) :
    Fits (binary op a b) := by
  cases op with
  | arithmetic op => exact fits_arithmetic op ha hb
  | comparison op => exact fits_compare op ha hb
  | connective op => exact fits_connect op ha hb
  | within => exact fits_within a b

/-- Operators on a single value do not fail on sizes. -/
theorem fits_unary (op : UnaryOp) (a : Value) : Fits (unary op a) := by
  cases op with
  | negate => cases a <;> simp [unary, negate]
  | invert =>
    cases a with
    | number x => exact (fits_integerOperand _ x).bind fun i _ => avoids_ok _
    | _ => simp [unary, invert]

/-- Saturating a value does not fail on sizes. -/
theorem fits_saturate (a : Value) : Fits (saturate a) := by
  cases a <;> simp [saturate]

/-- Taking a number as an index does not fail on sizes. -/
theorem fits_indexOfNumber (x : Number) : Fits (indexOfNumber x) := by
  unfold indexOfNumber
  split <;> simp

/-- Taking an element of a list does not fail on sizes. -/
theorem fits_elementAt (items : List Number) (i : Int64) : Fits (elementAt items i) := by
  unfold elementAt
  extract_lets length place
  split <;> simp

/-- Taking a value as the list to be indexed does not fail on sizes. -/
theorem fits_indexedItems (a : Value) : Fits (indexedItems a) := by
  cases a <;> simp [indexedItems]

/-- Taking elements of a list by an index or a slice does not fail on sizes. -/
theorem fits_select (items : List Number) (b : Value) : Fits (select items b) := by
  unfold select
  split
  · exact (Slice.fits_apply _ items).map
  · exact (fits_indexOfNumber _).bind fun i _ => fits_elementAt items i
  · simp

/-- The demand for a number is none on sizes. -/
theorem fits_requireNumber (role : NumberRole) (a : Value) : Fits (a.requireNumber role) := by
  cases a <;> simp [requireNumber]

/-- Taking a value as the bound of a slice does not fail on sizes. -/
theorem fits_sliceBound (a : Value) : Fits a.sliceBound := by
  cases a with
  | number x => exact (fits_indexOfNumber x).map
  | _ => simp [sliceBound]

end Value

/-! ## Evaluation -/

section Evaluation

variable {size : Nat × Nat} {env : Environment}

/-- Where all planes and masks have one size, evaluation finds no others. -/
theorem Expr.fits_evaluate (henv : env.Laid (.ofSize size)) (e : Expr) : Fits (e.evaluate env) := by
  induction e with
  | number x => exact avoids_ok _
  | boolean b => exact avoids_ok _
  | none => exact avoids_ok _
  | var x =>
    simp only [evaluate]
    split <;> simp
  | binary op left right ihl ihr =>
    refine ihl.bind fun a ha => ihr.bind fun b hb => ?_
    have hleft : a.Laid (.ofSize size) := laid_of_evaluate henv ha
    have hright : b.Laid (.ofSize size) := laid_of_evaluate henv hb
    exact Value.fits_binary op hleft hright
  | unary op operand ih => exact ih.bind fun a _ => Value.fits_unary op a
  | range min max strictMin strictMax ihmin ihmax =>
    refine ihmin.bind fun a _ => (Value.fits_requireNumber _ a).bind fun low _ => ?_
    exact ihmax.bind fun b _ => (Value.fits_requireNumber _ b).bind fun high _ => avoids_ok _
  | slice start stop step ihstart ihstop ihstep =>
    refine (avoids_evaluateBound Value.fits_sliceBound ihstart).bind fun first _ => ?_
    refine (avoids_evaluateBound Value.fits_sliceBound ihstop).bind fun last _ => ?_
    exact (avoids_evaluateBound Value.fits_sliceBound ihstep).bind fun stride _ => avoids_ok _
  | vector items ih =>
    exact (avoids_evaluateItems (Value.fits_requireNumber _) ih).bind fun _ _ => avoids_ok _
  | index vector position ihv ihp =>
    refine ihv.bind fun a _ => (Value.fits_indexedItems a).bind fun items _ => ?_
    exact ihp.bind fun b _ => Value.fits_select items b
  | saturated inner ih => exact ih.bind fun a _ => Value.fits_saturate a

/-- An assignment of a value does not fail on sizes, whatever the value is. -/
theorem Environment.fits_assign (env : Environment) (x : Variable) (v : Value) :
    Fits (env.assign x v) := by
  cases x <;> cases v <;> simp [assign]

/-- One assignment. -/
theorem Assignment.fits_run (henv : env.Laid (.ofSize size)) (a : Assignment) :
    Fits (a.run env) :=
  (Expr.fits_evaluate henv a.value).bind fun v _ => Environment.fits_assign env a.target v

/-- A run of assignments: each keeps the sizes of the variables for the next. -/
theorem fits_execute (henv : env.Laid (.ofSize size)) (statements : List Assignment) :
    Fits (execute statements env) := by
  induction statements generalizing env with
  | nil => exact avoids_ok _
  | cons a rest ih =>
    refine (Assignment.fits_run henv a).bind fun next hnext => ?_
    have hlaid : next.Laid (.ofSize size) := Assignment.laid_of_run henv hnext
    exact ih hlaid

end Evaluation

/-! ## Bands -/

namespace Bands

variable {b : Bands} {env : Environment}

/-- A plane of the size of the raster can be written into a band. -/
theorem fits_setBand {name : String} {plane : Plane} (h : plane.size = b.raster.size) :
    Fits (b.setBand name plane) := by
  refine (ofLookup_index name).fits.bind fun i _ => Avoids.bind ?_ fun _ _ => avoids_ok _
  refine (Raster.ofLookup_requireBand i).fits.bind fun _ _ => ?_
  rw [if_pos h]
  exact avoids_ok _

/-- A value of the size of the image can be stored, unless it is of the wrong kind. -/
theorem fits_store {name : String} {value? : Option Value}
    (hvalue : ∀ v ∈ value?, v.Laid (.ofSize b.raster.size)) : Fits (b.store name value?) := by
  unfold store
  split
  case h_1 plane =>
    have hplane : (Value.band plane).Laid (.ofSize b.raster.size) := hvalue _ rfl
    exact fits_setBand hplane.1
  case h_2 x => exact (ofLookup_fillBand name x).fits
  case h_3 => simp
  case h_4 => exact avoids_ok _

/-- Variables of the size of the raster can be written into its bands, one after another. -/
theorem fits_storeAll {names : List String} (hb : b.raster.WellFormed)
    (henv : env.Laid (.ofSize b.raster.size)) : Fits (storeAll names b env) := by
  induction names generalizing b env with
  | nil => exact avoids_ok _
  | cons name rest ih =>
    have hvalue : ∀ v ∈ (env.take name).1, v.Laid (.ofSize b.raster.size) := by
      intro v hv
      exact henv.of_take (Option.mem_def.1 hv)
    refine (fits_store hvalue).bind fun next hnext => ?_
    -- the image has the same size after the value is stored
    have hlike : b.Like next := like_store hb hnext
    refine ih hlike.raster.wellFormed ?_
    rw [hlike.raster.size]
    exact henv.take name

/-- Variables of the size of the raster can be written back into it. -/
theorem fits_writeBack (hb : b.raster.WellFormed) (henv : env.Laid (.ofSize b.raster.size)) :
    Fits (b.writeBack env) := by
  refine (fits_storeAll hb henv).bind fun stored _ => ?_
  dsimp only
  split <;> simp

end Bands

/-! ## Rules -/

section Rules

variable {globals : Environment} {b : Bands} {chunk : Raster} {c : Context} {entries : List Entry}

/-- A compiled predicate does not fail on sizes, on any well-formed raster. -/
theorem Predicate.fits_select (hb : b.raster.WellFormed) (hglobals : globals.Plain) (e : Expr) :
    Fits ((Predicate.compiled e globals).select b) := by
  refine (Bands.ofLookup_environment globals).fits.bind fun env henv => ?_
  refine (Expr.fits_evaluate (Bands.laid_scope hb hglobals henv) e).bind fun v _ => ?_
  cases v <;> simp [maskOfValue]

/-- A compiled transform does not fail on sizes, on any well-formed raster. -/
theorem Transform.fits_apply (hb : b.raster.WellFormed) (hglobals : globals.Plain)
    (statements : List Assignment) : Fits ((Transform.compiled statements globals).apply b) := by
  refine (Bands.ofLookup_environment globals).fits.bind fun env henv => ?_
  have hlaid := Bands.laid_scope hb hglobals henv
  refine (fits_execute hlaid statements).bind fun final hfinal => ?_
  exact (Bands.fits_writeBack hb (laid_of_execute hlaid hfinal)).bind fun _ _ => avoids_ok _

/-- A compiled predicate answers masks of the size of what it is asked about. -/
theorem Masker.KeepsShape.fits_maskOf {k : Masker} {r : Raster} (hk : k.KeepsShape)
    (hr : r.WellFormed) : Fits (k.maskOf r) := by
  obtain ⟨expr, globals, hpredicate, hglobals⟩ := hk.predicate
  unfold Masker.maskOf
  rw [hpredicate]
  refine (Predicate.fits_select hr hglobals expr).bind fun m hm => ?_
  have hlaid := Predicate.laid_select hr hglobals hm
  have hsize : m.size = r.size := hlaid.1
  rw [if_pos hsize]
  exact avoids_ok _

/-- A masker whose conversion keeps shapes does not fail on sizes. -/
theorem Masker.KeepsShape.fits_mask {k : Masker} (hk : k.KeepsShape) (hc : c.All c.image.Like) :
    Fits (k.mask c).1 := by
  obtain ⟨hr, -, -⟩ := hc.request k.space (hk.space.encode _ hc.image.wellFormed)
  exact hk.fits_maskOf hr.wellFormed

/-- An action whose conversions keep shapes does not fail on sizes. -/
theorem Action.KeepsShape.fits_run {a : Action} (ha : a.KeepsShape) (hchunk : chunk.WellFormed) :
    Fits (a.run chunk) := by
  obtain ⟨statements, globals, htransform, hglobals⟩ := ha.transform
  have hencoded := (ha.space.encode chunk hchunk).wellFormed
  have happly : Fits (a.transform.apply ⟨a.space, a.space.encode chunk⟩) := by
    rw [htransform]
    exact Transform.fits_apply hencoded hglobals statements
  exact happly.bind fun _ _ => avoids_ok _

/-- Actions run one after another on well-formed chunks. -/
theorem Entry.KeepsShape.fits_apply {e : Entry} (he : e.KeepsShape) (hchunk : chunk.WellFormed) :
    Fits (e.apply chunk) := by
  have hround : ∀ next : Raster, next.WellFormed → ∀ a ∈ e.actions, Fits (a.run next) := by
    intro next hnext a ha
    exact (he.actions a ha).fits_run hnext
  have hkeep : ∀ next : Raster, next.WellFormed → ∀ a ∈ e.actions,
      ∀ out, a.run next = .ok out → out.WellFormed := by
    intro next hnext a ha out hout
    exact ((he.actions a ha).like_run hnext hout).wellFormed
  exact avoids_foldlM hround hkeep hchunk

end Rules

/-! ## Mapping an image -/

namespace Mapper

variable {entries : List Entry} {c : Context} {image : Raster} {fault : Fault}

/-- No masker fails on sizes, in whichever context it is asked. -/
theorem not_ofSizes_of_mem_answers (he : ∀ e ∈ entries, e.KeepsShape) (hc : c.All c.image.Like)
    (h : .error fault ∈ answers entries c) : ¬fault.OfSizes := by
  induction entries generalizing c with
  | nil => cases h
  | cons e entries ih =>
    have hfirst := (he e List.mem_cons_self).masker
    obtain ⟨-, hall, himage⟩ :=
      hc.request e.masker.space (hfirst.space.encode _ hc.image.wellFormed)
    have hnext : (e.masker.mask c).2.image = c.image := himage
    rcases List.mem_cons.1 h with h | h
    · exact hfirst.fits_mask hc fault h.symm
    · exact ih (fun e he' => he e (List.mem_cons_of_mem _ he')) (hnext.symm ▸ hall) h

/-- A mapper of compiled rules fails on an image only as one of its maskers or actions does: chunks
come back in the shape in which they were taken. -/
theorem fits_run {m : Mapper} (hm : ∀ e ∈ m.entries, e.KeepsShape) (himage : image.WellFormed)
    (caching : Bool) : Fits (m.run image caching) := by
  intro fault h
  by_cases hc : image.channels = 3 ∨ image.channels = 4
  · have hsize : ∀ e ∈ m.entries, e.masker.space.KeepsSize := by
      intro e he r hr
      exact ((hm e he).masker.space.encode r hr).size
    have hwf : m.WellFormed := fun e he => (hm e he).wellFormed
    rcases fault_of_run_eq_error hwf himage hc h with
      ⟨masks, later, hanswers, -⟩ | ⟨masks, -, k, e, mask, hk, -, -, -, hspoilt⟩ |
      ⟨masks, mask, later, hanswers, -, hother, -⟩
    · apply not_ofSizes_of_mem_answers hm (.start (.refl himage))
      rw [hanswers]
      simp
    · have he := hm e (List.mem_of_getElem? hk)
      have hc' : image.channels ≠ 0 := by omega
      have hgathered := himage.gather hc' (mask.without (masks.take k))
      cases hspoilt with
      | action happly => exact he.fits_apply hgathered fault happly
      | chunk happly hshape =>
        have hlike := he.like_apply hgathered happly
        have harea := hshape.resolve_left fun hne => hne hlike.channels
        exact absurd hlike.area_eq harea
    · have hmem : .ok mask ∈ answers m.entries (.start image caching) := by simp [hanswers]
      exact absurd (size_of_mem_answers_start hwf hsize himage hmem) hother
  · simp only [run, requireMappable, if_neg hc, error_bind] at h
    cases h
    simp

end Mapper

/-! ## Scripts -/

namespace CompiledScript

variable {source : String} {registry : Registry} {config : Config} {s : CompiledScript}

/-- The conversions of a compiled script keep shapes if those of the registry do. -/
theorem keepsShape_of_compile_eq_ok (hspaces : ∀ space ∈ registry.spaces, space.KeepsShape)
    (h : compile source registry config = .ok s) : ∀ e ∈ s.mapper.entries, e.KeepsShape := by
  intro e he
  obtain ⟨hglobals, ⟨⟨expr, hpredicate⟩, hspace⟩, hactions⟩ := compiled_of_mem_entries h he
  refine ⟨⟨⟨expr, _, hpredicate, hglobals⟩, hspaces _ hspace⟩, fun a ha => ?_⟩
  obtain ⟨⟨statements, htransform⟩, hspace⟩ := hactions a ha
  exact ⟨⟨statements, _, htransform, hglobals⟩, hspaces _ hspace⟩

/-- The check of the alpha policy does not fail on sizes. -/
theorem fits_checkAlpha (policy : AlphaPolicy) (image : Raster) :
    Fits (checkAlpha policy image) := by
  unfold checkAlpha
  split <;> simp

/-- A compiled script never fails on sizes: not on those of operands, not on that of a plane it
writes back, not on that of the mask of a rule, and not on that of a chunk. All that is asked of the
registry is that its conversions keep the width, the height and the channels of an image. -/
theorem fits_of_compile (hspaces : ∀ space ∈ registry.spaces, space.KeepsShape)
    (hs : compile source registry config = .ok s) {image : Raster} (himage : image.WellFormed) :
    (∀ caching, Fits (s.run image caching)) ∧ ∀ other, Fits (s.runWith image other) := by
  have hentries := keepsShape_of_compile_eq_ok hspaces hs
  constructor
  · intro caching
    exact (fits_checkAlpha _ image).bind fun _ _ => Mapper.fits_run hentries himage caching
  · intro other
    exact (fits_checkAlpha _ image).bind fun _ _ => Mapper.fits_run hentries himage _

/-- A script that combines planes and masks, writes planes back in two spaces, and reads a variable
that nothing binds. -/
def wanting : String :=
  "on hsv pixels having ($h < $s) | ($v > 0.5) do $v = $v * $s; using rgb: $r = $g + $missing; end;"

/-- It fails on an image, but not on sizes. -/
theorem fits_of_compile_wanting :
    ∃ s fault, compile wanting .standard = .ok s ∧
      s.run ⟨2, 1, 3, [[0, 0.5, 1], [1, 1, 0]]⟩ true = .error fault ∧ ¬fault.OfSizes := by
  have hok : (compile wanting .standard >>= fun s =>
      match s.run ⟨2, 1, 3, [[0, 0.5, 1], [1, 1, 0]]⟩ true with
      | .ok _ => .error (.config (.invalid ""))
      | .error _ => .ok ()).isOk = true := by decide +kernel
  obtain ⟨_, hok⟩ := exists_of_isOk hok
  obtain ⟨s, hs, hok⟩ := bind_eq_ok.1 hok
  have hspaces : ∀ space ∈ Registry.standard.spaces, space.KeepsShape := by
    intro space hspace
    exact (Registry.pixelwise_of_mem_standard hspace).keepsShape
  have himage : (⟨2, 1, 3, [[0, 0.5, 1], [1, 1, 0]]⟩ : Raster).WellFormed := by
    simp [Raster.WellFormed]
  split at hok
  next => cases hok
  next fault hrun =>
    exact ⟨s, fault, hs, hrun, (fits_of_compile hspaces hs himage).1 true fault hrun⟩

end CompiledScript

end Recolor
