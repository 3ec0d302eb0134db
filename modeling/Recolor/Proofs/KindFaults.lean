import Recolor.Proofs.BandFaults
import Recolor.Proofs.Checked

/-!
# Faults that the parser rules out

A vector that is assigned to `$name`, another value that is assigned to `$$name`, and an index
behind a value that is no vector are faults of evaluation, but no script that the parser accepts
comes to them (`CompiledScript.spared_of_parse`). An outcome is `Spared` if it is none of them. All
steps that look at no variable are spared whatever they work on, because neither operators nor bands
have these faults (`Ordinary.spared`, `Mapper.avoids_run`). Evaluation is spared for expressions
that pass the checks of the parser, in environments that bind no vector and no slice to `$name`;
assignments that pass these checks leave such environments behind, and bands are bound to planes.
-/

set_option autoImplicit false

namespace Recolor

/-- The fault of assigning a vector to `$name` or anything else to `$$name`, or of indexing what is
no vector. -/
@[simp] def Fault.RuledOut : Fault → Prop
  | .type (.vectorToScalar _) | .type (.assignedKind _ _) | .type (.indexedKind _)
  | .type .notIndexable => True
  | _ => False

/-- The outcome is no fault that the parser rules out. -/
def Spared {α : Type} (x : Except Fault α) : Prop :=
  ∀ fault, x = .error fault → ¬fault.RuledOut

section Outcomes

variable {α β : Type} {x : Except Fault α}

/-- An answer is spared. -/
@[simp] theorem spared_ok (a : α) : Spared (.ok a) := avoids_ok a

/-- A fault is spared if it is none of those that the parser rules out. -/
@[simp] theorem spared_error {fault : Fault} :
    Spared (.error fault : Except Fault α) ↔ ¬fault.RuledOut := avoids_error

/-- Two steps are spared if the first is, and the second on each answer of the first. -/
theorem Spared.bind {f : α → Except Fault β} (hx : Spared x)
    (hf : ∀ a, x = .ok a → Spared (f a)) : Spared (x >>= f) := Avoids.bind hx hf

/-- A step for each item of a list is spared if it is for each item. -/
theorem spared_mapM {f : α → Except Fault β} {as : List α} (h : ∀ a ∈ as, Spared (f a)) :
    Spared (as.mapM f) := avoids_mapM h

end Outcomes

/-- No fault that the parser rules out is one of an operator. -/
theorem Fault.RuledOut.foreign {fault : Fault} (h : fault.RuledOut) : fault.Foreign := by
  cases fault with
  | type cause => cases cause <;> simp_all
  | _ => cases h

/-- No fault that the parser rules out is one of bands. -/
theorem Fault.RuledOut.beyondBands {fault : Fault} (h : fault.RuledOut) : fault.BeyondBands := by
  cases fault with
  | type cause => cases cause <;> simp_all
  | _ => cases h

/-- What operators alone may fail with is spared. -/
theorem Ordinary.spared {α : Type} {x : Except Fault α} (hx : Ordinary x) : Spared x :=
  hx.mono fun _ => Fault.RuledOut.foreign

/-! ## Evaluation -/

namespace Expr

variable {env : Environment} {lengths : Lengths}

/-- An expression that passes the checks of the parser is spared, whatever lengths these were made
with: what is indexed was taken for a vector, and is one. -/
theorem spared_evaluate {e : Expr} (he : e.WellShaped lengths) (henv : env.Agrees []) :
    Spared (e.evaluate env) := by
  induction he with
  | number x => exact spared_ok _
  | boolean b => exact spared_ok _
  | none => exact spared_ok _
  | «variable» v =>
    simp only [evaluate]
    split <;> simp
  | binary _ _ _ ihl ihr =>
    exact ihl.bind fun a _ => ihr.bind fun b _ => (Value.ordinary_binary _ a b).spared
  | unary _ ih => exact ih.bind fun a _ => (Value.ordinary_unary _ a).spared
  | range _ _ _ _ ihmin ihmax =>
    refine ihmin.bind fun a _ => (Value.ordinary_requireNumber _ a).spared.bind fun low _ => ?_
    refine ihmax.bind fun b _ => (Value.ordinary_requireNumber _ b).spared.bind fun high _ => ?_
    exact spared_ok _
  | slice _ _ _ ihstart ihstop ihstep =>
    have hslice := fun a => (Value.ordinary_sliceBound a).spared
    refine (avoids_evaluateBound hslice ihstart).bind fun first _ => ?_
    refine (avoids_evaluateBound hslice ihstop).bind fun last _ => ?_
    exact (avoids_evaluateBound hslice ihstep).bind fun stride _ => spared_ok _
  | vector _ _ ih =>
    refine (avoids_evaluateItems (fun a => ?_) ih).bind fun _ _ => spared_ok _
    exact (Value.ordinary_requireNumber _ a).spared
  | index _ _ hshape ihvector ihposition =>
    refine ihvector.bind fun a ha => ?_
    have hvector : a.isVector = true := (isVector_of_evaluate henv ha).trans hshape
    obtain ⟨items, rfl⟩ := Value.isVector_eq_true.1 hvector
    refine (spared_ok items).bind fun xs _ => ?_
    exact ihposition.bind fun b _ => (Value.ordinary_select xs b).spared
  | saturated _ ih => exact ih.bind fun a _ => (Value.ordinary_saturate a).spared

end Expr

section Run

variable {env : Environment} {lengths : Lengths}

/-- A checked assignment is spared: the variable takes the value of the right side. -/
theorem Assignment.spared_run {a : Assignment} (ha : a.Checked lengths) (henv : env.Agrees []) :
    Spared (a.run env) := by
  refine (Expr.spared_evaluate ha.wellShaped henv).bind fun v hv => ?_
  obtain ⟨next, hassign⟩ := ha.exists_assign henv hv
  rw [hassign]
  exact spared_ok _

/-- Statements that pass the checks of the parser run spared, from an environment that binds no
vectors to scalar names. -/
theorem spared_execute {statements : List Assignment} (hstatements : CheckedAll lengths statements)
    (henv : env.Agrees []) : Spared (execute statements env) := by
  induction statements generalizing env lengths with
  | nil => exact spared_ok _
  | cons a rest ih =>
    refine (Assignment.spared_run hstatements.1 henv).bind fun next hnext => ?_
    exact ih hstatements.2 (Assignment.agrees_nil_of_run hstatements.1 henv hnext)

end Run

/-! ## Bands -/

namespace Bands

variable {b : Bands} {env : Environment}

/-- Bands are planes, so that no band is a vector or a slice. -/
theorem agrees_nil_of_bindAll {names : List String} {final : Environment} (henv : env.Agrees [])
    (h : b.bindAll names env = .ok final) : final.Agrees [] := by
  induction names generalizing env with
  | nil =>
    cases h
    exact henv
  | cons name rest ih =>
    obtain ⟨plane, -, h⟩ := bind_eq_ok.1 h
    exact ih (henv.bind ⟨rfl, rfl⟩) h

/-- The scope of a rule binds no vectors to scalar names if the global variables do not. -/
theorem agrees_nil_of_environment {globals : Environment} (hglobals : globals.Agrees [])
    (h : b.environment globals = .ok env) : env.Agrees [] :=
  agrees_nil_of_bindAll hglobals.child h

end Bands

/-! ## Entries of a script -/

/-- Whatever bands the predicate sees, it is spared. -/
def Predicate.Spares (p : Predicate) : Prop := ∀ b, Spared (p.select b)

/-- Whatever bands the transform sees, it is spared. -/
def Transform.Spares (t : Transform) : Prop := ∀ b, Spared (t.apply b)

/-- The predicate and all actions of the entry are spared. -/
structure Entry.Spares (e : Entry) : Prop where
  masker : e.masker.predicate.Spares
  actions : ∀ a ∈ e.actions, a.transform.Spares

section Entries

variable {globals : Environment} {lengths : Lengths}

/-- A compiled predicate of a checked expression is spared over any bands. -/
theorem Predicate.spares_compiled {e : Expr} (he : e.WellShaped lengths)
    (hglobals : globals.Agrees []) : (Predicate.compiled e globals).Spares := by
  intro b
  refine Predicate.avoids_compiled (fun _ => Fault.RuledOut.beyondBands) fun env henv => ?_
  exact Expr.spared_evaluate he (Bands.agrees_nil_of_environment hglobals henv)

/-- A compiled transform of checked statements is spared over any bands. -/
theorem Transform.spares_compiled {statements : List Assignment}
    (hstatements : CheckedAll lengths statements) (hglobals : globals.Agrees []) :
    (Transform.compiled statements globals).Spares := by
  intro b
  refine Transform.avoids_compiled (fun _ => Fault.RuledOut.beyondBands) fun env henv => ?_
  exact spared_execute hstatements (Bands.agrees_nil_of_environment hglobals henv)

/-- A space that is not registered is no fault that the parser rules out. -/
theorem Registry.spared_resolve (registry : Registry) (key : String) :
    Spared (registry.resolve key) := by
  unfold resolve
  split <;> simp

namespace CompiledScript

variable {registry : Registry}

/-- Compiling a rule is spared, since it looks up spaces only. -/
theorem spared_entry (r : Rule) : Spared (entry registry globals r) := by
  refine (registry.spared_resolve r.space).bind fun space _ => ?_
  refine Spared.bind (spared_mapM fun block _ => ?_) fun _ _ => spared_ok _
  exact (registry.spared_resolve block.space).bind fun _ _ => spared_ok _

/-- A rule that passes the checks of the parser, with whatever lengths, becomes an entry that is
spared. -/
theorem spares_of_entry {r : Rule} {e : Entry} (hr : r.Checked lengths)
    (hglobals : globals.Agrees []) (h : entry registry globals r = .ok e) : e.Spares := by
  obtain ⟨hpredicate, -, hactions⟩ := of_entry_eq_ok h
  constructor
  · rw [hpredicate]
    exact Predicate.spares_compiled hr.predicate hglobals
  · intro a ha
    obtain ⟨block, hblock, htransform, -⟩ := hactions a ha
    rw [htransform]
    exact Transform.spares_compiled (hr.blocks block hblock) hglobals

end CompiledScript

end Entries

/-! ## Mapping an image -/

/-- A mapper whose entries are spared is spared on any image. -/
theorem Mapper.spared_run {m : Mapper} (he : ∀ e ∈ m.entries, e.Spares) (image : Raster)
    (caching : Bool) : Spared (m.run image caching) :=
  avoids_run (fun _ => Fault.RuledOut.foreign) (fun _ => Fault.RuledOut.beyondBands)
    (fun e h => ⟨(he e h).masker, (he e h).actions⟩) image caching

/-! ## Scripts -/

namespace CompiledScript

variable {source : String} {registry : Registry} {config : Config} {s : CompiledScript}
  {lexed : Lexed} {program : Program} {warnings : Diagnostics}

/-- What an image is refused for under an alpha policy is no fault that the parser rules out. -/
theorem spared_checkAlpha (policy : AlphaPolicy) (image : Raster) :
    Spared (checkAlpha policy image) := by
  unfold checkAlpha
  split <;> simp

/-- The global variables of a script that is read bind no vector and no slice to `$name`, and all
of its entries are spared. -/
theorem spares_of_ofProgram {diagnostics : Diagnostics}
    (hparse : Program.parse lexed.tokens = .ok (program, warnings))
    (hs : ofProgram program diagnostics registry config = .ok s) :
    s.globals.Agrees [] ∧ ∀ e ∈ s.mapper.entries, e.Spares := by
  obtain ⟨final, hread⟩ := Program.read_of_parse hparse
  obtain ⟨hglobals, hentries⟩ := of_ofProgram_eq_ok hs
  have hagrees : s.globals.Agrees [] :=
    agrees_nil_of_execute hread.checkedAll.1 Environment.agrees_empty hglobals
  refine ⟨hagrees, fun e he => ?_⟩
  obtain ⟨r, hr, hentry⟩ := exists_of_mem_mapM hentries he
  obtain ⟨lengths, hchecked⟩ := hread.checked_of_mem_rules hr
  exact spares_of_entry hchecked hagrees hentry

/-- Once the parser has accepted a script, the faults of assigning or indexing a value of the wrong
kind do not come up any more: not when the script is compiled, and not when it runs on an image,
with its own options or with others. -/
theorem spared_of_parse (hlexed : readTokens source config.strictLexing = .ok lexed)
    (hparse : Program.parse lexed.tokens = .ok (program, warnings)) :
    Spared (compile source registry config) ∧
      ∀ s, compile source registry config = .ok s → ∀ image,
        (∀ caching, Spared (s.run image caching)) ∧ ∀ other, Spared (s.runWith image other) := by
  rw [compile_of_parse hlexed hparse]
  constructor
  · obtain ⟨final, hread⟩ := Program.read_of_parse hparse
    refine (spared_execute hread.checkedAll.1 Environment.agrees_empty).bind fun globals _ => ?_
    exact (spared_mapM fun r _ => spared_entry r).bind fun _ _ => spared_ok _
  · intro s hs image
    obtain ⟨-, hentries⟩ := spares_of_ofProgram hparse hs
    constructor
    · intro caching
      exact (spared_checkAlpha _ image).bind fun _ _ => Mapper.spared_run hentries image caching
    · intro other
      exact (spared_checkAlpha _ image).bind fun _ _ => Mapper.spared_run hentries image _

/-- The rule of this script fails on every image, but not on the kind of what it indexes. -/
theorem spared_of_parse_outOfRange :
    ∃ s fault, compile "on pixels having [1][3] > 0 do $r = 1; end;" .standard = .ok s ∧
      s.run ⟨1, 1, 3, [[0, 0, 0]]⟩ true = .error fault ∧ ¬fault.RuledOut := by
  have hok : (compile "on pixels having [1][3] > 0 do $r = 1; end;" .standard >>= fun s =>
      match s.run ⟨1, 1, 3, [[0, 0, 0]]⟩ true with
      | .ok _ => .error (.config (.invalid ""))
      | .error _ => .ok ()).isOk = true := by decide +kernel
  obtain ⟨_, hok⟩ := exists_of_isOk hok
  obtain ⟨s, hs, hok⟩ := bind_eq_ok.1 hok
  obtain ⟨lexed, hlexed, hprogram⟩ := bind_eq_ok.1 hs
  obtain ⟨⟨program, warnings⟩, hparse, -⟩ := bind_eq_ok.1 hprogram
  split at hok
  next => cases hok
  next fault hrun =>
    exact ⟨s, fault, hs, hrun, ((spared_of_parse hlexed hparse).2 s hs _).1 true fault hrun⟩

end CompiledScript

end Recolor
