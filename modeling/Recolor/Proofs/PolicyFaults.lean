import Recolor.Proofs.BandFaults
import Recolor.Proofs.OccurringVariables
import Recolor.Proofs.PixelLocality

/-!
# The faults of the alpha policy

That an image lacks the alpha band that is required, or has one that is forbidden, is found out by
`CompiledScript.checkAlpha` alone. The rules of a script can fail in many ways, but not in these:
an outcome is `Permitted` if it is neither fault, and so are all steps of a mapper whose rules come
from a script. Hence a script fails with one of the two exactly if its policy says so
(`CompiledScript.runWith_eq_error_iff`), whatever its rules do.
-/

set_option autoImplicit false

namespace Recolor

/-- The fault of an image that does not have the alpha band required, or has one forbidden. -/
@[simp] def Fault.OfPolicy : Fault → Prop
  | .image .alphaRequired | .image .alphaForbidden => True
  | _ => False

/-- The outcome is no fault of an alpha policy. -/
abbrev Permitted {α : Type} (x : Except Fault α) : Prop := Avoids Fault.OfPolicy x

/-- Values do not fail on the alpha policy. -/
theorem Fault.OfPolicy.foreign {fault : Fault} (h : fault.OfPolicy) : fault.Foreign := by
  cases fault with
  | image cause => trivial
  | _ => cases h

/-- Images and bands do not fail on the alpha policy either. -/
theorem Fault.OfPolicy.beyondBands {fault : Fault} (h : fault.OfPolicy) : fault.BeyondBands := by
  cases fault with
  | image cause => cases cause <;> simp_all
  | _ => cases h

/-! ## Compiled rules -/

/-- An expression does not fail on the alpha policy, whatever the variables are. -/
theorem Expr.permitted_evaluate (env : Environment) (e : Expr) : Permitted (e.evaluate env) := by
  refine avoids_evaluate (fun _ => Fault.OfPolicy.foreign) (fun a => ?_) fun _ _ _ => id
  cases a <;> simp [Value.indexedItems]

/-- Assignments do not fail on the alpha policy. -/
theorem permitted_execute (statements : List Assignment) (env : Environment) :
    Permitted (execute statements env) := by
  induction statements generalizing env with
  | nil => exact avoids_ok _
  | cons a rest ih =>
    refine Avoids.bind ?_ fun next _ => ih next
    refine (Expr.permitted_evaluate env a.value).bind fun v _ => ?_
    unfold Environment.assign
    split <;> simp

/-- Predicate and actions come from a script, over any variables. -/
structure Entry.Compiled (e : Entry) : Prop where
  masker : ∃ expr globals, e.masker.predicate = .compiled expr globals
  actions : ∀ a ∈ e.actions, ∃ statements globals, a.transform = .compiled statements globals

/-- A rule that comes from a script brings the faults of its expressions and assignments, and of no
policy. -/
theorem Entry.Compiled.freeOf {e : Entry} (he : e.Compiled) : e.FreeOf Fault.OfPolicy := by
  have hbeyond : ∀ fault : Fault, fault.OfPolicy → fault.BeyondBands := fun _ =>
    Fault.OfPolicy.beyondBands
  constructor
  · intro b
    obtain ⟨expr, globals, hpredicate⟩ := he.masker
    rw [hpredicate]
    exact Predicate.avoids_compiled hbeyond fun env _ => Expr.permitted_evaluate env expr
  · intro a ha b
    obtain ⟨statements, globals, htransform⟩ := he.actions a ha
    rw [htransform]
    exact Transform.avoids_compiled hbeyond fun env _ => permitted_execute statements env

/-- Rules that come from a script do not fail on the alpha policy. -/
theorem Mapper.permitted_run {m : Mapper} (he : ∀ e ∈ m.entries, e.Compiled) (image : Raster)
    (caching : Bool) : Permitted (m.run image caching) :=
  avoids_run (fun _ => Fault.OfPolicy.foreign) (fun _ => Fault.OfPolicy.beyondBands)
    (fun e h => (he e h).freeOf) image caching

/-! ## Scripts -/

namespace CompiledScript

variable {s : CompiledScript} {source : String} {registry : Registry} {config : Config}
  {policy : AlphaPolicy} {image : Raster} {fault : Fault}

/-- The rules of a compiled script come from that script. -/
theorem compiled_entries (h : compile source registry config = .ok s) :
    ∀ e ∈ s.mapper.entries, e.Compiled := by
  intro e he
  obtain ⟨-, ⟨⟨expr, hpredicate⟩, -⟩, hactions⟩ := compiled_of_mem_entries h he
  refine ⟨⟨expr, _, hpredicate⟩, fun a ha => ?_⟩
  obtain ⟨⟨statements, htransform⟩, -⟩ := hactions a ha
  exact ⟨statements, _, htransform⟩

/-- The check finds that alpha is missing exactly if it is required and the image has none. -/
theorem checkAlpha_eq_required :
    checkAlpha policy image = .error (.image .alphaRequired) ↔
      policy = .require ∧ image.hasAlpha = false := by
  unfold checkAlpha
  cases policy <;> cases image.hasAlpha <;> simp

/-- The check finds that alpha is forbidden exactly if the policy forbids it and the image has
one. -/
theorem checkAlpha_eq_forbidden :
    checkAlpha policy image = .error (.image .alphaForbidden) ↔
      policy = .forbid ∧ image.hasAlpha = true := by
  unfold checkAlpha
  cases policy <;> cases image.hasAlpha <;> simp

/-- The check of the policy is the only step of a script at which it fails on the policy. -/
theorem runWith_eq_error_iff (he : ∀ e ∈ s.mapper.entries, e.Compiled) (hfault : fault.OfPolicy) :
    s.runWith image config = .error fault ↔
      checkAlpha (config.alpha.getD s.alpha) image = .error fault := by
  constructor
  · intro h
    rcases bind_eq_error.1 h with hcheck | ⟨-, -, hrun⟩
    · exact hcheck
    · exact absurd hfault (Mapper.permitted_run he image _ fault hrun)
  · intro hcheck
    rw [runWith, hcheck, error_bind]

/-- A script that fails on the policy does so whatever rules it has, native ones included. -/
theorem runWith_eq_error_anyway (he : ∀ e ∈ s.mapper.entries, e.Compiled) (hfault : fault.OfPolicy)
    (h : s.runWith image config = .error fault) (mapper : Mapper) :
    ({ s with mapper := mapper } : CompiledScript).runWith image config = .error fault := by
  have hcheck := (runWith_eq_error_iff he hfault).1 h
  rw [runWith, hcheck, error_bind]

end CompiledScript

end Recolor
