import Recolor.Proofs.Cell
import Recolor.Proofs.Rules

/-!
# Compiled rules keep the shape of images

If the conversions of colour spaces keep the size and the channels of an image
(`ColorSpace.KeepsShape`), so does what a compiled rule does: its mask has the size of the image
(`Masker.KeepsShape.laid_mask`), and its actions answer chunks of the shape of the chunk that they
are given (`Entry.KeepsShape.like_apply`). The planes and masks that its expressions meet all come
from bands, because the global variables of a script are no planes and masks.
-/

set_option autoImplicit false

namespace Recolor

/-- Both conversions keep the width, the height and the channels of an image. -/
structure ColorSpace.KeepsShape (s : ColorSpace) : Prop where
  encode : ∀ r : Raster, r.WellFormed → r.Like (s.encode r)
  decode : ∀ r : Raster, r.WellFormed → r.Like (s.decode r)

/-- The masker is compiled over variables that are no planes and masks, for a space whose
conversions keep the shape of images. -/
structure Masker.KeepsShape (k : Masker) : Prop where
  predicate : ∃ expr globals, k.predicate = .compiled expr globals ∧ globals.Plain
  space : k.space.KeepsShape

/-- The action is compiled over variables that are no planes and masks, for a space whose
conversions keep the shape of images. -/
structure Action.KeepsShape (a : Action) : Prop where
  transform : ∃ statements globals, a.transform = .compiled statements globals ∧ globals.Plain
  space : a.space.KeepsShape

/-- All rules of the entry are compiled, for spaces whose conversions keep the shape of images. -/
structure Entry.KeepsShape (e : Entry) : Prop where
  masker : e.masker.KeepsShape
  actions : ∀ a ∈ e.actions, a.KeepsShape

variable {r chunk : Raster} {m : Mask} {globals : Environment}

/-- Conversions that keep the shape of images make well-formed images. -/
theorem ColorSpace.KeepsShape.wellFormed {s : ColorSpace} (h : s.KeepsShape) : s.WellFormed :=
  ⟨fun r hr => (h.encode r hr).wellFormed, fun r hr => (h.decode r hr).wellFormed⟩

/-- All planes and masks in the scope over an image have the size of the image. -/
theorem Bands.laid_scope {b : Bands} {env : Environment} (h : b.raster.WellFormed)
    (hglobals : globals.Plain) (henv : b.environment globals = .ok env) :
    env.Laid (.ofSize b.raster.size) :=
  laid_environment (fun _ _ hband => laid_band h hband) (hglobals.laid _) henv

/-- A compiled predicate answers masks of the size of the image. -/
theorem Predicate.laid_select {b : Bands} {expr : Expr} (h : b.raster.WellFormed)
    (hglobals : globals.Plain) (hm : (Predicate.compiled expr globals).select b = .ok m) :
    (Value.mask m).Laid (.ofSize b.raster.size) := by
  obtain ⟨env, henv, hm⟩ := bind_eq_ok.1 hm
  obtain ⟨v, hv, hm⟩ := bind_eq_ok.1 hm
  have hlaid : v.Laid (.ofSize b.raster.size) :=
    Expr.laid_of_evaluate (Bands.laid_scope h hglobals henv) hv
  cases v with
  | mask m' =>
    cases hm
    exact hlaid
  | boolean b' =>
    cases hm
    exact ⟨rfl, by simp [Mask.filled]⟩
  | _ => cases hm

/-- A compiled transform keeps the shape of the image. -/
theorem Transform.like_apply {b : Bands} {statements : List Assignment} (h : b.raster.WellFormed)
    (hr : (Transform.compiled statements globals).apply b = .ok r) : b.raster.Like r := by
  obtain ⟨env, -, hr⟩ := bind_eq_ok.1 hr
  obtain ⟨final, -, hr⟩ := bind_eq_ok.1 hr
  obtain ⟨c, hc, hr⟩ := bind_eq_ok.1 hr
  cases hr
  exact (Bands.like_writeBack h hc).raster

/-- A compiled action keeps the shape of its chunk. -/
theorem Action.KeepsShape.like_run {a : Action} (ha : a.KeepsShape) (hchunk : chunk.WellFormed)
    (h : a.run chunk = .ok r) : chunk.Like r := by
  obtain ⟨statements, globals, htransform, -⟩ := ha.transform
  obtain ⟨changed, hchanged, h⟩ := bind_eq_ok.1 h
  cases h
  rw [htransform] at hchanged
  have hencoded := ha.space.encode chunk hchunk
  have hlike := hencoded.trans (Transform.like_apply hencoded.wellFormed hchanged)
  exact hlike.trans (ha.space.decode changed hlike.wellFormed)

namespace Entry.KeepsShape

variable {e : Entry}

/-- A compiled entry over spaces that keep the shape is well formed. -/
theorem wellFormed (he : e.KeepsShape) : e.WellFormed := by
  refine ⟨⟨?_, he.masker.space.wellFormed⟩, fun a ha => ⟨?_, (he.actions a ha).space.wellFormed⟩⟩
  · obtain ⟨expr, globals, hpredicate, hglobals⟩ := he.masker.predicate
    rw [hpredicate]
    exact hglobals.laid .full
  · obtain ⟨statements, globals, htransform, -⟩ := (he.actions a ha).transform
    rw [htransform]
    trivial

/-- Compiled actions, run one after another, keep the shape of their chunk. -/
theorem like_apply (he : e.KeepsShape) (hchunk : chunk.WellFormed) (h : e.apply chunk = .ok r) :
    chunk.Like r := by
  have hactions := he.actions
  unfold Entry.apply at h
  generalize e.actions = actions at h hactions
  induction actions generalizing chunk with
  | nil =>
    cases h
    exact .refl hchunk
  | cons a rest ih =>
    obtain ⟨next, hnext, hrest⟩ := bind_eq_ok.1 h
    have hlike := (hactions a List.mem_cons_self).like_run hchunk hnext
    exact hlike.trans (ih hlike.wellFormed hrest fun b hb => hactions b (List.mem_cons_of_mem _ hb))

end Entry.KeepsShape

/-- A mask that a compiled masker answers has the size of the image, whatever a context remembers of
it. -/
theorem Masker.KeepsShape.laid_mask {k : Masker} {c : Context} (hk : k.KeepsShape)
    (hc : c.All c.image.Like) (h : (k.mask c).1 = .ok m) :
    (Value.mask m).Laid (.ofSize c.image.size) := by
  obtain ⟨hr, -, -⟩ := hc.request k.space (hk.space.encode _ hc.image.wellFormed)
  obtain ⟨expr, globals, hpredicate, hglobals⟩ := hk.predicate
  have hmask : k.maskOf (c.request k.space).1 = .ok m := h
  obtain ⟨hselect, -⟩ := maskOf_eq_ok.1 hmask
  rw [hpredicate] at hselect
  have hlaid : (Value.mask m).Laid (.ofSize (c.request k.space).1.size) :=
    Predicate.laid_select hr.wellFormed hglobals hselect
  rwa [hr.size] at hlaid

end Recolor
