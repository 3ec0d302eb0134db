import Recolor.Proofs.Checked
import Recolor.Proofs.Partition

/-!
# Caching does not show

A context answers a request from its memory if it can, and what it remembers is known by the key of
a space only. As long as all spaces that are asked for come from one registry, which has one space
for each key, whatever is remembered under a key is what the space of that key makes of the image
(`Context.Faithful`). So a context answers each request as if it remembered nothing
(`Context.Faithful.request`), the maskers of a mapper answer alike with and without caching, and so
does a run.
-/

set_option autoImplicit false

namespace Recolor

/-! ## Spaces of a registry -/

namespace Registry

variable {registry : Registry} {s t : ColorSpace} {key : String}

/-- The space is the one that the registry has for its key. -/
def Holds (registry : Registry) (s : ColorSpace) : Prop := registry.get? s.key = some s

/-- A registry has one space for each key. -/
theorem Holds.eq_of_key (hs : registry.Holds s) (ht : registry.Holds t) (h : s.key = t.key) :
    s = t := by
  have hsome : some s = some t := by
    rw [← hs, ← ht, h]
  exact Option.some.inj hsome

/-- What a registry finds under a key is held by it, and has that key. -/
theorem get?_eq_some (h : registry.get? key = some s) : registry.Holds s ∧ s.key = key := by
  have hkey : s.key = key := by
    have hfound := @List.find?_some _ (fun t : ColorSpace => t.key == key) s registry.spaces h
    exact beq_iff_eq.1 hfound
  refine ⟨?_, hkey⟩
  rw [Holds, hkey]
  exact h

/-- What a name is resolved to is held by the registry, under that name. -/
theorem holds_of_resolve (h : registry.resolve key = .ok s) : registry.Holds s ∧ s.key = key := by
  unfold resolve at h
  split at h
  next found hfound =>
    cases h
    exact get?_eq_some hfound
  next => cases h

end Registry

/-! ## Contexts -/

/-- The image in the space, as a context answers it that remembers nothing. -/
def ColorSpace.represent (s : ColorSpace) (image : Raster) : Raster :=
  if s.isIdentity then image else s.encode image

namespace Context

variable {registry : Registry} {c d : Context} {s : ColorSpace} {image : Raster} {caching : Bool}

/-- What is remembered under the key of a space that the registry holds is what this space makes of
the image. -/
structure Faithful (c : Context) (registry : Registry) : Prop where
  cache : ∀ entries, c.cache = some entries → ∀ entry ∈ entries,
    ∀ s, registry.Holds s → s.key = entry.1 → entry.2 = s.encode c.image
  last : ∀ entry, c.last = some entry →
    ∀ s, registry.Holds s → s.key = entry.1 → entry.2 = s.encode c.image

/-- A context of which nothing has been asked remembers nothing wrong. -/
theorem Faithful.start : (start image caching).Faithful registry where
  cache := by
    intro entries hentries entry hentry
    cases caching with
    | false => cases hentries
    | true =>
      cases hentries
      cases hentry
  last := by
    intro entry hentry
    cases hentry

/-- What a faithful context has cached under the key of a space is the image in that space. -/
theorem Faithful.cached?_eq_some (h : c.Faithful registry) (hs : registry.Holds s) {r : Raster}
    (hr : c.cached? s.key = some r) : r = s.encode c.image := by
  obtain ⟨entries, hentries, hlookup⟩ := Option.bind_eq_some_iff.1 hr
  obtain ⟨before, after, heq, -⟩ := List.lookup_eq_some_iff.1 hlookup
  have hmem : (s.key, r) ∈ entries := by simp [heq]
  exact h.cache entries hentries (s.key, r) hmem s hs rfl

/-- What a faithful context answered last under the key of a space is the image in that space. -/
theorem Faithful.last?_eq_some (h : c.Faithful registry) (hs : registry.Holds s) {r : Raster}
    (hr : c.last? s.key = some r) : r = s.encode c.image := by
  unfold last? at hr
  split at hr
  next key found hlast =>
    split at hr
    next hkey =>
      cases hr
      exact h.last (key, r) hlast s hs hkey.symm
    next => cases hr
  next => cases hr

/-- A context stays faithful when it takes the image in a space for its last answer. -/
theorem Faithful.remember (h : c.Faithful registry) (hs : registry.Holds s) :
    ({ c with last := some (s.key, s.encode c.image) } : Context).Faithful registry where
  cache := h.cache
  last := by
    intro entry hentry t ht hkey
    cases hentry
    rw [ht.eq_of_key hs hkey]

/-- A conversion is remembered under the key of its space, which no other space of the registry
has. -/
theorem Faithful.convert (h : c.Faithful registry) (hs : registry.Holds s) :
    (c.convert s).2.Faithful registry where
  cache := by
    intro entries hentries entry hentry t ht hkey
    obtain ⟨known, hknown, rfl⟩ := Option.map_eq_some_iff.1 hentries
    -- the conversion stands in front of what was known before
    rcases List.mem_cons.1 hentry with heq | hentry
    · rw [heq] at hkey ⊢
      rw [ht.eq_of_key hs hkey]
      rfl
    · exact h.cache known hknown entry hentry t ht hkey
  last := by
    intro entry hentry t ht hkey
    cases hentry
    rw [ht.eq_of_key hs hkey]
    rfl

/-- One request: whatever is remembered, the answer is what it would be if nothing were. -/
theorem Faithful.request (h : c.Faithful registry) (hs : registry.Holds s) :
    (c.request s).1 = s.represent c.image ∧ (c.request s).2.Faithful registry ∧
      (c.request s).2.image = c.image := by
  unfold Context.request ColorSpace.represent
  by_cases hidentity : s.isIdentity = true
  · simp only [hidentity, if_true]
    exact ⟨trivial, h, trivial⟩
  · simp only [hidentity, Bool.false_eq_true, if_false]
    cases hlast : c.last? s.key with
    | some r => exact ⟨h.last?_eq_some hs hlast, h, rfl⟩
    | none =>
      cases hcached : c.cached? s.key with
      | some r =>
        have hr := h.cached?_eq_some hs hcached
        rw [hr]
        exact ⟨rfl, h.remember hs, rfl⟩
      | none => exact ⟨rfl, h.convert hs, rfl⟩

end Context

/-! ## Mappers -/

namespace Mapper

variable {registry : Registry} {entries : List Entry} {c d : Context} {remaining : Mask}
  {mapper : Mapper} {image : Raster}

/-- The maskers answer what they select of the image in their spaces, in whichever context they are
asked. -/
theorem answers_of_faithful (he : ∀ e ∈ entries, registry.Holds e.masker.space)
    (hc : c.Faithful registry) :
    answers entries c =
      entries.map fun e => e.masker.maskOf (e.masker.space.represent c.image) := by
  induction entries generalizing c with
  | nil => rfl
  | cons e entries ih =>
    obtain ⟨hanswer, hnext, himage⟩ := hc.request (he e List.mem_cons_self)
    have hmask : (e.masker.mask c).1 = e.masker.maskOf (e.masker.space.represent c.image) :=
      congrArg e.masker.maskOf hanswer
    have hrest := ih (fun e he' => he e (List.mem_cons_of_mem _ he')) hnext
    rw [himage] at hrest
    rw [answers, List.map_cons, hmask]
    exact congrArg _ hrest

/-- How pixels are shared out depends on what the maskers answer only. -/
theorem partition_congr (h : answers entries c = answers entries d) :
    partition entries c remaining = partition entries d remaining := by
  induction entries generalizing c d remaining with
  | nil => rfl
  | cons e entries ih =>
    obtain ⟨hfirst, hrest⟩ := List.cons.inj h
    rw [partition_cons, partition_cons, hfirst]
    refine bind_congr_ok fun mask _ => bind_congr_ok fun matched _ => bind_congr_ok fun left _ => ?_
    rw [ih hrest]

/-- A mapper whose maskers are for spaces of one registry runs alike with and without caching. -/
theorem run_congr_caching (hm : ∀ e ∈ mapper.entries, registry.Holds e.masker.space)
    (image : Raster) : mapper.run image true = mapper.run image false := by
  have hanswers : answers mapper.entries (.start image true) =
      answers mapper.entries (.start image false) := by
    rw [answers_of_faithful hm .start, answers_of_faithful hm .start]
    rfl
  unfold run
  dsimp only
  rw [partition_congr hanswers]

end Mapper

/-! ## Scripts -/

namespace CompiledScript

variable {source : String} {registry : Registry} {config : Config} {s : CompiledScript}

/-- The masker of a rule is for the space that the registry holds under the key of the rule. -/
theorem holds_of_entry_eq_ok {globals : Environment} {r : Rule} {e : Entry}
    (h : entry registry globals r = .ok e) :
    registry.Holds e.masker.space ∧ e.masker.space.key = r.space := by
  obtain ⟨-, hspace, -⟩ := of_entry_eq_ok h
  exact Registry.holds_of_resolve hspace

/-- The maskers of a script are for spaces that its registry holds. -/
theorem holds_of_mem_entries (h : compile source registry config = .ok s) {e : Entry}
    (he : e ∈ s.mapper.entries) : registry.Holds e.masker.space := by
  obtain ⟨program, -, hentries⟩ := of_compile_eq_ok h
  obtain ⟨r, -, hr⟩ := exists_of_mem_mapM hentries he
  exact (holds_of_entry_eq_ok hr).1

/-- A script answers the same image, or the same fault, with and without caching. -/
theorem run_caching (h : compile source registry config = .ok s) (image : Raster) :
    s.run image true = s.run image false := by
  unfold run
  rw [Mapper.run_congr_caching (fun e he => holds_of_mem_entries h he) image]

/-- A script whose rules ask for `hsv`, for `lab` and for `hsv` again. -/
def returning : String :=
  "on hsv pixels having $s > 0.5 do $v = 1; end; on lab pixels having $l > 50 do end; " ++
    "on hsv pixels having $v > 0 do $h = 0; end;"

/-- A run that comes back to a space makes the same image with and without caching. -/
theorem run_caching_returning : ∃ s, compile returning .standard = .ok s ∧
    s.run ⟨2, 1, 3, [[0, 0.5, 1], [1, 1, 0]]⟩ true =
      s.run ⟨2, 1, 3, [[0, 0.5, 1], [1, 1, 0]]⟩ false := by
  have hok : (compile returning .standard).isOk = true := by decide +kernel
  obtain ⟨s, hs⟩ := exists_of_isOk hok
  exact ⟨s, hs, run_caching hs _⟩

end CompiledScript

end Recolor
