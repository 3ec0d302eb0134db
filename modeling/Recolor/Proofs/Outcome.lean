import Recolor.Fault

/-!
# Outcomes

Every step of the library answers an `Except`. A sequence of two steps succeeds exactly if both do
(`bind_eq_ok`), and fails exactly if the first does or the second does on its answer
(`bind_eq_error`). Further lemmas compute sequences whose first answer is known.

An outcome `Avoids` some faults if it is none of them. Steps that avoid faults do so one after
another (`Avoids.bind`), also in a loop with an invariant (`avoids_foldlM`).
-/

set_option autoImplicit false

namespace Recolor

variable {ε α β γ : Type}

/-- Returning an answer is the answer. -/
@[simp] theorem pure_eq_ok (a : α) : (pure a : Except ε α) = .ok a := rfl

/-- Throwing a fault is the fault. -/
@[simp] theorem throw_eq_error (e : ε) : (throw e : Except ε α) = .error e := rfl

/-- Behind an answer the next step goes on with it. -/
@[simp] theorem ok_bind (a : α) (f : α → Except ε β) : (Except.ok a >>= f) = f a := rfl

/-- Behind a fault there is no next step. -/
@[simp] theorem error_bind (e : ε) (f : α → Except ε β) :
    ((Except.error e : Except ε α) >>= f) = .error e := rfl

/-- A function is applied to an answer. -/
@[simp] theorem map_ok (f : α → β) (a : α) : (Except.ok a : Except ε α).map f = .ok (f a) := rfl

/-- A fault is left alone by a function on answers. -/
@[simp] theorem map_error (f : α → β) (e : ε) :
    (Except.error e : Except ε α).map f = .error e := rfl

/-- Two steps succeed if the first does, and the second does on its answer. -/
theorem bind_eq_ok {x : Except ε α} {f : α → Except ε β} {b : β} :
    (x >>= f) = .ok b ↔ ∃ a, x = .ok a ∧ f a = .ok b := by
  cases x with
  | ok a => simp
  | error e => simp

/-- Two steps fail if the first does, or the second does on the answer of the first. -/
theorem bind_eq_error {x : Except ε α} {f : α → Except ε β} {e : ε} :
    (x >>= f) = .error e ↔ x = .error e ∨ ∃ a, x = .ok a ∧ f a = .error e := by
  cases x with
  | ok a => simp
  | error e => simp

/-- A changed answer is there if the answer is. -/
theorem map_eq_ok {x : Except ε α} {f : α → β} {b : β} :
    x.map f = .ok b ↔ ∃ a, x = .ok a ∧ f a = b := by
  cases x with
  | ok a => simp
  | error e => simp

/-- A step that is known to succeed has an answer. -/
theorem exists_of_isOk {x : Except ε α} (h : x.isOk = true) : ∃ a, x = .ok a := by
  cases x with
  | ok a => exact ⟨a, rfl⟩
  | error e => cases h

/-- The answers of a step on all items of a list come from its items. -/
theorem exists_of_mem_mapM {f : α → Except ε β} {as : List α} {bs : List β}
    (h : as.mapM f = .ok bs) {b : β} (hb : b ∈ bs) : ∃ a ∈ as, f a = .ok b := by
  induction as generalizing bs with
  | nil =>
    cases h
    cases hb
  | cons a rest ih =>
    rw [List.mapM_cons] at h
    obtain ⟨first, hfirst, h⟩ := bind_eq_ok.1 h
    obtain ⟨more, hmore, h⟩ := bind_eq_ok.1 h
    cases h
    rcases List.mem_cons.1 hb with rfl | hb
    · exact ⟨a, List.mem_cons_self, hfirst⟩
    · obtain ⟨a', ha', hf⟩ := ih hmore hb
      exact ⟨a', List.mem_cons_of_mem _ ha', hf⟩

/-- The answers of a step on all items of a list stand at the places of the items. -/
theorem getElem?_of_mapM {f : α → Except ε β} {as : List α} {bs : List β}
    (h : as.mapM f = .ok bs) {k : Nat} {a : α} (ha : as[k]? = some a) :
    ∃ b, bs[k]? = some b ∧ f a = .ok b := by
  induction as generalizing bs k with
  | nil => cases ha
  | cons first rest ih =>
    rw [List.mapM_cons] at h
    obtain ⟨b, hb, h⟩ := bind_eq_ok.1 h
    obtain ⟨bs', hbs, h⟩ := bind_eq_ok.1 h
    cases h
    cases k with
    | zero =>
      cases ha
      exact ⟨b, rfl, hb⟩
    | succ k => exact ih hbs ha

/-- Each item of a list has its answer among the answers of a step on all items. -/
theorem exists_mem_of_mapM {f : α → Except ε β} {as : List α} {bs : List β}
    (h : as.mapM f = .ok bs) {a : α} (ha : a ∈ as) : ∃ b ∈ bs, f a = .ok b := by
  obtain ⟨k, hk⟩ := List.mem_iff_getElem?.1 ha
  obtain ⟨b, hb, hf⟩ := getElem?_of_mapM h hk
  exact ⟨b, List.mem_of_getElem? hb, hf⟩

/-- The answer of two steps can be changed behind the second. -/
theorem map_bind (x : Except ε α) (f : α → Except ε β) (g : β → γ) :
    (x >>= f).map g = x >>= fun a => (f a).map g := by
  cases x <;> rfl

/-- An answer that is changed first is what the second step sees. -/
theorem bind_map (x : Except ε α) (f : α → β) (g : β → Except ε γ) :
    (x.map f >>= g) = x >>= fun a => g (f a) := by
  cases x <;> rfl

/-- Second steps that agree on the answer of the first can be exchanged. -/
theorem bind_congr_ok {x : Except ε α} {f g : α → Except ε β} (h : ∀ a, x = .ok a → f a = g a) :
    x >>= f = x >>= g := by
  cases x with
  | ok a => exact h a rfl
  | error e => rfl

/-! ## Faults that do not occur -/

/-- The outcome is no fault of the given sort. -/
def Avoids (bad : ε → Prop) (x : Except ε α) : Prop := ∀ e, x = .error e → ¬bad e

section Avoids

variable {bad : ε → Prop} {x : Except ε α}

/-- An answer is no fault. -/
@[simp] theorem avoids_ok (a : α) : Avoids bad (.ok a) := by
  intro e h
  cases h

/-- A fault avoids the bad ones if it is none of them. -/
@[simp] theorem avoids_error {e : ε} : Avoids bad (.error e : Except ε α) ↔ ¬bad e := by
  constructor
  · intro h
    exact h e rfl
  · intro h _ heq
    cases heq
    exact h

/-- Who avoids some faults avoids those among them. -/
theorem Avoids.mono {worse : ε → Prop} (hx : Avoids bad x) (h : ∀ e, worse e → bad e) :
    Avoids worse x := by
  intro e he hworse
  exact hx e he (h e hworse)

/-- Two steps avoid some faults if the first does, and the second does on each answer of the
first. -/
theorem Avoids.bind {f : α → Except ε β} (hx : Avoids bad x)
    (hf : ∀ a, x = .ok a → Avoids bad (f a)) : Avoids bad (x >>= f) := by
  intro e h
  rcases bind_eq_error.1 h with h | ⟨a, ha, h⟩
  · exact hx e h
  · exact hf a ha e h

/-- A function on answers adds no fault. -/
theorem Avoids.map {f : α → β} (hx : Avoids bad x) : Avoids bad (x.map f) := by
  cases x with
  | ok a => exact avoids_ok _
  | error e => exact avoids_error.2 (avoids_error.1 hx)

/-- A step for each item of a list avoids some faults if it does so for each item. -/
theorem avoids_mapM {f : α → Except ε β} {as : List α} (h : ∀ a ∈ as, Avoids bad (f a)) :
    Avoids bad (as.mapM f) := by
  induction as with
  | nil => exact avoids_ok _
  | cons a rest ih =>
    rw [List.mapM_cons]
    refine (h a List.mem_cons_self).bind fun b _ => ?_
    exact (ih fun b hb => h b (List.mem_cons_of_mem a hb)).bind fun _ _ => avoids_ok _

/-- A loop avoids faults if each round does where the invariant holds, and keeps the invariant. -/
theorem avoids_foldlM {f : β → α → Except ε β} {as : List α} {inv : β → Prop}
    (hround : ∀ b, inv b → ∀ a ∈ as, Avoids bad (f b a))
    (hkeep : ∀ b, inv b → ∀ a ∈ as, ∀ c, f b a = .ok c → inv c) {b : β} (hb : inv b) :
    Avoids bad (as.foldlM f b) := by
  induction as generalizing b with
  | nil => exact avoids_ok _
  | cons a rest ih =>
    rw [List.foldlM_cons]
    refine (hround b hb a List.mem_cons_self).bind fun c hc => ?_
    have hnext : inv c := hkeep b hb a List.mem_cons_self c hc
    exact ih (fun b hb d hd => hround b hb d (List.mem_cons_of_mem a hd))
      (fun b hb d hd => hkeep b hb d (List.mem_cons_of_mem a hd)) hnext

/-- A fold avoids some faults if its step does so for each item, whatever has been gathered
before. -/
theorem avoids_foldlM_of_forall {f : β → α → Except ε β} {as : List α}
    (h : ∀ b, ∀ a ∈ as, Avoids bad (f b a)) (b : β) : Avoids bad (as.foldlM f b) :=
  avoids_foldlM (fun b _ => h b) (fun _ _ _ _ _ _ => trivial) (trivial : (fun _ => True) b)

end Avoids

end Recolor
