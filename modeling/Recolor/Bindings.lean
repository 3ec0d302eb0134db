/-!
# Bindings

Names with a value each, as a list of pairs in which each name stands at most once. `get?`
describes a list of bindings completely: binding a name changes the answer for that name alone.
-/

set_option autoImplicit false

namespace Recolor

/-- Names with their values. -/
abbrev Bindings (α : Type) := List (String × α)

namespace Bindings

variable {α : Type}

/-- The value of a name. -/
def get? : Bindings α → String → Option α
  | [], _ => none
  | (key, value) :: rest, name => if key = name then some value else get? rest name

/-- The bindings without a name. -/
def erase (bs : Bindings α) (name : String) : Bindings α := bs.filter (·.1 ≠ name)

/-- The bindings with a name bound to a value. -/
def insert (bs : Bindings α) (name : String) (value : α) : Bindings α :=
  (name, value) :: erase bs name

/-- An erased name has no value, and all others keep theirs. -/
theorem get?_erase (bs : Bindings α) (name other : String) :
    (erase bs name).get? other = if other = name then none else bs.get? other := by
  induction bs with
  | nil => simp [erase, get?]
  | cons b rest ih =>
    obtain ⟨key, value⟩ := b
    unfold erase at ih ⊢
    by_cases hk : key = name
    · by_cases ho : other = name
      · simp_all
      · have hne : ¬ name = other := fun h => ho h.symm
        simp_all [get?]
    · by_cases ho : key = other
      · subst ho
        simp_all [get?]
      · simp_all [get?]

/-- A bound name has its new value, and all others keep theirs. -/
theorem get?_insert (bs : Bindings α) (name other : String) (value : α) :
    (insert bs name value).get? other = if other = name then some value else bs.get? other := by
  unfold insert
  by_cases h : other = name
  · simp [get?, h]
  · have hne : ¬ name = other := fun e => h e.symm
    simp [get?, hne, get?_erase, h]

/-! ## Order -/

/-- Each name stands at most once. -/
def Distinct (bs : Bindings α) : Prop := (bs.map Prod.fst).Nodup

variable {bs other : Bindings α} {name : String} {value : α}

/-- Without bindings no name is bound twice. -/
theorem distinct_nil : Distinct ([] : Bindings α) := List.nodup_nil

/-- Dropping a name leaves no other name bound twice. -/
theorem Distinct.erase (h : bs.Distinct) (name : String) : Distinct (bs.erase name) :=
  h.sublist (List.filter_sublist.map Prod.fst)

/-- A new binding takes the place of an earlier one of its name, so that no name is bound twice. -/
theorem Distinct.insert (h : bs.Distinct) (name : String) (value : α) :
    Distinct (bs.insert name value) := by
  have hname : name ∉ (Bindings.erase bs name).map Prod.fst := by
    simp [Bindings.erase]
  exact List.nodup_cons.2 ⟨hname, h.erase name⟩

/-- Bindings of different names are different bindings. -/
theorem Distinct.nodup (h : bs.Distinct) : List.Nodup bs :=
  List.Pairwise.of_map Prod.fst (fun _ _ hne heq => hne (congrArg Prod.fst heq)) h

/-- A name has the value that it stands with. -/
theorem Distinct.get?_eq_some_iff (h : bs.Distinct) :
    bs.get? name = some value ↔ (name, value) ∈ bs := by
  induction bs with
  | nil => simp [get?]
  | cons b rest ih =>
    obtain ⟨key, first⟩ := b
    obtain ⟨hkey, hrest⟩ := List.nodup_cons.1 h
    unfold get?
    split
    next heq =>
      subst heq
      -- no later pair has the name
      have hlater : (key, value) ∉ rest := fun hmem => hkey (List.mem_map.2 ⟨_, hmem, rfl⟩)
      simp [hlater, eq_comm]
    next hne =>
      have hfirst : (name, value) ≠ (key, first) := fun heq => hne (congrArg Prod.fst heq).symm
      rw [ih hrest, List.mem_cons, or_iff_right hfirst]

/-- The order of bindings does not matter. -/
theorem Distinct.get?_of_perm (h : bs.Distinct) (hperm : other.Perm bs) (name : String) :
    other.get? name = bs.get? name := by
  have hother : other.Distinct := ((hperm.map Prod.fst).nodup_iff).2 h
  ext value
  rw [hother.get?_eq_some_iff, h.get?_eq_some_iff, hperm.mem_iff]

end Bindings

end Recolor
