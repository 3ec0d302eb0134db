import Recolor.Image.Raster
import Recolor.Proofs.Outcome

/-!
# Selected places

What `selected`, `replaceSelected` and `chooseSelected` do to a list, place by place. The items
that are taken out of a list stand in the order of their places: the item of a selected place `i` is
found at `rank bits i`, the number of selected places in front of it. From this follows what
gathering, scattering and copying do to the pixels of a raster.
-/

set_option autoImplicit false

namespace Recolor

variable {α : Type}

/-! ## Lists -/

/-- The number of selected places in front of a place. -/
def rank (bits : List Bool) (i : Nat) : Nat := (bits.take i).count true

/-- No place is selected before the first one. -/
@[simp] theorem rank_zero (bits : List Bool) : rank bits 0 = 0 := rfl

/-- Behind a place that is selected the rank is one higher. -/
@[simp] theorem rank_true_succ (bits : List Bool) (i : Nat) :
    rank (true :: bits) (i + 1) = rank bits i + 1 := by
  simp [rank]

/-- Behind a place that is not selected the rank stays. -/
@[simp] theorem rank_false_succ (bits : List Bool) (i : Nat) :
    rank (false :: bits) (i + 1) = rank bits i := by
  simp [rank]

/-- A selected place comes before the number of all selected places. -/
theorem rank_lt_count {bits : List Bool} {i : Nat} (h : bits[i]? = some true) :
    rank bits i < bits.count true := by
  induction bits generalizing i with
  | nil => simp at h
  | cons b bs ih =>
    cases i with
    | zero =>
      obtain rfl : b = true := by simpa using h
      simp
    | succ i =>
      have hi : rank bs i < bs.count true := ih (by simpa using h)
      cases b
      · simpa using hi
      · simpa using hi

/-- As many items are taken out as places are selected, if the list goes as far. -/
theorem length_selected {bits : List Bool} {xs : List α} (h : bits.length ≤ xs.length) :
    (selected bits xs).length = bits.count true := by
  induction bits generalizing xs with
  | nil => cases xs <;> rfl
  | cons b bs ih =>
    cases xs with
    | nil => simp at h
    | cons x xs =>
      have hl : (selected bs xs).length = bs.count true := ih (by simpa using h)
      cases b
      · simp [selected, hl]
      · simp [selected, hl]

/-- Items that are taken out come from the list. -/
theorem mem_of_mem_selected {bits : List Bool} {xs : List α} {x : α}
    (h : x ∈ selected bits xs) : x ∈ xs := by
  induction bits generalizing xs with
  | nil => cases xs <;> simp [selected] at h
  | cons b bs ih =>
    cases xs with
    | nil => simp [selected] at h
    | cons y ys =>
      cases b
      · exact List.mem_cons_of_mem _ (ih (by simpa [selected] using h))
      · rcases List.mem_cons.1 (by simpa [selected] using h) with rfl | hmem
        · exact List.mem_cons_self
        · exact List.mem_cons_of_mem _ (ih hmem)

/-- The item of a selected place stands at the rank of the place. -/
theorem getElem?_selected {bits : List Bool} {xs : List α} {i : Nat} (h : bits[i]? = some true) :
    (selected bits xs)[rank bits i]? = xs[i]? := by
  induction bits generalizing xs i with
  | nil => simp at h
  | cons b bs ih =>
    cases xs with
    | nil => simp [selected]
    | cons x xs =>
      cases i with
      | zero =>
        obtain rfl : b = true := by simpa using h
        simp [selected]
      | succ i =>
        have hi : (selected bs xs)[rank bs i]? = xs[i]? := ih (by simpa using h)
        cases b
        · simpa [selected] using hi
        · simpa [selected] using hi

/-- What is taken out depends on the selected places only. -/
theorem selected_congr {bits : List Bool} {xs ys : List α} (hl : xs.length = ys.length)
    (h : ∀ i : Nat, bits[i]? = some true → xs[i]? = ys[i]?) :
    selected bits xs = selected bits ys := by
  induction bits generalizing xs ys with
  | nil => cases xs <;> cases ys <;> rfl
  | cons b bs ih =>
    cases xs with
    | nil =>
      cases ys with
      | nil => rfl
      | cons y ys => simp at hl
    | cons x xs =>
      cases ys with
      | nil => simp at hl
      | cons y ys =>
        have ht : selected bs xs = selected bs ys :=
          ih (by simpa using hl) fun i hi => by simpa using h (i + 1) (by simpa using hi)
        cases b
        · simpa [selected] using ht
        · have hx : x = y := by simpa using h 0 rfl
          simp [selected, hx, ht]

/-- Replacing items keeps the length. -/
@[simp] theorem length_replaceSelected (bits : List Bool) (xs ys : List α) :
    (replaceSelected bits xs ys).length = xs.length := by
  induction bits generalizing xs ys with
  | nil => cases xs <;> rfl
  | cons b bs ih =>
    cases b with
    | false => cases xs <;> simp [replaceSelected, ih]
    | true => cases xs <;> cases ys <;> simp [replaceSelected, ih]

/-- An item that is not selected stays. -/
theorem getElem?_replaceSelected_of_ne {bits : List Bool} {xs ys : List α} {i : Nat}
    (h : bits[i]? ≠ some true) : (replaceSelected bits xs ys)[i]? = xs[i]? := by
  induction bits generalizing xs ys i with
  | nil => cases xs <;> rfl
  | cons b bs ih =>
    cases b with
    | false =>
      cases xs with
      | nil => rfl
      | cons x xs =>
        cases i with
        | zero => rfl
        | succ i => simpa [replaceSelected] using ih (by simpa using h)
    | true =>
      cases i with
      | zero => simp at h
      | succ i =>
        cases xs with
        | nil => rfl
        | cons x xs =>
          cases ys with
          | nil => rfl
          | cons y ys => simpa [replaceSelected] using ih (by simpa using h)

/-- A selected item gives way to the new one at its rank. -/
theorem getElem?_replaceSelected {bits : List Bool} {xs ys : List α} {i : Nat}
    (h : bits[i]? = some true) (hi : i < xs.length) (hr : rank bits i < ys.length) :
    (replaceSelected bits xs ys)[i]? = ys[rank bits i]? := by
  induction bits generalizing xs ys i with
  | nil => simp at h
  | cons b bs ih =>
    cases xs with
    | nil => simp at hi
    | cons x xs =>
      cases i with
      | zero =>
        obtain rfl : b = true := by simpa using h
        cases ys with
        | nil => simp at hr
        | cons y ys => simp [replaceSelected]
      | succ i =>
        cases b with
        | false =>
          simpa [replaceSelected] using
            ih (by simpa using h) (by simpa using hi) (by simpa using hr)
        | true =>
          cases ys with
          | nil => simp at hr
          | cons y ys =>
            simpa [replaceSelected] using
              ih (by simpa using h) (by simpa using hi) (by simpa using hr)

/-- Taking out what was just put in gives it back. -/
theorem selected_replaceSelected {bits : List Bool} {xs ys : List α}
    (hx : bits.length ≤ xs.length) (hy : ys.length = bits.count true) :
    selected bits (replaceSelected bits xs ys) = ys := by
  induction bits generalizing xs ys with
  | nil =>
    obtain rfl : ys = [] := by simpa using hy
    cases xs <;> rfl
  | cons b bs ih =>
    cases xs with
    | nil => simp at hx
    | cons x xs =>
      cases b with
      | false =>
        simpa [replaceSelected, selected] using ih (by simpa using hx) (by simpa using hy)
      | true =>
        cases ys with
        | nil => simp at hy
        | cons y ys =>
          simpa [replaceSelected, selected] using ih (by simpa using hx) (by simpa using hy)

/-- Putting back what was taken out changes nothing. -/
theorem replaceSelected_selected (bits : List Bool) (xs : List α) :
    replaceSelected bits xs (selected bits xs) = xs := by
  induction bits generalizing xs with
  | nil => cases xs <;> rfl
  | cons b bs ih =>
    cases xs with
    | nil => cases b <;> rfl
    | cons x xs => cases b <;> simp [selected, replaceSelected, ih]

/-- Items at places none of which is selected twice can be put in in either order. -/
theorem replaceSelected_comm {bits others : List Bool}
    (h : ∀ i : Nat, bits[i]? = some true → others[i]? ≠ some true) (xs ys zs : List α) :
    replaceSelected others (replaceSelected bits xs ys) zs =
      replaceSelected bits (replaceSelected others xs zs) ys := by
  induction bits generalizing others xs ys zs with
  | nil => simp [replaceSelected]
  | cons b bs ih =>
    cases others with
    | nil => simp [replaceSelected]
    | cons c cs =>
      cases xs with
      | nil => cases b <;> cases c <;> simp [replaceSelected]
      | cons x xs =>
        have hrest : ∀ i : Nat, bs[i]? = some true → cs[i]? ≠ some true := fun i => h (i + 1)
        cases b with
        | false =>
          cases c with
          | false => simp [replaceSelected, ih hrest]
          | true => cases zs <;> simp [replaceSelected, ih hrest]
        | true =>
          cases c with
          | false => cases ys <;> simp [replaceSelected, ih hrest]
          | true => exact absurd rfl (h 0 rfl)

/-- New items come from the list or from what is put in. -/
theorem mem_of_mem_replaceSelected {bits : List Bool} {xs ys : List α} {x : α}
    (h : x ∈ replaceSelected bits xs ys) : x ∈ xs ∨ x ∈ ys := by
  induction bits generalizing xs ys with
  | nil => exact .inl (by cases xs <;> exact h)
  | cons b bs ih =>
    cases xs with
    | nil => cases b <;> cases ys <;> simp [replaceSelected] at h
    | cons z zs =>
      cases b with
      | false =>
        rcases List.mem_cons.1 (by simpa [replaceSelected] using h) with rfl | hmem
        · exact .inl List.mem_cons_self
        · exact (ih hmem).imp_left (List.mem_cons_of_mem _)
      | true =>
        cases ys with
        | nil => exact .inl (by simpa [replaceSelected] using h)
        | cons y ys =>
          rcases List.mem_cons.1 (by simpa [replaceSelected] using h) with rfl | hmem
          · exact .inr List.mem_cons_self
          · exact (ih hmem).imp (List.mem_cons_of_mem _) (List.mem_cons_of_mem _)

/-- Copying items keeps the length. -/
@[simp] theorem length_chooseSelected (bits : List Bool) (xs ys : List α) :
    (chooseSelected bits xs ys).length = xs.length := by
  induction bits generalizing xs ys with
  | nil => cases xs <;> rfl
  | cons b bs ih => cases xs <;> cases ys <;> simp [chooseSelected, ih]

/-- A selected item is that of the second list, any other that of the first. -/
theorem getElem?_chooseSelected {bits : List Bool} {xs ys : List α} (hl : xs.length = ys.length)
    (i : Nat) :
    (chooseSelected bits xs ys)[i]? = if bits[i]? = some true then ys[i]? else xs[i]? := by
  induction bits generalizing xs ys i with
  | nil => cases xs <;> simp [chooseSelected]
  | cons b bs ih =>
    cases xs with
    | nil =>
      obtain rfl : ys = [] := by simpa using hl.symm
      simp [chooseSelected]
    | cons x xs =>
      cases ys with
      | nil => simp at hl
      | cons y ys =>
        cases i with
        | zero => cases b <;> simp [chooseSelected]
        | succ i => simpa [chooseSelected] using ih (by simpa using hl) i

/-- Copied items come from one of the lists. -/
theorem mem_of_mem_chooseSelected {bits : List Bool} {xs ys : List α} {x : α}
    (h : x ∈ chooseSelected bits xs ys) : x ∈ xs ∨ x ∈ ys := by
  induction bits generalizing xs ys with
  | nil => exact .inl (by cases xs <;> exact h)
  | cons b bs ih =>
    cases xs with
    | nil => simp [chooseSelected] at h
    | cons z zs =>
      cases ys with
      | nil => exact .inl (by simpa [chooseSelected] using h)
      | cons y ys =>
        rcases List.mem_cons.1 (by simpa [chooseSelected] using h) with heq | hmem
        · cases b
          · exact .inl (by simp [heq])
          · exact .inr (by simp [heq])
        · exact (ih hmem).imp (List.mem_cons_of_mem _) (List.mem_cons_of_mem _)

end Recolor
