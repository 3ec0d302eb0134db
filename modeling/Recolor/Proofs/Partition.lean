import Recolor.Proofs.Rules

/-!
# Sharing out the pixels of an image

Each entry of a mapper takes the pixels that its mask selects and no mask before it does
(`Mask.without`). The loop that brings this about goes through the maskers in one context and keeps
the pixels that are left. Its invariant is that these are the pixels outside all masks so far
(`partition_eq_ok`), so that no two entries get the same pixel (`pairwise_claims`). It fails at the
first masker that fails or answers a mask of another size (`partition_eq_error`).
-/

set_option autoImplicit false

namespace Recolor

namespace Mask

/-- The positions of a mask that none of some other masks selects. -/
def without (m : Mask) (others : List Mask) : Mask :=
  ⟨m.width, m.height, m.bits.mapIdx fun i b => b && !others.any (·.selects i)⟩

variable {m n : Mask} {masks : List Mask}

/-! ## Masks by their positions -/

/-- Well-formed masks of one size are equal if they select the same positions. -/
theorem ext_selects (hm : m.WellFormed) (hn : n.WellFormed) (hsize : m.size = n.size)
    (h : ∀ i, m.selects i = n.selects i) : m = n := by
  obtain ⟨width, height, bits⟩ := m
  obtain ⟨width', height', bits'⟩ := n
  obtain ⟨rfl, rfl⟩ : width = width' ∧ height = height' := Prod.mk.injEq .. ▸ hsize
  have hlength : bits.length = bits'.length := hm.trans hn.symm
  congr 1
  refine List.ext_getElem hlength fun i hi hi' => ?_
  have hbit := h i
  simp only [selects, List.getElem?_eq_getElem hi, List.getElem?_eq_getElem hi'] at hbit
  cases hb : bits[i] <;> cases hb' : bits'[i] <;> simp_all

/-- A mask that is filled with one truth value is well formed. -/
@[simp] theorem wellFormed_filled (width height : Nat) (b : Bool) :
    (filled width height b).WellFormed := by
  simp [WellFormed, filled]

/-- All positions of the full mask are selected. -/
theorem selects_filled {width height i : Nat} (h : i < width * height) :
    (filled width height true).selects i = true := by
  simp [selects_iff, filled, h]

/-- Without any others a mask stays as it is. -/
@[simp] theorem without_nil (m : Mask) : m.without [] = m := by
  obtain ⟨width, height, bits⟩ := m
  simp only [without, List.any_nil, Bool.not_false, Bool.and_true]
  congr 1
  exact List.ext_getElem? (by simp)

/-- A mask stays well formed without the positions of others. -/
theorem wellFormed_without (hm : m.WellFormed) : (m.without masks).WellFormed := by
  simpa [WellFormed, without] using hm

/-- What is left of a mask without others is selected by it and by none of them. -/
theorem selects_without (i : Nat) :
    (m.without masks).selects i = (m.selects i && !masks.any (·.selects i)) := by
  simp only [selects, without, List.getElem?_mapIdx]
  cases m.bits[i]? with
  | none => simp
  | some b => cases b <;> simp

/-- The complement of a well-formed mask is well formed. -/
theorem wellFormed_complement (hm : m.WellFormed) : m.complement.WellFormed := by
  simpa [WellFormed, complement, Mask.map] using hm

/-- Inside a mask the complement selects what the mask does not. -/
theorem selects_complement {i : Nat} (h : i < m.bits.length) :
    m.complement.selects i = !m.selects i := by
  simp only [selects, complement, Mask.map, List.getElem?_map, List.getElem?_eq_getElem h]
  cases m.bits[i] <;> simp

/-- Masks of one size have a common part, which is well formed if they are, and selects what both
select. -/
theorem exists_and (hm : m.WellFormed) (hn : n.WellFormed) (hsize : m.size = n.size) :
    ∃ r, m.and n = .ok r ∧ r.WellFormed ∧ r.size = m.size ∧
      ∀ i, r.selects i = (m.selects i && n.selects i) := by
  obtain ⟨r, hr⟩ : ∃ r, m.and n = .ok r := ⟨_, zipWith_eq_ok.2 ⟨hsize, rfl⟩⟩
  have hlaid : (Value.mask r).Laid (.ofSize m.size) :=
    Mask.laid_zipWith ⟨rfl, hm⟩ ⟨hsize.symm, hn⟩ hr
  refine ⟨r, hr, hlaid.2, hlaid.1, fun i => ?_⟩
  obtain ⟨-, rfl⟩ := zipWith_eq_ok.1 hr
  simp only [selects, List.getElem?_zipWith]
  cases m.bits[i]? with
  | none => simp
  | some b =>
    cases n.bits[i]? with
    | none => simp
    | some c => cases b <;> cases c <;> simp

/-- What a mask has in common with the positions outside other masks is what it selects without
them. -/
theorem and_outside {width height : Nat} (hm : m.WellFormed) (hsize : m.size = (width, height)) :
    ((filled width height true).without masks).and m = .ok (m.without masks) := by
  obtain ⟨r, hr, hwf, hrsize, hselects⟩ :=
    exists_and (wellFormed_without (wellFormed_filled width height true)) hm hsize.symm
  rw [hr]
  refine congrArg _ (ext_selects hwf (wellFormed_without hm) (hrsize.trans hsize.symm) fun i => ?_)
  rw [hselects, selects_without, selects_without, Bool.and_comm]
  cases hi : m.selects i with
  | false => rfl
  | true =>
    have hlt : i < width * height := by
      obtain ⟨rfl, rfl⟩ : m.width = width ∧ m.height = height := Prod.mk.injEq .. ▸ hsize
      exact hm ▸ lt_of_selects hi
    simp [selects_filled hlt]

/-- A mask of another size has nothing in common with the positions outside some masks. -/
theorem and_outside_eq_error {width height : Nat} (hsize : m.size ≠ (width, height)) :
    ((filled width height true).without masks).and m =
      .error (.shape (.operandSizes (width, height) m.size)) := by
  have hne : ((filled width height true).without masks).size ≠ m.size := Ne.symm hsize
  rw [and, zipWith, requireSameSize, if_neg hne, error_bind]
  rfl

/-- The positions outside some masks, but for those that a mask has outside them, are the positions
outside all of these masks. -/
theorem and_complement_without {width height : Nat} (hm : m.WellFormed)
    (hsize : m.size = (width, height)) :
    ((filled width height true).without masks).and (m.without masks).complement =
      .ok ((filled width height true).without (masks ++ [m])) := by
  have hwithout : (m.without masks).WellFormed := wellFormed_without hm
  obtain ⟨r, hr, hwf, hrsize, hselects⟩ :=
    exists_and (wellFormed_without (wellFormed_filled width height true))
      (wellFormed_complement hwithout) hsize.symm
  rw [hr]
  refine congrArg _ (ext_selects hwf (wellFormed_without (wellFormed_filled width height true))
    hrsize fun i => ?_)
  rw [hselects, selects_without, selects_without]
  cases hi : (filled width height true).selects i with
  | false => rfl
  | true =>
    have hlt : i < (m.without masks).bits.length := by
      obtain ⟨rfl, rfl⟩ : m.width = width ∧ m.height = height := Prod.mk.injEq .. ▸ hsize
      rw [hwithout]
      exact wellFormed_filled m.width m.height true ▸ lt_of_selects hi
    rw [selects_complement hlt, selects_without]
    simp only [List.any_append, List.any_cons, List.any_nil]
    cases m.selects i <;> cases masks.any (·.selects i) <;> rfl

end Mask

namespace Mapper

/-! ## Sharing out the pixels -/

/-- What the maskers of some entries answer when they are asked one after another in a context. -/
def answers : List Entry → Context → List (Except Fault Mask)
  | [], _ => []
  | e :: rest, c => (e.masker.mask c).1 :: answers rest (e.masker.mask c).2

/-- Each masker gives one answer. -/
@[simp] theorem length_answers (entries : List Entry) (c : Context) :
    (answers entries c).length = entries.length := by
  induction entries generalizing c with
  | nil => rfl
  | cons e entries ih => simp [answers, ih]

/-- Each entry with what its mask selects without some masks and without those of the entries
before it. -/
def claims (earlier : List Mask) : List Entry → List Mask → List (Mask × Entry)
  | [], _ => []
  | _ :: _, [] => []
  | e :: entries, m :: masks => (m.without earlier, e) :: claims (earlier ++ [m]) entries masks

variable {entries : List Entry} {masks earlier : List Mask} {c : Context} {image : Raster}

/-- The part of an entry is what its mask selects without the masks of the entries before it. -/
theorem getElem?_claims (k : Nat) :
    (claims earlier entries masks)[k]? =
      entries[k]?.bind fun e => masks[k]?.map fun m : Mask =>
        (m.without (earlier ++ masks.take k), e) := by
  induction entries generalizing earlier masks k with
  | nil => simp [claims]
  | cons e entries ih =>
    cases masks with
    | nil => cases h : (e :: entries)[k]? <;> simp [claims]
    | cons m masks =>
      cases k with
      | zero => simp [claims]
      | succ k =>
        have hk := @ih masks (earlier ++ [m]) k
        simpa [claims] using hk

/-- The part of an entry is what its mask selects without the masks before it. -/
theorem mem_claims {part : Mask × Entry} :
    part ∈ claims [] entries masks ↔ ∃ (k : Nat) (e : Entry) (m : Mask), entries[k]? = some e ∧
      masks[k]? = some m ∧ part = (m.without (masks.take k), e) := by
  simp only [List.mem_iff_getElem?, getElem?_claims, List.nil_append, Option.bind_eq_some_iff,
    Option.map_eq_some_iff, @eq_comm _ part]
  constructor
  · rintro ⟨k, e, he, m, hm, h⟩
    exact ⟨k, e, m, he, hm, h⟩
  · rintro ⟨k, e, m, he, hm, h⟩
    exact ⟨k, e, he, m, hm, h⟩

/-- No part has a pixel that an earlier mask selects. -/
theorem selects_of_mem_claims {part : Mask × Entry} {i : Nat}
    (h : part ∈ claims earlier entries masks) (hi : part.1.selects i = true) :
    ∀ m ∈ earlier, m.selects i = false := by
  induction entries generalizing earlier masks with
  | nil => simp [claims] at h
  | cons e entries ih =>
    cases masks with
    | nil => simp [claims] at h
    | cons m masks =>
      rcases List.mem_cons.1 h with rfl | h
      · rw [Mask.selects_without] at hi
        simp at hi
        exact hi.2
      · exact fun n hn => ih h n (List.mem_append_left _ hn)

/-- The parts of two entries have no pixel in common. -/
theorem pairwise_claims :
    (claims earlier entries masks).Pairwise fun p q =>
      ∀ i, p.1.selects i = true → q.1.selects i = false := by
  induction entries generalizing earlier masks with
  | nil => simp [claims]
  | cons e entries ih =>
    cases masks with
    | nil => simp [claims]
    | cons m masks =>
      refine .cons (fun q hq i hi => ?_) ih
      rw [Mask.selects_without] at hi
      have hm : m.selects i = true := (Bool.and_eq_true_iff.1 hi).1
      cases hqi : q.1.selects i with
      | false => rfl
      | true => exact absurd hm (by simp [selects_of_mem_claims hq hqi m (by simp)])

/-- Each pixel that a mask selects belongs to a part. -/
theorem exists_mem_claims {i : Nat} (hlength : masks.length = entries.length)
    (hearlier : ∀ m ∈ earlier, m.selects i = false) (h : ∃ m ∈ masks, m.selects i = true) :
    ∃ part ∈ claims earlier entries masks, part.1.selects i = true := by
  induction entries generalizing earlier masks with
  | nil =>
    obtain ⟨m, hm, -⟩ := h
    obtain rfl : masks = [] := by simpa using hlength
    cases hm
  | cons e entries ih =>
    cases masks with
    | nil => simp at hlength
    | cons m masks =>
      cases hi : m.selects i with
      | true =>
        refine ⟨(m.without earlier, e), List.mem_cons_self, ?_⟩
        rw [Mask.selects_without]
        simpa [hi] using hearlier
      | false =>
        obtain ⟨n, hn, hni⟩ := h
        have hlater : ∃ n ∈ masks, n.selects i = true := by
          rcases List.mem_cons.1 hn with rfl | hn
          · simp [hi] at hni
          · exact ⟨n, hn, hni⟩
        have hboth : ∀ n ∈ earlier ++ [m], n.selects i = false := by
          intro n hn
          rcases List.mem_append.1 hn with hn | hn
          · exact hearlier n hn
          · rwa [List.mem_singleton.1 hn]
        obtain ⟨part, hpart, hselects⟩ := ih (by simpa using hlength) hboth hlater
        exact ⟨part, List.mem_cons_of_mem _ hpart, hselects⟩

/-- A successful answer of a masker is a well-formed mask if the entries are well formed and the
context remembers well-formed representations. -/
theorem wellFormed_of_mem_answers (he : ∀ e ∈ entries, e.WellFormed) (hc : c.All Raster.WellFormed)
    {m : Mask} (h : .ok m ∈ answers entries c) : m.WellFormed := by
  induction entries generalizing c with
  | nil => cases h
  | cons e entries ih =>
    have hfirst := he e List.mem_cons_self
    obtain ⟨hr, hall, -⟩ := hc.request e.masker.space (hfirst.masker.space.encode _ hc.image)
    rcases List.mem_cons.1 h with h | h
    · exact hfirst.masker.maskOf hr h.symm
    · exact ih (fun e he' => he e (List.mem_cons_of_mem _ he')) hall h

/-- A successful answer of a masker has the size of the image if the conversions keep sizes. -/
theorem size_of_mem_answers (he : ∀ e ∈ entries, e.WellFormed)
    (hsize : ∀ e ∈ entries, e.masker.space.KeepsSize)
    (hc : c.All fun r => r.WellFormed ∧ r.size = c.image.size) {m : Mask}
    (h : .ok m ∈ answers entries c) : m.size = c.image.size := by
  induction entries generalizing c with
  | nil => cases h
  | cons e entries ih =>
    have hspace := (he e List.mem_cons_self).masker.space
    obtain ⟨hr, hall, himage⟩ := hc.request e.masker.space
      ⟨hspace.encode _ hc.image.1, hsize e List.mem_cons_self _ hc.image.1⟩
    rcases List.mem_cons.1 h with h | h
    · exact (Masker.maskOf_eq_ok.1 h.symm).2.trans hr.2
    · have hnext : (e.masker.mask c).2.image = c.image := himage
      rw [← hnext]
      exact ih (fun e he' => he e (List.mem_cons_of_mem _ he'))
        (fun e he' => hsize e (List.mem_cons_of_mem _ he')) (by rwa [hnext]) h

/-- One step of sharing out: the masker answers, and what its mask has in common with the pixels
that are left goes to the entry. -/
theorem partition_cons (e : Entry) (entries : List Entry) (c : Context) (remaining : Mask) :
    partition (e :: entries) c remaining = (e.masker.mask c).1 >>= fun m => do
      let matched ← remaining.and m
      let left ← remaining.and matched.complement
      let shared ← partition entries (e.masker.mask c).2 left
      return ((matched, e) :: shared.1, shared.2) := by
  rw [partition]
  split
  next fault next hmask => simp [hmask]
  next m next hmask => simp [hmask]

/-- Sharing out pixels succeeds if the masker does, its mask has the size of the pixels that are
left, and the entries behind it share out the rest. -/
theorem partition_cons_eq_ok {e : Entry} {remaining rest : Mask} {parts : List (Mask × Entry)} :
    partition (e :: entries) c remaining = .ok (parts, rest) ↔
      ∃ m, (e.masker.mask c).1 = .ok m ∧ ∃ matched, remaining.and m = .ok matched ∧
        ∃ left, remaining.and matched.complement = .ok left ∧
          ∃ more, partition entries (e.masker.mask c).2 left = .ok (more, rest) ∧
            parts = (matched, e) :: more := by
  simp only [partition_cons, bind_eq_ok, Prod.exists, pure_eq_ok, Except.ok.injEq, Prod.mk.injEq]
  constructor
  · rintro ⟨m, hm, matched, hmatched, left, hleft, more, unmatched, hmore, rfl, rfl⟩
    exact ⟨m, hm, matched, hmatched, left, hleft, more, hmore, rfl⟩
  · rintro ⟨m, hm, matched, hmatched, left, hleft, more, hmore, rfl⟩
    exact ⟨m, hm, matched, hmatched, left, hleft, more, rest, hmore, rfl, rfl⟩

/-- The invariant of the first loop: if the pixels outside some masks are left, each entry gets what
its mask selects without these and without the masks before it, and the pixels outside all masks
are left at the end. -/
theorem partition_eq_ok {width height : Nat} {parts : List (Mask × Entry)} {rest : Mask}
    (hwf : ∀ m, .ok m ∈ answers entries c → m.WellFormed)
    (h : partition entries c ((Mask.filled width height true).without earlier) =
      .ok (parts, rest)) :
    ∃ masks, answers entries c = masks.map .ok ∧ (∀ m ∈ masks, m.size = (width, height)) ∧
      parts = claims earlier entries masks ∧
        rest = (Mask.filled width height true).without (earlier ++ masks) := by
  induction entries generalizing c earlier parts rest with
  | nil =>
    cases h
    exact ⟨[], rfl, by simp, rfl, by simp⟩
  | cons e entries ih =>
    obtain ⟨m, hm, matched, hmatched, left, hleft, more, hmore, rfl⟩ := partition_cons_eq_ok.1 h
    have hmwf : m.WellFormed := hwf m (by rw [answers, hm]; exact List.mem_cons_self)
    have hmsize : m.size = (width, height) := (Mask.zipWith_eq_ok.1 hmatched).1.symm
    obtain rfl : m.without earlier = matched :=
      Except.ok.inj ((Mask.and_outside hmwf hmsize).symm.trans hmatched)
    obtain rfl : (Mask.filled width height true).without (earlier ++ [m]) = left :=
      Except.ok.inj ((Mask.and_complement_without hmwf hmsize).symm.trans hleft)
    obtain ⟨masks, hmasks, hsizes, rfl, rfl⟩ :=
      ih (fun n hn => hwf n (List.mem_cons_of_mem _ hn)) hmore
    refine ⟨m :: masks, by rw [answers, hm, hmasks]; rfl, fun n hn => ?_, rfl, by simp⟩
    rcases List.mem_cons.1 hn with rfl | hn
    · exact hmsize
    · exact hsizes n hn

/-- Sharing out fails at the first masker that fails, and with its fault, or at the first mask of
another size than the pixels that are left have, and with a fault of these sizes. -/
theorem partition_eq_error {width height : Nat} {fault : Fault}
    (hwf : ∀ m, .ok m ∈ answers entries c → m.WellFormed)
    (h : partition entries c ((Mask.filled width height true).without earlier) = .error fault) :
    ∃ (masks : List Mask) (later : List (Except Fault Mask)),
      (∀ m ∈ masks, m.size = (width, height)) ∧
        (answers entries c = masks.map .ok ++ .error fault :: later ∨
          ∃ m, answers entries c = masks.map .ok ++ .ok m :: later ∧ m.size ≠ (width, height) ∧
            fault = .shape (.operandSizes (width, height) m.size)) := by
  induction entries generalizing c earlier with
  | nil => cases h
  | cons e entries ih =>
    rw [answers] at hwf ⊢
    rw [partition_cons] at h
    cases hm : (e.masker.mask c).1 with
    | error fault' =>
      rw [hm] at h
      cases h
      exact ⟨[], _, by simp, .inl rfl⟩
    | ok m =>
      rw [hm] at h hwf
      have hmwf : m.WellFormed := hwf m List.mem_cons_self
      by_cases hmsize : m.size = (width, height)
      · -- the entry gets its part, so that the fault comes from the entries behind it
        have hrest : partition entries (e.masker.mask c).2
            ((Mask.filled width height true).without (earlier ++ [m])) = .error fault := by
          simpa [Mask.and_outside hmwf hmsize, Mask.and_complement_without hmwf hmsize,
            bind_eq_error] using h
        obtain ⟨masks, later, hsizes, hlater⟩ :=
          ih (fun n hn => hwf n (List.mem_cons_of_mem _ hn)) hrest
        refine ⟨m :: masks, later, List.forall_mem_cons.2 ⟨hmsize, hsizes⟩, ?_⟩
        rcases hlater with hlater | ⟨n, hlater, hn⟩
        · exact .inl (by rw [hlater]; rfl)
        · exact .inr ⟨n, by rw [hlater]; rfl, hn⟩
      · rw [ok_bind, Mask.and_outside_eq_error hmsize, error_bind] at h
        cases h
        exact ⟨[], _, by simp, .inr ⟨m, rfl, hmsize, rfl⟩⟩

end Mapper

end Recolor
