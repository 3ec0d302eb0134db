import Mathlib.Data.List.Dedup
import Recolor.Proofs.Outcome
import Recolor.Mapping.Context

/-!
# How often an image is converted

A context is asked for representations of its image in one space after another. Each answer is the
image encoded in the space that was asked for, wherever the context takes it from, and the number of
conversions can be told from the keys that were asked for (`Context.serve_start`): with caching each
key is converted once, and without caching each time it is not the one asked for before. Requests
for red, green and blue count for nothing, and are passed over where it matters which key was asked
for before.

The invariant is `Context.Remembers`: it says what a context holds after requests for given keys.
`Context.Remembers.request` keeps it for one request, and `Context.Remembers.serve` for any number
of them.
-/

set_option autoImplicit false

namespace Recolor

/-! ## Keys -/

/-- The number of places of a list at which another key stands than at the place before. The first
place is one of them. -/
def turns (keys : List String) : Nat :=
  (List.range keys.length).countP fun i => i == 0 || keys[i]? != keys[i - 1]?

/-- One more key makes one more turn, unless it is that of the last place. -/
theorem turns_append (keys : List String) (key : String) :
    turns (keys ++ [key]) = turns keys + if keys.getLast? = some key then 0 else 1 := by
  have hold : ∀ i ∈ List.range keys.length,
      (i == 0 || (keys ++ [key])[i]? != (keys ++ [key])[i - 1]?) = true ↔
        (i == 0 || keys[i]? != keys[i - 1]?) = true := by
    intro i hi
    have hlt := List.mem_range.1 hi
    rw [List.getElem?_append_left hlt, List.getElem?_append_left (by omega)]
  -- only the last place is new, and the key before it is the last of the others
  have hnew : [keys.length].countP
      (fun i => i == 0 || (keys ++ [key])[i]? != (keys ++ [key])[i - 1]?) =
        if keys.getLast? = some key then 0 else 1 := by
    rw [List.countP_singleton, List.getElem?_concat_length, List.getLast?_eq_getElem?]
    cases keys with
    | nil => rfl
    | cons first rest =>
      have hlt : (first :: rest).length - 1 < (first :: rest).length := Nat.sub_one_lt (by simp)
      have hpos : ((first :: rest).length == 0) = false := rfl
      rw [List.getElem?_append_left hlt, hpos, Bool.false_or]
      generalize (first :: rest)[(first :: rest).length - 1]? = previous
      by_cases h : previous = some key
      · simp [h]
      · rw [if_pos (bne_iff_ne.2 (Ne.symm h)), if_neg h]
  unfold turns
  rw [List.length_append, List.length_singleton, List.range_succ, List.countP_append,
    List.countP_congr hold, hnew]

namespace Context

variable {f : String → Raster} {keys : List String} {c : Context} {s : ColorSpace}

/-- What a context holds that was asked for the given keys, none of them that of red, green and
blue, if `f` is the image encoded in the space of each key: the last answer, and with caching one
answer for each key. The number of conversions is that of answers it holds, or without caching the
number of turns from one key to another. -/
structure Remembers (f : String → Raster) (keys : List String) (c : Context) : Prop where
  last : c.last = keys.getLast?.map fun key => (key, f key)
  uncached : c.cache = none → c.conversions = turns keys
  cached : ∀ entries, c.cache = some entries → ∃ known : List String,
    entries = known.map (fun key => (key, f key)) ∧ known.Nodup ∧
      (∀ key, key ∈ known ↔ key ∈ keys) ∧ c.conversions = known.length

/-- A context of which nothing has been asked remembers what no requests leave behind. -/
theorem remembers_start (f : String → Raster) (image : Raster) (caching : Bool) :
    Remembers f [] (start image caching) where
  last := rfl
  uncached _ := rfl
  cached := by
    intro entries h
    cases caching with
    | false => cases h
    | true =>
      cases h
      exact ⟨[], rfl, .nil, fun key => Iff.rfl, rfl⟩

/-- The last answer is at hand for the key that was asked for last, and for no other. -/
theorem Remembers.last?_eq (h : c.Remembers f keys) (key : String) :
    c.last? key = if keys.getLast? = some key then some (f key) else none := by
  unfold last?
  rw [h.last]
  cases keys.getLast? with
  | none => rfl
  | some k =>
    by_cases hk : k = key
    · simp [hk]
    · simp [hk]

/-- A table that holds what a function makes of known keys finds just these. -/
theorem lookup_map (f : String → Raster) (known : List String) (key : String) :
    (known.map fun k => (k, f k)).lookup key = if key ∈ known then some (f key) else none := by
  induction known with
  | nil => rfl
  | cons k known ih =>
    rw [List.map_cons, List.lookup_cons, ih]
    by_cases hk : key = k
    · simp [hk]
    · have hne : (key == k) = false := beq_false_of_ne hk
      simp [hk, hne]

/-- An answer for a key is remembered if the key was asked for, or nothing is, which without
caching says nothing about the key. -/
theorem Remembers.cached?_cases (h : c.Remembers f keys) (key : String) :
    (c.cached? key = some (f key) ∧ key ∈ keys ∧ c.cache ≠ none) ∨
      (c.cached? key = none ∧ ∀ entries, c.cache = some entries → key ∉ keys) := by
  unfold cached?
  cases hcache : c.cache with
  | none => exact .inr ⟨rfl, fun _ hnone => by cases hnone⟩
  | some entries =>
    obtain ⟨known, rfl, -, hmem, -⟩ := h.cached entries hcache
    rw [Option.bind_some, lookup_map, ← hmem]
    by_cases hknown : key ∈ known
    · exact .inl ⟨if_pos hknown, hknown, Option.some_ne_none _⟩
    · exact .inr ⟨if_neg hknown, fun _ _ => hknown⟩

/-- A key that was asked for before is asked for again, and with caching nothing is converted. -/
theorem Remembers.again (h : c.Remembers f keys) {key : String} (hkey : key ∈ keys)
    (hcount : c.cache = none → keys.getLast? = some key) :
    Remembers f (keys ++ [key]) { c with last := some (key, f key) } where
  last := by simp
  uncached hnone := by
    rw [turns_append, if_pos (hcount hnone)]
    exact h.uncached hnone
  cached entries hentries := by
    obtain ⟨known, hknown, hnodup, hmem, hconversions⟩ := h.cached entries hentries
    refine ⟨known, hknown, hnodup, fun k => ?_, hconversions⟩
    rw [hmem, List.mem_append, List.mem_singleton]
    constructor
    · exact .inl
    · rintro (hk | rfl)
      · exact hk
      · exact hkey

/-- The image is converted where nothing is remembered for the key. -/
theorem Remembers.convert (h : c.Remembers f keys) (hencode : s.encode c.image = f s.key)
    (hlast : keys.getLast? ≠ some s.key) (hnew : ∀ entries, c.cache = some entries → s.key ∉ keys) :
    (c.convert s).2.Remembers f (keys ++ [s.key]) where
  last := by simp [Context.convert, hencode]
  uncached hnone := by
    have hcache : c.cache = none := Option.map_eq_none_iff.1 hnone
    rw [turns_append, if_neg hlast, ← h.uncached hcache]
    rfl
  cached entries hentries := by
    obtain ⟨before, hbefore, rfl⟩ := Option.map_eq_some_iff.1 hentries
    obtain ⟨known, rfl, hnodup, hmem, hconversions⟩ := h.cached before hbefore
    refine ⟨s.key :: known, ?_, ?_, fun k => ?_, ?_⟩
    · rw [hencode]
      rfl
    · refine hnodup.cons ?_
      rw [hmem]
      exact hnew _ hbefore
    · rw [List.mem_cons, hmem, List.mem_append, List.mem_singleton, or_comm]
    · rw [List.length_cons, ← hconversions]
      rfl

/-- One request for another space than that of red, green and blue. The answer is the image in that
space, and the key is the last of those that were asked for. -/
theorem Remembers.request (h : c.Remembers f keys) (hs : s.isIdentity = false)
    (hencode : s.encode c.image = f s.key) :
    (c.request s).1 = f s.key ∧ (c.request s).2.image = c.image ∧
      (c.request s).2.Remembers f (keys ++ [s.key]) := by
  rw [Context.request, if_neg (ne_true_of_eq_false hs), h.last?_eq]
  by_cases hlast : keys.getLast? = some s.key
  · have hagain := h.again (List.mem_of_getLast? hlast) fun _ => hlast
    have hsame : c.last = some (s.key, f s.key) := by rw [h.last, hlast, Option.map_some]
    rw [← hsame] at hagain
    rw [if_pos hlast]
    exact ⟨rfl, rfl, hagain⟩
  · rw [if_neg hlast]
    rcases h.cached?_cases s.key with ⟨hhit, hkey, hcaching⟩ | ⟨hmiss, hnew⟩
    · rw [hhit]
      exact ⟨rfl, rfl, h.again hkey fun hnone => absurd hnone hcaching⟩
    · rw [hmiss]
      exact ⟨hencode, rfl, h.convert hencode hlast hnew⟩

/-! ## Runs of requests -/

/-- The answers to requests one after another, and the context after the last. -/
def serve (c : Context) : List ColorSpace → List Raster × Context
  | [] => ([], c)
  | s :: rest =>
    let (answer, next) := c.request s
    let (answers, final) := next.serve rest
    (answer :: answers, final)

/-- The keys of spaces in their order, without that of red, green and blue. -/
def foreignKeys (spaces : List ColorSpace) : List String :=
  (spaces.map (·.key)).filter (· ≠ ColorSpace.identityKey)

/-- A request counts for its key, unless it is one for red, green and blue. -/
theorem foreignKeys_cons (s : ColorSpace) (spaces : List ColorSpace) :
    foreignKeys (s :: spaces) =
      if s.isIdentity then foreignKeys spaces else s.key :: foreignKeys spaces := by
  unfold foreignKeys ColorSpace.isIdentity
  rw [List.map_cons, List.filter_cons]
  by_cases h : s.key = ColorSpace.identityKey
  · simp [h]
  · simp [h]

/-- Requests one after another: each answer is the image in the space that is asked for, and the
keys join those that were asked for before. -/
theorem Remembers.serve {spaces : List ColorSpace} (h : c.Remembers f keys)
    (hencode : ∀ s ∈ spaces, s.isIdentity = false → s.encode c.image = f s.key)
    (hidentity : ∀ s ∈ spaces, s.isIdentity = true → s.encode c.image = c.image) :
    (c.serve spaces).1 = spaces.map (·.encode c.image) ∧
      (c.serve spaces).2.Remembers f (keys ++ foreignKeys spaces) := by
  induction spaces generalizing c keys with
  | nil =>
    have hnone : keys ++ foreignKeys [] = keys := List.append_nil keys
    exact ⟨rfl, hnone.symm ▸ h⟩
  | cons s rest ih =>
    rw [foreignKeys_cons]
    cases hs : s.isIdentity with
    | true =>
      have hrequest : c.request s = (c.image, c) := by rw [Context.request, if_pos hs]
      obtain ⟨hanswers, hfinal⟩ := ih h (fun t ht => hencode t (List.mem_cons_of_mem s ht))
        fun t ht => hidentity t (List.mem_cons_of_mem s ht)
      simp only [Context.serve, hrequest, List.map_cons, hidentity s List.mem_cons_self hs]
      exact ⟨congrArg _ hanswers, hfinal⟩
    | false =>
      have hf := hencode s List.mem_cons_self hs
      obtain ⟨hanswer, himage, hnext⟩ := h.request hs hf
      obtain ⟨hanswers, hfinal⟩ := ih hnext
        (fun t ht ht' => himage.symm ▸ hencode t (List.mem_cons_of_mem s ht) ht')
        fun t ht ht' => himage.symm ▸ hidentity t (List.mem_cons_of_mem s ht) ht'
      rw [himage] at hanswers
      rw [List.append_assoc] at hfinal
      simp only [Context.serve, List.map_cons, hanswer, hf, hanswers]
      exact ⟨trivial, hfinal⟩

/-- A request leaves it as it is whether conversions are cached. -/
theorem caching_request (c : Context) (s : ColorSpace) : (c.request s).2.caching = c.caching := by
  unfold request
  split
  · rfl
  · split
    · rfl
    · split
      · rfl
      · exact Option.isSome_map

/-- Any number of requests leave it as it is whether conversions are cached. -/
theorem caching_serve (c : Context) (spaces : List ColorSpace) :
    (c.serve spaces).2.caching = c.caching := by
  induction spaces generalizing c with
  | nil => rfl
  | cons s rest ih => exact (ih _).trans (caching_request c s)

/-- The image in the space that a list has for a key. -/
def encoding (spaces : List ColorSpace) (image : Raster) (key : String) : Raster :=
  match spaces.find? (·.key == key) with
  | some s => s.encode image
  | none => image

/-- Among spaces that agree wherever their keys do, the image in a space depends on its key only. -/
theorem encode_eq_encoding {spaces : List ColorSpace}
    (hsame : ∀ s ∈ spaces, ∀ t ∈ spaces, s.key = t.key → s.encode = t.encode) (image : Raster)
    (hs : s ∈ spaces) : s.encode image = encoding spaces image s.key := by
  unfold encoding
  split
  next t ht =>
    have hkey : t.key = s.key :=
      beq_iff_eq.1 (@List.find?_some _ (fun t : ColorSpace => t.key == s.key) t spaces ht)
    rw [hsame s hs t (List.mem_of_find?_eq_some ht) hkey.symm]
  next hnone =>
    exact absurd (beq_self_eq_true s.key) (List.find?_eq_none.1 hnone s hs)

/-- What a new context answers, and how often it converts its image, if spaces of one key encode
alike and the space of red, green and blue encodes nothing. Each answer is the image in the space
that is asked for. Without red, green and blue, each key costs one conversion with caching; without
caching each request costs one whose key is not that of the request before. -/
theorem serve_start (spaces : List ColorSpace)
    (hsame : ∀ s ∈ spaces, ∀ t ∈ spaces, s.key = t.key → s.encode = t.encode)
    (hidentity : ∀ s ∈ spaces, s.key = ColorSpace.identityKey → s.encode = id)
    (image : Raster) (caching : Bool) :
    ((start image caching).serve spaces).1 = spaces.map (·.encode image) ∧
      ((start image caching).serve spaces).2.conversions =
        if caching then (foreignKeys spaces).dedup.length else turns (foreignKeys spaces) := by
  have hencode : ∀ s ∈ spaces, s.isIdentity = false →
      s.encode image = encoding spaces image s.key :=
    fun s hs _ => encode_eq_encoding hsame image hs
  have hnoOp : ∀ s ∈ spaces, s.isIdentity = true → s.encode image = image := by
    intro s hs hkey
    rw [hidentity s hs (beq_iff_eq.1 hkey)]
    rfl
  obtain ⟨hanswers, hfinal⟩ :=
    (remembers_start (encoding spaces image) image caching).serve hencode hnoOp
  refine ⟨hanswers, ?_⟩
  have hcaching := caching_serve (start image caching) spaces
  cases caching with
  | false =>
    exact hfinal.uncached (Option.not_isSome_iff_eq_none.1 (ne_true_of_eq_false hcaching))
  | true =>
    obtain ⟨entries, hentries⟩ := Option.isSome_iff_exists.1 hcaching
    obtain ⟨known, -, hnodup, hmem, hconversions⟩ := hfinal.cached entries hentries
    have hperm : known.Perm (foreignKeys spaces).dedup := by
      refine (List.perm_ext_iff_of_nodup hnodup (List.nodup_dedup _)).2 fun key => ?_
      rw [List.mem_dedup]
      exact hmem key
    rw [hconversions, hperm.length_eq]
    rfl

/-- Requests for `hsv`, for red, green and blue, for `hsv` again, for `lab` and for `hsv`. -/
def returningRequests : List ColorSpace := [.hsv, .rgb, .hsv, .lab, .hsv]

/-- Requests that come back to a space cost a conversion more without caching than with it. -/
theorem serve_start_returning :
    ((start ⟨1, 1, 3, [[0, 0.5, 1]]⟩ false).serve returningRequests).2.conversions = 3 ∧
      ((start ⟨1, 1, 3, [[0, 0.5, 1]]⟩ true).serve returningRequests).2.conversions = 2 := by
  have hstandard : ∀ s ∈ returningRequests, s ∈ ColorSpace.standard := by
    simp [returningRequests, ColorSpace.standard]
  -- no two standard spaces have one key
  have hinj : ∀ s ∈ ColorSpace.standard, ∀ t ∈ ColorSpace.standard, s.key = t.key → s = t :=
    List.inj_on_of_nodup_map (by decide)
  have hsame : ∀ s ∈ returningRequests, ∀ t ∈ returningRequests, s.key = t.key →
      s.encode = t.encode := by
    intro s hs t ht hkey
    rw [hinj s (hstandard s hs) t (hstandard t ht) hkey]
  have hidentity : ∀ s ∈ returningRequests, s.key = ColorSpace.identityKey → s.encode = id := by
    intro s hs hkey
    rw [hinj s (hstandard s hs) .rgb (by simp [ColorSpace.standard]) hkey]
    rfl
  exact ⟨(serve_start returningRequests hsame hidentity _ false).2.trans (by decide),
    (serve_start returningRequests hsame hidentity _ true).2.trans (by decide)⟩

end Context

end Recolor
