import Recolor.Proofs.Rounding

/-!
# Integers among the numbers

Some numbers are integers (`Number.IsInt`). An integer is converted to the nearest one with 24
significant bits (`Number.isInt_ofInt`), and numbers that are integers are equal if they are the
same integer (`Number.same_iff_of_isInt`).
-/

set_option autoImplicit false

open Float.Model.UnpackedFloat

namespace Recolor

/-- Powers of two are positive. -/
theorem scale_pos (e : Int) : 0 < scale 2 e := Nat.pow_pos (by decide)

/-- A scale is one on one side of the binary point. -/
theorem scale_eq_one (e : Int) : scale 2 e = 1 ∨ scale 2 (-e) = 1 := by
  rcases Int.le_total 0 e with h | h
  · right
    have hzero : (-e).toNat = 0 := by omega
    rw [scale, hzero]
  · left
    have hzero : e.toNat = 0 := by omega
    rw [scale, hzero]

namespace Dyadic

/-- An exact value is an integer of the given magnitude. -/
theorem isInteger_iff {d : Dyadic} {n : Nat} :
    d.isInteger = true ∧ d.magnitude = n ↔
      d.mantissa * scale 2 d.exponent = n * scale 2 (-d.exponent) := by
  have hpos := scale_pos (-d.exponent)
  rw [isInteger, magnitude, beq_iff_eq]
  constructor
  · rintro ⟨hmod, rfl⟩
    have hdvd := Dvd.dvd.mul_right (Nat.dvd_of_mod_eq_zero hmod) (scale 2 d.exponent)
    exact (Nat.div_mul_cancel hdvd).symm
  · intro h
    rw [h, Nat.mul_div_cancel _ hpos]
    refine ⟨?_, rfl⟩
    rcases scale_eq_one d.exponent with hone | hone
    · rw [hone, Nat.mul_one] at h
      rw [h, Nat.mul_mod_left]
    · rw [hone, Nat.mod_one]


end Dyadic

namespace Number

/-- The number is the given integer. -/
def IsInt (x : Number) (i : Int) : Prop :=
  ∃ d, x.dyadic? = some d ∧ d.isInteger = true ∧ d.truncate = i

/-- A finite number is an integer if its mantissa and exponent make up that integer. -/
theorem isInt_of_unpacked {x : Number} {s : Sign} {m n : Nat} {e : Int} {hpos : 0 < m}
    (hx : x.unpacked = .finite s m e hpos) (hvalue : m * scale 2 e = n * scale 2 (-e)) :
    x.IsInt (s.apply n) := by
  have hd : x.dyadic? = some ⟨s == .negative, m, e⟩ := by rw [dyadic?_eq, hx]
  obtain ⟨hinteger, hmagnitude⟩ := Dyadic.isInteger_iff.2
    (show (⟨s == .negative, m, e⟩ : Dyadic).mantissa * _ = n * _ from hvalue)
  refine ⟨_, hd, hinteger, ?_⟩
  rw [Dyadic.truncate, hmagnitude]
  cases s <;> rfl

/-- The integer nearest to `i` among those with 24 significant bits. -/
def roundedInt : Int → Int
  | .ofNat n => rounded n
  | .negSucc n => -rounded (n + 1)

/-- The number that an integer is converted to. -/
theorem isInt_ofInt {i : Int} (hi : i.natAbs.log2 ≤ 126) :
    IsInt (Float32.ofInt i) (roundedInt i) := by
  cases i with
  | ofNat n =>
    have hofInt : Float32.ofInt (.ofNat n) = Float32.ofNat n := rfl
    rw [hofInt, roundedInt]
    rcases Nat.eq_zero_or_pos n with rfl | hpos
    · exact ⟨⟨false, 0, -149⟩, by decide, by decide, by decide⟩
    · obtain ⟨m, e, hm, hunpacked, -, -, -, -, hvalue⟩ := unpacked_ofNat hpos.ne' hi
      exact isInt_of_unpacked hunpacked hvalue
  | negSucc n =>
    obtain ⟨m, e, hm, hunpacked, hlow, hhigh, hmin, hmax, hvalue⟩ :=
      unpacked_ofNat (Nat.succ_ne_zero n) hi
    have hneg : Float32.ofInt (.negSucc n) =
        ⟨.pack (unpacked (Float32.ofNat (n + 1))).neg⟩ := rfl
    have hunpacked' : unpacked (Float32.ofInt (.negSucc n)) = .finite .negative m e hm := by
      rw [hneg, hunpacked]
      exact unpacked_pack hlow hhigh hmin hmax
    exact isInt_of_unpacked hunpacked' hvalue

section IsInt

variable {x y : Number} {i j : Int}

/-- The test for integers accepts a number exactly if its value is one. -/
theorem isInteger_iff : x.isInteger = true ↔ ∃ i, x.IsInt i := by
  unfold isInteger
  constructor
  · intro h
    split at h
    next d hd => exact ⟨d.truncate, d, hd, h, rfl⟩
    next => cases h
  · rintro ⟨_, d, hd, hinteger, -⟩
    rw [hd]
    exact hinteger

/-- The value of an integer in full: a mantissa of 24 bits, if it is not zero. -/
theorem IsInt.value (h : x.IsInt i) :
    ∃ d, x.dyadic? = some d ∧ d.truncate = i ∧
      d.mantissa * scale 2 d.exponent = i.natAbs * scale 2 (-d.exponent) := by
  obtain ⟨d, hd, hinteger, rfl⟩ := h
  have hmagnitude : d.magnitude = d.truncate.natAbs := by
    unfold Dyadic.truncate
    split <;> omega
  exact ⟨d, hd, rfl, Dyadic.isInteger_iff.1 ⟨hinteger, hmagnitude⟩⟩

/-- An integer is brought to 64 bits by taking the limits for what lies beyond them. -/
theorem IsInt.toInt64 (h : x.IsInt i) : x.toInt64 = saturate64 i := by
  obtain ⟨d, hd, -, rfl⟩ := h
  simp only [Number.toInt64, hd]

/-- The exponent of an integer that is not zero is the place of its 24th bit. -/
theorem exponent_of_ne_zero {d : Dyadic} {n : Nat} (hd : x.dyadic? = some d)
    (hvalue : d.mantissa * scale 2 d.exponent = n * scale 2 (-d.exponent)) (hn : n ≠ 0) :
    d.exponent = n.log2 - 23 := by
  obtain ⟨hlt, hge⟩ := mantissa_of_dyadic? hd
  have hlow : 0x800000 ≤ d.mantissa := by
    rcases hge with hge | hleast
    · exact hge
    · -- less than one is no integer
      rw [hleast] at hvalue
      have hone : scale 2 (-149) = 1 := by decide
      have hscale : 0x1000000 ≤ scale 2 (- -149) := by decide
      rw [hone, Nat.mul_one] at hvalue
      have hle := Nat.mul_le_mul (Nat.pos_of_ne_zero hn) hscale
      omega
  have hlog : d.mantissa.log2 = 23 := (Nat.log2_eq_iff (by omega)).2 ⟨hlow, hlt⟩
  have hlogs := congrArg Nat.log2 hvalue
  have hleft : (d.mantissa * scale 2 d.exponent).log2 = d.mantissa.log2 + d.exponent.toNat :=
    log2_mul_two_pow (by omega) _
  have hright : (n * scale 2 (-d.exponent)).log2 = n.log2 + (-d.exponent).toNat :=
    log2_mul_two_pow hn _
  omega

/-- Numbers that are integers are equal if they are the same integer. -/
theorem same_iff_of_isInt (hx : x.IsInt i) (hy : y.IsInt j) : same x y = true ↔ i = j := by
  obtain ⟨c, hc, hi, hcvalue⟩ := hx.value
  obtain ⟨d, hd, hj, hdvalue⟩ := hy.value
  rw [same_iff_of_dyadic? hc hd]
  have hzero : ∀ {e : Dyadic} {k : Int},
      e.mantissa * scale 2 e.exponent = k.natAbs * scale 2 (-e.exponent) →
      (e.mantissa = 0 ↔ k = 0) := by
    intro e k hvalue
    have hleft := (scale_pos e.exponent).ne'
    have hright := (scale_pos (-e.exponent)).ne'
    have hboth := congrArg (· = 0) hvalue
    simpa [Nat.mul_eq_zero, hleft, hright] using hboth
  constructor
  · rintro (⟨hczero, hdzero⟩ | rfl)
    · rw [(hzero hcvalue).1 hczero, (hzero hdvalue).1 hdzero]
    · rw [← hi, ← hj]
  · rintro rfl
    by_cases hne : i = 0
    · exact .inl ⟨(hzero hcvalue).2 hne, (hzero hdvalue).2 hne⟩
    · right
      have hn : i.natAbs ≠ 0 := Int.natAbs_ne_zero.2 hne
      have hexponent : c.exponent = d.exponent := by
        rw [exponent_of_ne_zero hc hcvalue hn, exponent_of_ne_zero hd hdvalue hn]
      have hmantissa : c.mantissa = d.mantissa := by
        rw [hexponent, ← hdvalue] at hcvalue
        exact Nat.eq_of_mul_eq_mul_right (scale_pos _) hcvalue
      have hmagnitude : c.magnitude = d.magnitude := by
        rw [Dyadic.magnitude, Dyadic.magnitude, hmantissa, hexponent]
      have hnegative : c.negative = d.negative := by
        rw [Dyadic.truncate, hmagnitude] at hi
        rw [Dyadic.truncate] at hj
        cases hcsign : c.negative <;> cases hdsign : d.negative <;>
          simp only [hcsign, hdsign, if_true, if_false, Bool.false_eq_true] at hi hj ⊢ <;> omega
      cases c
      cases d
      simp_all only

end IsInt

/-- An integer is kept when it is converted to the number that it is. -/
theorem rounded_of_isInt {x : Number} {i : Int} (h : x.IsInt i) : rounded i.natAbs = i.natAbs := by
  obtain ⟨d, hd, -, hvalue⟩ := h.value
  by_cases hne : i.natAbs = 0
  · rw [hne]
    rfl
  · obtain ⟨hlt, hge⟩ := mantissa_of_dyadic? hd
    have hexponent := exponent_of_ne_zero hd hvalue hne
    rcases Nat.lt_or_ge i.natAbs.log2 24 with hsmall | hlarge
    · exact rounded_of_lt ((Nat.log2_lt hne).1 hsmall)
    · -- the mantissa is followed by zeros
      obtain ⟨k, hk⟩ := Nat.exists_eq_add_of_le (Nat.le_trans (by omega : 23 ≤ 24) hlarge)
      have hexponent' : d.exponent = k := by omega
      have hpow : 0 < 2 ^ k := Nat.two_pow_pos k
      have hround := rounded_add (by omega : 0x800000 ≤ d.mantissa) hlt hpow
      rw [if_pos (by omega), Nat.add_zero] at hround
      rw [hexponent', scale_natCast, scale_neg_natCast, Nat.mul_one] at hvalue
      rw [← hvalue, hround]

/-- A natural number is rounded as it is. -/
theorem roundedInt_natCast (n : Nat) : roundedInt n = rounded n := rfl

/-- The negation of a natural number is rounded to the negation of what the number is rounded to. -/
theorem roundedInt_neg_natCast (n : Nat) : roundedInt (-n) = -rounded n := by
  cases n with
  | zero => rfl
  | succ n => rfl

/-- A number made of a 64-bit integer is the integer, rounded. -/
theorem isInt_ofInt64 (i : Int64) : IsInt (ofInt64 i) (roundedInt i.toInt) := by
  refine isInt_ofInt ?_
  have hlow := i.le_toInt
  have hhigh := i.toInt_lt
  by_cases hne : i.toInt.natAbs = 0
  · rw [hne, Nat.log2_zero]
    omega
  · have hlt : i.toInt.natAbs.log2 < 127 := (Nat.log2_lt hne).2 (by omega)
    omega

/-- An integer brought between two bounds. -/
theorem toInt_saturate64 (i : Int) :
    (saturate64 i).toInt =
      if i < -0x8000000000000000 then -0x8000000000000000
      else if 0x7FFFFFFFFFFFFFFF < i then 0x7FFFFFFFFFFFFFFF else i := by
  have hmin : Int64.minValue.toInt = -0x8000000000000000 := rfl
  have hmax : Int64.maxValue.toInt = 0x7FFFFFFFFFFFFFFF := rfl
  unfold saturate64
  rw [hmin, hmax]
  split_ifs with hlow hhigh
  · rfl
  · rfl
  · exact Int64.toInt_ofInt_of_le (by omega) (by omega)

/-- The bits of a 64-bit integer turned round are those of its negation less one. -/
theorem toInt_not (a : Int64) : (~~~a).toInt = -a.toInt - 1 := by
  have hlow := a.le_toInt
  have hhigh := a.toInt_lt
  rw [Int64.toInt_not]
  exact Int.bmod_eq_of_le (by omega) (by omega)

end Number

end Recolor
