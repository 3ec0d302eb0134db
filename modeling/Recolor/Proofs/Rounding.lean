import Recolor.Proofs.NumberBits

/-!
# Rounding to 24 bits

Numbers have 24 significant bits. `Number.rounded n` is the nearest natural number to `n` with no
more, of two the one whose last bit is zero, and this is the number that `n` is converted to
(`Number.unpacked_ofNat`): a shorter number is filled up with zeros, and from a longer one bits are
shifted out.
-/

set_option autoImplicit false

open Float.Model (Format UnpackedFloat)
open Float.Model.UnpackedFloat

namespace Recolor

/-- For an exponent that is no less than zero the scale is a power. -/
theorem scale_natCast (base k : Nat) : scale base k = base ^ k := rfl

/-- For an exponent that is not above zero the scale is one. -/
theorem scale_neg_natCast (base k : Nat) : scale base (-k) = 1 := by
  have h : (-(k : Int)).toNat = 0 := by omega
  rw [scale, h]
  rfl

namespace Number

/-! ## Nearest natural numbers -/

/-- The natural number nearest to `n / 2 ^ k`, of two the even one. -/
def nearestEven (n k : Nat) : Nat :=
  if 2 * (n % 2 ^ k) < 2 ^ k then n / 2 ^ k
  else if 2 * (n % 2 ^ k) = 2 ^ k then n / 2 ^ k + n / 2 ^ k % 2
  else n / 2 ^ k + 1

/-- Rounding does not go below the integer part of the quotient. -/
theorem le_nearestEven (n k : Nat) : n / 2 ^ k ≤ nearestEven n k := by
  unfold nearestEven
  split_ifs <;> omega

/-- Rounding goes at most one above the integer part of the quotient. -/
theorem nearestEven_le (n k : Nat) : nearestEven n k ≤ n / 2 ^ k + 1 := by
  unfold nearestEven
  split_ifs <;> omega

/-- Bits that are zero can be shifted out first. -/
theorem nearestEven_mul (n k a : Nat) : nearestEven (n * 2 ^ a) (k + a) = nearestEven n k := by
  have hpow : 0 < 2 ^ a := Nat.two_pow_pos a
  have hdiv : n * 2 ^ a / 2 ^ (k + a) = n / 2 ^ k := by
    rw [Nat.pow_add, Nat.mul_div_mul_right _ _ hpow]
  have hmod : n * 2 ^ a % 2 ^ (k + a) = n % 2 ^ k * 2 ^ a := by
    rw [Nat.pow_add, Nat.mul_mod_mul_right]
  have hlt : 2 * (n % 2 ^ k * 2 ^ a) < 2 ^ (k + a) ↔ 2 * (n % 2 ^ k) < 2 ^ k := by
    rw [Nat.pow_add, ← Nat.mul_assoc]
    exact Nat.mul_lt_mul_right hpow
  have heq : 2 * (n % 2 ^ k * 2 ^ a) = 2 ^ (k + a) ↔ 2 * (n % 2 ^ k) = 2 ^ k := by
    rw [Nat.pow_add, ← Nat.mul_assoc]
    exact Nat.mul_left_inj hpow.ne'
  simp only [nearestEven, hdiv, hmod, hlt, heq]

/-- Nothing is lost if no bit is shifted out. -/
theorem nearestEven_zero (n : Nat) : nearestEven n 0 = n := by
  simp [nearestEven, Nat.mod_one]

/-- Shifting a number to the left adds to its logarithm. -/
theorem log2_mul_two_pow {n : Nat} (hn : n ≠ 0) (k : Nat) : (n * 2 ^ k).log2 = n.log2 + k := by
  obtain ⟨hlow, hhigh⟩ := (Nat.log2_eq_iff hn).1 rfl
  have hpow : 0 < 2 ^ k := Nat.two_pow_pos k
  refine (Nat.log2_eq_iff (Nat.mul_ne_zero hn hpow.ne')).2 ⟨?_, ?_⟩
  · rw [Nat.pow_add]
    exact Nat.mul_le_mul_right _ hlow
  · rw [Nat.add_right_comm, Nat.pow_add]
    exact Nat.mul_lt_mul_of_pos_right hhigh hpow

/-- The bits that are kept. -/
theorem div_of_log2 {n k : Nat} (h : n.log2 = 23 + k) :
    0x800000 ≤ n / 2 ^ k ∧ n / 2 ^ k < 0x1000000 := by
  have hn : n ≠ 0 := by
    rintro rfl
    rw [Nat.log2_zero] at h
    omega
  obtain ⟨hlow, hhigh⟩ := (Nat.log2_eq_iff hn).1 h
  have hpow : 0 < 2 ^ k := Nat.two_pow_pos k
  rw [Nat.le_div_iff_mul_le hpow, Nat.div_lt_iff_lt_mul hpow]
  constructor
  · rwa [Nat.pow_add] at hlow
  · rwa [Nat.add_right_comm, Nat.pow_add] at hhigh

/-- The natural number nearest to `n` among those with 24 significant bits, of two the one whose
last bit is zero. -/
def rounded (n : Nat) : Nat := nearestEven n (n.log2 - 23) * 2 ^ (n.log2 - 23)

/-- Natural numbers of up to 24 bits are not rounded. -/
theorem rounded_of_lt {n : Nat} (hn : n < 0x1000000) : rounded n = n := by
  rcases Nat.eq_zero_or_pos n with rfl | hpos
  · rfl
  · have hlog : n.log2 < 24 := (Nat.log2_lt (by omega)).2 hn
    have hzero : n.log2 - 23 = 0 := by omega
    rw [rounded, hzero, nearestEven_zero, Nat.pow_zero, Nat.mul_one]

/-- The bits behind the 24th decide on which side a number is rounded to. -/
theorem rounded_add {q k r : Nat} (hlow : 0x800000 ≤ q) (hhigh : q < 0x1000000) (hr : r < 2 ^ k) :
    rounded (q * 2 ^ k + r) =
      (if 2 * r < 2 ^ k then q else if 2 * r = 2 ^ k then q + q % 2 else q + 1) * 2 ^ k := by
  have hpow : 0 < 2 ^ k := Nat.two_pow_pos k
  have hlog : (q * 2 ^ k + r).log2 = 23 + k := by
    have hle : 0x800000 * 2 ^ k ≤ q * 2 ^ k := Nat.mul_le_mul_right _ hlow
    have hlt : (q + 1) * 2 ^ k ≤ 0x1000000 * 2 ^ k := Nat.mul_le_mul_right _ hhigh
    rw [Nat.succ_mul] at hlt
    refine (Nat.log2_eq_iff (by omega)).2 ⟨?_, ?_⟩
    · rw [Nat.pow_add]
      omega
    · rw [Nat.add_right_comm, Nat.pow_add]
      omega
  have hk : (q * 2 ^ k + r).log2 - 23 = k := by omega
  have hdiv : (q * 2 ^ k + r) / 2 ^ k = q := by
    rw [Nat.add_comm, Nat.add_mul_div_right _ _ hpow, Nat.div_eq_of_lt hr, Nat.zero_add]
  have hmod : (q * 2 ^ k + r) % 2 ^ k = r := by
    rw [Nat.add_comm, Nat.add_mul_mod_self_right, Nat.mod_eq_of_lt hr]
  rw [rounded, hk, nearestEven, hdiv, hmod]

/-- A number that is kept has zeros behind its 24th bit. -/
theorem eq_mul_of_rounded_eq {n : Nat} (h : rounded n = n) (hn : 0x1000000 ≤ n) :
    ∃ q k, n = q * 2 ^ (k + 1) ∧ 0x800000 ≤ q ∧ q < 0x1000000 := by
  have hlog : 24 ≤ n.log2 := (Nat.le_log2 (by omega)).2 hn
  obtain ⟨k, hk⟩ := Nat.exists_eq_add_of_le hlog
  have hshift : n.log2 - 23 = k + 1 := by omega
  obtain ⟨hlow, hhigh⟩ := div_of_log2 (n := n) (k := k + 1) (by omega)
  rw [rounded, hshift] at h
  have hdvd : 2 ^ (k + 1) ∣ n := Dvd.intro_left _ h
  exact ⟨n / 2 ^ (k + 1), k, (Nat.div_mul_cancel hdvd).symm, hlow, hhigh⟩

/-- From 25 bits on the odd numbers lie half-way between two that are kept. -/
theorem rounded_odd {q : Nat} (hlow : 0x800000 ≤ q) (hhigh : q < 0x1000000) :
    rounded (2 * q + 1) = 2 * (q + q % 2) := by
  have h := rounded_add hlow hhigh (k := 1) (r := 1) (by omega)
  rw [Nat.pow_one, if_neg (by omega), if_pos rfl, Nat.mul_comm, Nat.mul_comm _ 2] at h
  exact h

/-- From 26 bits on the neighbours of a number that is kept are rounded to it. -/
theorem rounded_neighbours {n : Nat} (h : rounded n = n) (hn : 0x2000000 ≤ n) :
    4 ∣ n ∧ rounded (n + 1) = n ∧ rounded (n - 1) = n := by
  obtain ⟨q, k, rfl, hlow, hhigh⟩ := eq_mul_of_rounded_eq h (by omega)
  cases k with
  | zero => omega
  | succ k =>
    have hpow : 0 < 2 ^ k := Nat.two_pow_pos k
    have hfour : 2 ^ (k + 1 + 1) = 4 * 2 ^ k := by ring
    have htwo : 2 ^ (k + 1) = 2 * 2 ^ k := by ring
    refine ⟨?_, ?_, ?_⟩
    · rw [hfour, Nat.mul_left_comm]
      exact Nat.dvd_mul_right _ _
    · rw [rounded_add hlow hhigh (by omega), if_pos (by omega)]
    · rcases Nat.lt_or_ge 0x800000 q with hlt | hge
      · have hpred : q * 2 ^ (k + 1 + 1) - 1 =
            (q - 1) * 2 ^ (k + 1 + 1) + (2 ^ (k + 1 + 1) - 1) := by
          have hle : 1 * 2 ^ (k + 1 + 1) ≤ q * 2 ^ (k + 1 + 1) := Nat.mul_le_mul_right _ (by omega)
          rw [Nat.sub_one_mul]
          omega
        rw [hpred, rounded_add (by omega) (by omega) (by omega), if_neg (by omega),
          if_neg (by omega)]
        congr 1
        omega
      · -- the number below is one bit shorter, and all of its first 24 bits are set
        obtain rfl : q = 0x800000 := by omega
        have hpred : 0x800000 * 2 ^ (k + 1 + 1) - 1 =
            0xFFFFFF * 2 ^ (k + 1) + (2 ^ (k + 1) - 1) := by
          omega
        rw [hpred, rounded_add (by omega) (by omega) (by omega), if_neg (by omega)]
        split_ifs
        · omega
        · omega

/-- Numbers of 25 bits that are kept are even, and their neighbours are rounded to the nearest
multiple of 4. -/
theorem rounded_neighbours_of_lt {n : Nat} (h : rounded n = n) (hn : 0x1000000 < n)
    (hn' : n < 0x2000000) :
    n % 4 = 0 ∧ rounded (n + 1) = n ∧ rounded (n - 1) = n ∨
      n % 4 = 2 ∧ rounded (n + 1) = n + 2 ∧ rounded (n - 1) = n - 2 := by
  obtain ⟨q, k, rfl, hlow, hhigh⟩ := eq_mul_of_rounded_eq h (by omega)
  have hpow : 0 < 2 ^ k := Nat.two_pow_pos k
  obtain rfl : k = 0 := by
    by_contra hne
    have hle : 2 ^ 2 ≤ 2 ^ (k + 1) := Nat.pow_le_pow_right (by omega) (by omega)
    have hmul := Nat.mul_le_mul hlow hle
    omega
  have hsucc := rounded_odd hlow hhigh
  have hpred := rounded_odd (q := q - 1) (by omega) (by omega)
  have hadd : q * 2 ^ (0 + 1) + 1 = 2 * q + 1 := by omega
  have hsub : q * 2 ^ (0 + 1) - 1 = 2 * (q - 1) + 1 := by omega
  rw [hadd, hsub, hsucc, hpred]
  omega

/-! ## Rounding of mantissas -/

/-- Bits that are shifted out leave behind the last of them, and whether any other was set. -/
theorem shiftRight_succ (m k : Nat) :
    ExtendedMantissa.ofMantissaAndAccuracy m .exact >>> (k + 1) =
      ⟨m / 2 ^ (k + 1), m / 2 ^ k % 2 != 0, m % 2 ^ k != 0⟩ := by
  induction k with
  | zero =>
    show ExtendedMantissa.shiftRightOne _ = _
    simp [ExtendedMantissa.shiftRightOne, ExtendedMantissa.ofMantissaAndAccuracy, Nat.repeat,
      Nat.mod_one]
  | succ k ih =>
    have hstep : ExtendedMantissa.ofMantissaAndAccuracy m .exact >>> (k + 1 + 1) =
      (ExtendedMantissa.ofMantissaAndAccuracy m .exact >>> (k + 1)).shiftRightOne := rfl
    have hmod : m % 2 ^ (k + 1) = m % 2 ^ k + 2 ^ k * (m / 2 ^ k % 2) := Nat.mod_pow_succ
    have hpow : 0 < 2 ^ k := Nat.two_pow_pos k
    rw [hstep, ih, ExtendedMantissa.shiftRightOne]
    simp only [ExtendedMantissa.mk.injEq, true_and]
    refine ⟨?_, ?_⟩
    · rw [Nat.div_div_eq_div_mul, ← Nat.pow_succ]
    · rw [hmod]
      rcases Nat.mod_two_eq_zero_or_one (m / 2 ^ k) with h | h <;> simp [h]

/-- A mantissa that is shifted to the right by `k` bits rounds to the number nearest to its `2 ^
k`-th part. -/
theorem roundedMantissa_shiftRight (m k : Nat) :
    (ExtendedMantissa.ofMantissaAndAccuracy m .exact >>> k).roundedMantissa = nearestEven m k := by
  cases k with
  | zero =>
    have hshift : ExtendedMantissa.ofMantissaAndAccuracy m .exact >>> 0 = ⟨m, false, false⟩ := rfl
    rw [hshift]
    simp [ExtendedMantissa.roundedMantissa, ExtendedMantissa.accuracy,
      Accuracy.roundToNearestEven, nearestEven, Nat.mod_one]
  | succ k =>
    have hmod : m % 2 ^ (k + 1) = m % 2 ^ k + 2 ^ k * (m / 2 ^ k % 2) := Nat.mod_pow_succ
    have hlt : m % 2 ^ k < 2 ^ k := Nat.mod_lt _ (Nat.two_pow_pos k)
    have hpow : 2 ^ (k + 1) = 2 * 2 ^ k := Nat.pow_succ'
    rw [shiftRight_succ, nearestEven, hmod, hpow]
    generalize m / (2 * 2 ^ k) = q
    generalize m % 2 ^ k = r at *
    generalize 2 ^ k = p at *
    rcases Nat.mod_two_eq_zero_or_one (m / p) with hbit | hbit <;>
      by_cases hrest : r = 0 <;>
      simp [ExtendedMantissa.roundedMantissa, ExtendedMantissa.accuracy,
        Accuracy.roundToNearestEven, hbit, hrest] <;> grind

/-- The exponent that rounding aims at leaves 24 bits, as long as it is not below the least one. -/
theorem targetExponent_eq (m : Nat) (e : Int) :
    Format.binary32.targetExponent (Float.Model.totalExponent m e) =
      max (m.log2 + e - 23) (-149) := by
  have hbits : (Format.binary32.mantissaBits : Int) = 24 := rfl
  have hmin : Format.binary32.minExponent = -149 := rfl
  rw [Format.targetExponent, Float.Model.totalExponent, hbits, hmin]
  omega

/-- What a mantissa is shifted by before it is rounded: from its exponent up to the one aimed at. -/
theorem shiftToTargetExponent_eq (m : Nat) (e : Int) :
    shiftToTargetExponent .binary32 m e .exact =
      (ExtendedMantissa.ofMantissaAndAccuracy m .exact >>> (max (m.log2 + e - 23) (-149) - e).toNat,
        e + (max (m.log2 + e - 23) (-149) - e).toNat) := by
  rw [shiftToTargetExponent, targetExponent_eq]
  rfl

/-- What rounding makes of a mantissa with at least 24 bits. -/
theorem roundWithAccuracy_eq (s : Sign) {n k : Nat} {e : Int} (hn : n.log2 = 23 + k)
    (he : -149 ≤ e + k) :
    ∃ m t hpos, roundWithAccuracy .binary32 s n e .exact = .finite s m (e + (t : Nat)) hpos ∧
      0x800000 ≤ m ∧ m < 0x1000000 ∧ m * 2 ^ t = nearestEven n k * 2 ^ k ∧ k ≤ t ∧ t ≤ k + 1 := by
  obtain ⟨hlow, hhigh⟩ := div_of_log2 hn
  have hle := le_nearestEven n k
  have hge := nearestEven_le n k
  have hfirst : (max (n.log2 + e - 23) (-149) - e).toNat = k := by omega
  rw [roundWithAccuracy, shiftToTargetExponent_eq, hfirst]
  dsimp only
  rw [roundedMantissa_shiftRight, shiftToTargetExponent_eq]
  dsimp only
  generalize nearestEven n k = q at *
  rcases Nat.lt_or_ge q 0x1000000 with hq | hq
  · have hlog : q.log2 = 23 := (Nat.log2_eq_iff (by omega)).2 ⟨by omega, by omega⟩
    have hsecond : (max (q.log2 + (e + k) - 23) (-149) - (e + k)).toNat = 0 := by omega
    have hshift : (ExtendedMantissa.ofMantissaAndAccuracy q .exact >>> 0).mantissa = q := rfl
    rw [hsecond, hshift, dif_neg (by omega)]
    exact ⟨q, k, by omega, by simp, by omega, hq, rfl, by omega, by omega⟩
  · -- rounding up has carried into a bit more
    obtain rfl : q = 0x1000000 := by omega
    have hsecond : (max ((0x1000000 : Nat).log2 + (e + k) - 23) (-149) - (e + k)).toNat = 1 := by
      have hlog : (0x1000000 : Nat).log2 = 24 := by decide
      rw [hlog]
      omega
    have hshift : (ExtendedMantissa.ofMantissaAndAccuracy 0x1000000 .exact >>> 1).mantissa =
        0x800000 := rfl
    rw [hsecond, hshift, dif_neg (by omega)]
    refine ⟨0x800000, k + 1, by omega, ?_, by omega, by omega, ?_, by omega, by omega⟩
    · congr 1
      omega
    · rw [Nat.pow_succ]
      omega

/-- A mantissa of 24 bits with zeros behind it is kept. -/
theorem roundWithAccuracy_mul (s : Sign) {m : Nat} (hm : 0x800000 ≤ m) (hm' : m < 0x1000000)
    {k : Nat} {e : Int} (he : -149 ≤ e + k) :
    ∃ hpos, roundWithAccuracy .binary32 s (m * 2 ^ k) e .exact = .finite s m (e + k) hpos := by
  have hlog : m.log2 = 23 := (Nat.log2_eq_iff (by omega)).2 ⟨hm, hm'⟩
  have hlog' : (m * 2 ^ k).log2 = 23 + k := by rw [log2_mul_two_pow (by omega), hlog]
  have hnearest : nearestEven (m * 2 ^ k) k = m := by
    have h := nearestEven_mul m 0 k
    rwa [Nat.zero_add, nearestEven_zero] at h
  obtain ⟨m', t, hpos, hround, hlow, hhigh, hvalue, hle, hge⟩ := roundWithAccuracy_eq s hlog' he
  rw [hnearest] at hvalue
  have hpow : 0 < 2 ^ k := Nat.two_pow_pos k
  rcases Nat.eq_or_lt_of_le hle with rfl | hlt
  · obtain rfl : m' = m := Nat.eq_of_mul_eq_mul_right hpow hvalue
    exact ⟨hpos, hround⟩
  · -- one more bit would not fit
    obtain rfl : t = k + 1 := by omega
    rw [Nat.pow_succ', ← Nat.mul_assoc] at hvalue
    have htwice : m' * 2 = m := Nat.eq_of_mul_eq_mul_right hpow hvalue
    omega

/-! ## Conversion of natural numbers -/

/-- From 24 bits on a number is what rounding makes of it. -/
theorem ofNat_of_large {n : Nat} (hn : 0x800000 ≤ n) :
    Float32.ofNat n =
      ⟨.pack (roundWithAccuracy .binary32 .positive (n * 2 ^ 24) (-24) .exact)⟩ := by
  have hne : n ≠ 0 := by omega
  have hmodel : UnpackedFloat.ofScientific .binary32 n 0 =
      roundWithAccuracy .binary32 .positive (n * 2 ^ 24) (-24) .exact := by
    have hexponents : (2 : Int) ^ Format.binary32.exponentBits = 256 := rfl
    have hpositive : Sign.positive * Sign.positive = .positive := rfl
    have hbits : Format.binary32.mantissaBits = 24 := rfl
    rw [UnpackedFloat.ofScientific, dif_neg hne, hexponents, if_neg (by decide),
      if_neg (by omega), if_pos (by decide)]
    simp only [UnpackedFloat.mul, Nat.shiftLeft_eq, hbits, hpositive, Int.toNat_zero, Nat.pow_zero,
      Nat.mul_one, Int.add_zero]
    rfl
  have hofNat : Float32.ofNat n = Float32.ofScientific n false 0 := rfl
  rw [hofNat, Float32.ofScientific, dif_neg (by omega), ← hmodel]
  rfl

/-- Multiplication by one leaves a normal number as it is. -/
theorem unpacked_mul_one {x : Number} {s : Sign} {m : Nat} {e : Int} {hpos : 0 < m}
    (hx : x.unpacked = .finite s m e hpos) (hm : 0x800000 ≤ m) (hm' : m < 0x1000000)
    (he : -149 ≤ e) (he' : e ≤ 104) :
    unpacked (x * Float32.ofBits 0x3F800000) = .finite s m e hpos := by
  have hone : unpacked (Float32.ofBits 0x3F800000) = .finite .positive 0x800000 (-23) (by decide) :=
    rfl
  have hsign : s * Sign.positive = s := by cases s <;> rfl
  have hexponent : e - 23 + (23 : Nat) = e := by omega
  obtain ⟨_, hround⟩ := roundWithAccuracy_mul s hm hm' (k := 23) (e := e - 23) (by omega)
  have hproduct : UnpackedFloat.mul .binary32 (.finite s m e hpos)
      (.finite .positive 0x800000 (-23) (by decide)) = .finite s m e hpos := by
    rw [hexponent] at hround
    rw [UnpackedFloat.mul, hsign]
    exact hround
  have hmul : x * Float32.ofBits 0x3F800000 = ⟨.pack (UnpackedFloat.mul .binary32 x.unpacked
      (unpacked (Float32.ofBits 0x3F800000)))⟩ := rfl
  rw [hmul, hx, hone, hproduct]
  exact unpacked_pack hm hm' he he'

/-- A shorter number is filled up with zeros when a machine integer is converted. -/
theorem unpacked_toFloat32 {n a : Nat} (hne : n ≠ 0) (hfill : n.log2 + a = 23) :
    ∃ hpos, unpacked n.toUInt64.toFloat32 = .finite .positive (n * 2 ^ a) (-a) hpos := by
  have hlog : (n * 2 ^ a).log2 = 23 := by rw [log2_mul_two_pow hne, hfill]
  have hpos : 0 < n * 2 ^ a := Nat.mul_pos (by omega) (Nat.two_pow_pos a)
  obtain ⟨hlow, hhigh⟩ := (Nat.log2_eq_iff hpos.ne').1 hlog
  have hlt : n < 0x1000000 := (Nat.log2_lt hne).1 (by omega : n.log2 < 24)
  have htoNat : n.toUInt64.toNat = n := by
    simp
    omega
  have hgt : compare (n : Int) 0 = .gt := by
    rw [Int.compare_eq_gt]
    omega
  have hamount : (-max (n.log2 + 0 - 23 : Int) (-149)).toNat = a := by omega
  obtain ⟨_, hround⟩ := roundWithAccuracy_mul .positive hlow hhigh (k := 0) (e := -a) (by omega)
  have hofNat : UnpackedFloat.ofNat .binary32 n = .finite .positive (n * 2 ^ a) (-a) hpos := by
    rw [UnpackedFloat.ofNat, UnpackedFloat.ofInt, UnpackedFloat.normalize, hgt]
    simp only [UnpackedFloat.round, decreaseExponent, Int.toNat_natCast, targetExponent_eq,
      Nat.shiftLeft_eq, Int.zero_sub, hamount]
    rw [Nat.pow_zero, Nat.mul_one] at hround
    rw [hround]
    simp only [Int.natCast_zero, Int.add_zero]
  have hconverted :
      n.toUInt64.toFloat32 = ⟨.pack (UnpackedFloat.ofNat .binary32 n.toUInt64.toNat)⟩ := rfl
  rw [hconverted, htoNat, hofNat]
  exact ⟨hpos, unpacked_pack hlow hhigh (by omega) (by omega)⟩

/-- A natural number of fewer than 24 bits is converted by filling up zeros. -/
theorem unpacked_ofNat_of_small {n : Nat} (hne : n ≠ 0) (hn : n < 0x800000) :
    ∃ hpos, unpacked (Float32.ofNat n) =
      .finite .positive (n * 2 ^ (23 - n.log2)) (-(23 - n.log2 : Nat)) hpos := by
  have hlog : n.log2 < 23 := (Nat.log2_lt hne).2 hn
  have hlog' : (n * 2 ^ (23 - n.log2)).log2 = 23 := by
    rw [log2_mul_two_pow hne]
    omega
  -- the number is converted, and then multiplied by one
  have hofNat : Float32.ofNat n = n.toUInt64.toFloat32 * Float32.ofBits 0x3F800000 := by
    have h : Float32.ofNat n = Float32.ofScientific n false 0 := rfl
    rw [h, Float32.ofScientific, dif_pos ⟨hn, by omega⟩]
    rfl
  obtain ⟨hpos, hconverted⟩ := unpacked_toFloat32 hne (Nat.add_sub_of_le hlog.le)
  obtain ⟨hlow, hhigh⟩ := (Nat.log2_eq_iff hpos.ne').1 hlog'
  rw [hofNat]
  exact ⟨hpos, unpacked_mul_one hconverted hlow hhigh (by omega) (by omega)⟩

/-- The mantissa and the exponent that a natural number is converted to: they are in range, and
their value is the rounded number. -/
theorem unpacked_ofNat {n : Nat} (hne : n ≠ 0) (hn : n.log2 ≤ 126) :
    ∃ m e hpos, unpacked (Float32.ofNat n) = .finite .positive m e hpos ∧ 0x800000 ≤ m ∧
      m < 0x1000000 ∧ -149 ≤ e ∧ e ≤ 104 ∧ m * scale 2 e = rounded n * scale 2 (-e) := by
  rcases Nat.lt_or_ge n 0x800000 with hsmall | hlarge
  · have hlog : n.log2 < 23 := (Nat.log2_lt hne).2 hsmall
    obtain ⟨hpos, hunpacked⟩ := unpacked_ofNat_of_small hne hsmall
    have hlog' : (n * 2 ^ (23 - n.log2)).log2 = 23 := by
      rw [log2_mul_two_pow hne]
      omega
    obtain ⟨hlow, hhigh⟩ := (Nat.log2_eq_iff hpos.ne').1 hlog'
    refine ⟨_, _, hpos, hunpacked, hlow, hhigh, by omega, by omega, ?_⟩
    rw [Int.neg_neg, scale_natCast, scale_neg_natCast, rounded_of_lt (by omega), Nat.mul_one]
  · have hlog : 23 ≤ n.log2 := (Nat.le_log2 hne).2 hlarge
    obtain ⟨j, hj⟩ := Nat.exists_eq_add_of_le hlog
    have hlog' : (n * 2 ^ 24).log2 = 23 + (j + 24) := by
      rw [log2_mul_two_pow hne]
      omega
    obtain ⟨m, t, hpos, hround, hlow, hhigh, hvalue, hle, hge⟩ :=
      roundWithAccuracy_eq .positive hlog' (e := -24) (by omega)
    obtain ⟨u, rfl⟩ := Nat.exists_eq_add_of_le (Nat.le_trans (Nat.le_add_left 24 j) hle)
    have hexponent : -24 + ((24 + u : Nat) : Int) = u := by omega
    rw [hexponent] at hround
    refine ⟨m, u, hpos, ?_, hlow, hhigh, by omega, by omega, ?_⟩
    · rw [ofNat_of_large hlarge, hround, unpacked_pack hlow hhigh (by omega) (by omega)]
    · have hj' : n.log2 - 23 = j := by omega
      rw [nearestEven_mul, Nat.pow_add 2 24 u, Nat.pow_add 2 j 24, ← Nat.mul_assoc] at hvalue
      rw [scale_natCast, scale_neg_natCast, rounded, hj', Nat.mul_one]
      have hpow : 0 < 2 ^ 24 := by decide
      refine Nat.eq_of_mul_eq_mul_right hpow ?_
      rw [Nat.mul_right_comm, hvalue, Nat.mul_assoc]

end Number

end Recolor
