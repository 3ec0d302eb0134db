import Mathlib
import Recolor.Number.Basic

/-!
# The bits of numbers

A number is kept as 32 bits. Operations take it apart into a sign, a mantissa and an exponent
(`Number.unpacked`) and pack their result again, which loses nothing if the result is a normal
number (`Number.unpacked_pack`). What a number is taken apart into is its exact value
(`Number.dyadic?_eq`), so that two numbers are equal if their exact values are the same, or both
are zero (`Number.same_iff_of_dyadic?`).
-/

set_option autoImplicit false

open Float.Model (Format UnpackedFloat)
open Float.Model.UnpackedFloat

namespace Recolor.Number

/-! ## Fields -/

/-- The sign, the mantissa and the exponent of a finite number, or what else it is. -/
def unpacked (x : Number) : UnpackedFloat := x.toModel.unpack

section Fields

variable (v : BitVec 32)

/-- The mantissa of a number is stored in the lowest 23 bits. -/
theorem toNat_unpackMantissa :
    (@unpackMantissa .binary32 v).toNat = v.toNat % 0x800000 := by
  simp [unpackMantissa, BitVec.extractLsb]

/-- The exponent of a number is stored in the eight bits above the mantissa. -/
theorem toNat_unpackExponent :
    (@unpackExponent .binary32 v).toNat = v.toNat / 0x800000 % 0x100 := by
  simp [unpackExponent, BitVec.extractLsb, Nat.shiftRight_eq_div_pow]

/-- The sign of a number is stored in the highest bit. -/
theorem toNat_unpackSign :
    (@unpackSign .binary32 v).toNat = v.toNat / 0x80000000 := by
  have hv := v.isLt
  simp [unpackSign, BitVec.extractLsb, Nat.shiftRight_eq_div_pow]
  omega

/-- A number is negative exactly if its highest bit is set. -/
theorem beq_negative_unpackSign :
    (Sign.ofBitVec (@unpackSign .binary32 v) == Sign.negative) =
      decide (0x80000000 ≤ v.toNat) := by
  have hbit : ∀ b : BitVec 1, (Sign.ofBitVec b == Sign.negative) = decide (b.toNat = 1) := by
    decide
  have hv := v.isLt
  rw [hbit, toNat_unpackSign, decide_eq_decide]
  omega

/-- Two stored exponents are equal if they are as natural numbers. -/
theorem unpackExponent_eq_iff (e : BitVec 8) :
    @unpackExponent .binary32 v = e ↔ v.toNat / 0x800000 % 0x100 = e.toNat := by
  rw [← BitVec.toNat_inj, toNat_unpackExponent]

/-- Two stored mantissas are equal if they are as natural numbers. -/
theorem unpackMantissa_eq_iff (m : BitVec 23) :
    @unpackMantissa .binary32 v = m ↔ v.toNat % 0x800000 = m.toNat := by
  rw [← BitVec.toNat_inj, toNat_unpackMantissa]

/-- The bit in front of the fraction of a normal number. -/
theorem toNat_one_append {w : Nat} (f : BitVec w) : (1#1 ++ f).toNat = 2 ^ w + f.toNat := by
  rw [BitVec.toNat_append, ← Nat.shiftLeft_add_eq_or_of_lt f.isLt]
  simp [Nat.shiftLeft_eq]

end Fields

/-! ## Exact values -/

/-- The exact value of a number is read off the parts that operations work on. -/
theorem dyadic?_eq (x : Number) :
    x.dyadic? =
      match x.unpacked with
      | .finite s m e _ => some ⟨s == .negative, m, e⟩
      | .zero s => some ⟨s == .negative, 0, -149⟩
      | _ => none := by
  have hbits : x.toBits.toNat = x.toModel.toBits.toBitVec.toNat := rfl
  rw [dyadic?, hbits, unpacked, Float32.Model.unpack]
  generalize x.toModel.toBits.toBitVec = v
  have hones := unpackExponent_eq_iff v (-1#8)
  have hzero := unpackExponent_eq_iff v 0#8
  have hnone := unpackMantissa_eq_iff v 0#23
  rw [← beq_negative_unpackSign, unpack]
  dsimp only
  by_cases hbiased : v.toNat / 0x800000 % 0x100 = 255
  · -- an infinity or no number at all
    rw [if_pos hbiased, if_pos (hones.2 hbiased)]
    by_cases hfraction : v.toNat % 0x800000 = 0
    · rw [if_pos (hnone.2 hfraction)]
    · rw [if_neg (mt hnone.1 hfraction)]
  · rw [if_neg hbiased, if_neg (mt hones.1 hbiased)]
    by_cases hsubnormal : v.toNat / 0x800000 % 0x100 = 0
    · rw [if_pos hsubnormal, if_pos (hzero.2 hsubnormal)]
      by_cases hfraction : v.toNat % 0x800000 = 0
      · rw [dif_pos (hnone.2 hfraction), hfraction]
      · rw [dif_neg (mt hnone.1 hfraction)]
        simp only [toNat_unpackMantissa, toNat_unpackExponent, hsubnormal]
        rfl
    · rw [if_neg hsubnormal, if_neg (mt hzero.1 hsubnormal)]
      simp only [toNat_one_append, toNat_unpackMantissa, toNat_unpackExponent]
      rfl

/-- A mantissa has 24 bits, and fewer only if the exponent is the least. -/
theorem mantissa_of_dyadic? {x : Number} {d : Dyadic} (h : x.dyadic? = some d) :
    d.mantissa < 0x1000000 ∧ (0x800000 ≤ d.mantissa ∨ d.exponent = -149) := by
  unfold dyadic? at h
  dsimp only at h
  split at h
  · cases h
  · split at h
    · cases h
      dsimp only
      omega
    · cases h
      dsimp only
      omega

/-- Packing a normal number loses nothing. -/
theorem unpacked_pack {s : Sign} {m : Nat} {e : Int} {hpos : 0 < m} (hm : 0x800000 ≤ m)
    (hm' : m < 0x1000000) (he : -149 ≤ e) (he' : e ≤ 104) :
    unpacked ⟨.pack (.finite s m e hpos)⟩ = .finite s m e hpos := by
  have hlog : m.log2 = 23 := (Nat.log2_eq_iff (Nat.pos_iff_ne_zero.1 hpos)).2 ⟨hm, hm'⟩
  have hbias : (Format.binary32.exponentBias : Int) = 127 := rfl
  have hexponent : (BitVec.ofNat 8 (e + 150).toNat).toNat = (e + 150).toNat := by
    rw [BitVec.toNat_ofNat]
    omega
  have hones : BitVec.ofNat 8 (e + 150).toNat ≠ -1#8 := by
    rw [Ne, ← BitVec.toNat_inj, hexponent, BitVec.neg_one_eq_allOnes, BitVec.toNat_allOnes]
    omega
  have hzero : BitVec.ofNat 8 (e + 150).toNat ≠ 0#8 := by
    rw [Ne, ← BitVec.toNat_inj, hexponent, BitVec.toNat_zero]
    omega
  have hmantissa : (1#1 ++ BitVec.ofNat 23 m).toNat = m := by
    rw [toNat_one_append, BitVec.toNat_ofNat]
    omega
  have hpack : UnpackedFloat.pack .binary32 (.finite s m e hpos) =
      packComponents .binary32 s (BitVec.ofNat 8 (e + 150).toNat) (BitVec.ofNat 23 m) := by
    have hbiased : (e + Format.binary32.exponentBias +
        Format.binary32.mantissaBitsWithoutImplicit).toNat = (e + 150).toNat := by
      rw [hbias]
      dsimp only
      omega
    rw [UnpackedFloat.pack]
    simp only [hlog, hbiased]
    rw [if_neg (by omega), if_pos (by rfl)]
  have hunpacked : unpacked ⟨.pack (.finite s m e hpos)⟩ =
      unpack .binary32 (UnpackedFloat.pack .binary32 (.finite s m e hpos)) := rfl
  rw [hunpacked, hpack, unpack]
  simp only [unpackMantissa_packComponents, unpackExponent_packComponents,
    unpackSign_packComponents, Sign.ofBitVec_toBitVec]
  rw [if_neg hones, if_neg hzero]
  simp only [hmantissa, hexponent, hbias]
  congr 1
  omega

/-! ## Equality -/

/-- Numbers are ordered as what is unpacked from their bits. -/
theorem le_iff (x y : Number) : x ≤ y ↔ x.unpacked.le y.unpacked = true := by
  have h : x ≤ y ↔ decide (x.toModel ≤ y.toModel) = true := Iff.rfl
  rw [h, decide_eq_true_iff]
  exact Iff.rfl

/-- Exponents are compared before mantissas. -/
theorem isLE_then_iff {e e' : Int} {m m' : Nat} :
    ((compare e e').then (compare m m')).isLE = true ↔ e < e' ∨ e = e' ∧ m ≤ m' := by
  cases he : compare e e' <;> cases hm : compare m m' <;> grind [Ordering.then, Ordering.isLE]

/-- Pairs that are compared by their first parts, and then by their second, are in falling order
exactly if the first parts fall, or agree and the second parts do not rise. -/
theorem isGE_then_iff {e e' : Int} {m m' : Nat} :
    ((compare e e').then (compare m m')).isGE = true ↔ e' < e ∨ e = e' ∧ m' ≤ m := by
  cases he : compare e e' <;> cases hm : compare m m' <;> grind [Ordering.then, Ordering.isGE]

/-- Finite numbers are equal if their exact values are the same, or both are zero. -/
theorem same_iff_of_dyadic? {x y : Number} {c d : Dyadic} (hc : x.dyadic? = some c)
    (hd : y.dyadic? = some d) :
    same x y = true ↔ (c.mantissa = 0 ∧ d.mantissa = 0) ∨ c = d := by
  rw [dyadic?_eq] at hc hd
  simp only [same, Bool.and_eq_true, decide_eq_true_iff, le_iff, UnpackedFloat.le]
  generalize x.unpacked = u at *
  generalize y.unpacked = v at *
  cases u with
  | infinity | notANumber => cases hc
  | zero s =>
    cases v with
    | infinity | notANumber => cases hd
    | zero s' =>
      cases hc
      cases hd
      simp [UnpackedFloat.compare]
    | finite s' m' e' hm' =>
      cases hc
      cases hd
      cases s' <;> simp [UnpackedFloat.compare] <;> omega
  | finite s m e hm =>
    cases v with
    | infinity | notANumber => cases hd
    | zero s' =>
      cases hc
      cases hd
      cases s <;> simp [UnpackedFloat.compare] <;> omega
    | finite s' m' e' hm' =>
      cases hc
      cases hd
      cases s <;> cases s' <;>
        simp [UnpackedFloat.compare, isLE_then_iff, isGE_then_iff] <;> omega

end Recolor.Number
