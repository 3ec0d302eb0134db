import Recolor.Proofs.IntegerNumbers
import Recolor.Proofs.Outcome
import Recolor.Value.Operation

/-!
# The operators on bits and what they lose

The operators on bits turn numbers into 64-bit integers and their results into numbers again. An
integer out of range goes to the end of the range on the way in, and one with more than 24
significant bits to the nearest with 24 on the way out. `Value.kept_bits` says for which numbers
nothing is lost: of those that `&`, `|` and `~` accept, not all.
-/

set_option autoImplicit false

namespace Recolor

namespace Number

/-! ## Inverted integers -/

/-- The integer that `~` makes of an integer: its bits are those of 64, and the number that comes
out has 24. -/
def inverted (i : Int) : Int := roundedInt (-(saturate64 i).toInt - 1)

/-- Inverting a natural number below the limit of 64 bits gives the rounded successor, negated. -/
theorem inverted_natCast {n : Nat} (hn : n < 0x8000000000000000) :
    inverted n = -rounded (n + 1) := by
  have hsub : (-(n : Int) - 1) = -((n + 1 : Nat) : Int) := by omega
  rw [inverted, toInt_saturate64, if_neg (by omega), if_neg (by omega), hsub,
    roundedInt_neg_natCast]

/-- Inverting a negated natural number within the limit of 64 bits gives the rounded predecessor. -/
theorem inverted_neg_natCast {n : Nat} (hpos : 0 < n) (hn : n ≤ 0x8000000000000000) :
    inverted (-n) = rounded (n - 1) := by
  have hsub : -(-(n : Int)) - 1 = (n - 1 : Nat) := by omega
  rw [inverted, toInt_saturate64, if_neg (by omega), if_neg (by omega), hsub, roundedInt_natCast]

/-- Inverting any integer from the upper limit on gives the lower limit. -/
theorem inverted_of_ge {i : Int} (hi : 0x8000000000000000 ≤ i) :
    inverted i = -0x8000000000000000 := by
  rw [inverted, toInt_saturate64, if_neg (by omega), if_pos (by omega)]
  decide

/-- Inverting any integer below the lower limit gives the upper limit. -/
theorem inverted_of_lt {i : Int} (hi : i < -0x8000000000000000) :
    inverted i = 0x8000000000000000 := by
  rw [inverted, toInt_saturate64, if_pos hi]
  decide

/-- A representable natural number comes back after two inversions exactly if it is at most
`2 ^ 63`, and below `2 ^ 24` or a multiple of four other than `2 ^ 24`. -/
theorem inverted_inverted_natCast {n : Nat} (h : rounded n = n) :
    inverted (inverted n) = n ↔
      n ≤ 0x8000000000000000 ∧ (n < 0x1000000 ∨ 4 ∣ n ∧ n ≠ 0x1000000) := by
  rcases Nat.lt_or_ge n 0x8000000000000000 with hn | hn
  · rw [inverted_natCast hn]
    rcases Nat.lt_or_ge n 0x1000000 with hexact | hlong
    · have hsucc : rounded (n + 1) = n + 1 := by
        rcases Nat.lt_or_ge (n + 1) 0x1000000 with hlt | hge
        · exact rounded_of_lt hlt
        · obtain rfl : n = 0xFFFFFF := by omega
          decide
      rw [hsucc, inverted_neg_natCast (by omega) (by omega), Nat.add_sub_cancel, h]
      omega
    · rcases Nat.lt_or_ge n 0x2000000 with hsmall | hlarge
      · rcases Nat.eq_or_lt_of_le hlong with rfl | hlt
        · decide
        · rcases rounded_neighbours_of_lt h hlt hsmall with
            ⟨hmod, hsucc, hpred⟩ | ⟨hmod, hsucc, hpred⟩
          · rw [hsucc, inverted_neg_natCast (by omega) (by omega), hpred]
            omega
          · rw [hsucc, inverted_neg_natCast (by omega) (by omega), Nat.add_succ_sub_one, hsucc]
            omega
      · obtain ⟨hfour, hsucc, hpred⟩ := rounded_neighbours h hlarge
        rw [hsucc, inverted_neg_natCast (by omega) (by omega), hpred]
        omega
  · have hleast : inverted n = -0x8000000000000000 := inverted_of_ge (by omega)
    have hback : inverted (-0x8000000000000000) = 0x8000000000000000 := by decide
    rw [hleast, hback]
    omega

/-- The negation of a representable natural number comes back after two inversions exactly if the
number is at most `2 ^ 63`, and at most `2 ^ 24` or a multiple of four. -/
theorem inverted_inverted_neg_natCast {n : Nat} (h : rounded n = n) (hpos : 0 < n) :
    inverted (inverted (-n)) = -n ↔
      n ≤ 0x8000000000000000 ∧ (n ≤ 0x1000000 ∨ 4 ∣ n) := by
  rcases Nat.lt_or_ge 0x8000000000000000 n with hn | hn
  · have hgreatest : inverted (-n) = 0x8000000000000000 := inverted_of_lt (by omega)
    rw [hgreatest, inverted_of_ge (Int.le_refl _)]
    omega
  · rw [inverted_neg_natCast hpos hn]
    rcases Nat.lt_or_ge 0x1000000 n with hlong | hexact
    · rcases Nat.lt_or_ge n 0x2000000 with hsmall | hlarge
      · rcases rounded_neighbours_of_lt h hlong hsmall with
            ⟨hmod, hsucc, hpred⟩ | ⟨hmod, hsucc, hpred⟩
        · rw [hpred, inverted_natCast (by omega), hsucc]
          omega
        · have hback : n - 2 + 1 = n - 1 := by omega
          rw [hpred, inverted_natCast (by omega), hback, hpred]
          omega
      · obtain ⟨hfour, hsucc, hpred⟩ := rounded_neighbours h hlarge
        rw [hpred]
        rcases Nat.eq_or_lt_of_le hn with rfl | hlt
        · decide
        · rw [inverted_natCast hlt, hsucc]
          omega
    · rw [rounded_of_lt (by omega), inverted_natCast (by omega), Nat.sub_add_cancel hpos, h]
      omega

/-- Inverting an integer twice gives it back below 24 bits, and among the longer ones those that are
multiples of 4, up to 64 bits. -/
theorem inverted_inverted_iff {i : Int} (h : rounded i.natAbs = i.natAbs) :
    inverted (inverted i) = i ↔ i.natAbs ≤ 0x8000000000000000 ∧
      (-0x1000000 ≤ i ∧ i < 0x1000000 ∨ 4 ∣ i ∧ i ≠ 0x1000000) := by
  rcases Int.lt_or_le i 0 with hneg | hnonneg
  · obtain ⟨n, rfl⟩ : ∃ n : Nat, i = -n := ⟨i.natAbs, by omega⟩
    rw [Int.natAbs_neg, Int.natAbs_natCast] at h ⊢
    rw [inverted_inverted_neg_natCast h (by omega)]
    omega
  · obtain ⟨n, rfl⟩ : ∃ n : Nat, i = n := ⟨i.natAbs, by omega⟩
    rw [Int.natAbs_natCast] at h ⊢
    rw [inverted_inverted_natCast h]
    omega

end Number

namespace Value

open Number

variable {x : Number} {i : Int}

/-- An integer is accepted as the operand of a bit operator, and brought to 64 bits. -/
theorem integerOperand_of_isInteger (sign : String) (h : x.isInteger = true) :
    integerOperand sign x = .ok x.toInt64 := by
  rw [integerOperand, if_pos h]

/-- What `~` makes of a number that is an integer. -/
theorem exists_invert_of_isInt (h : x.IsInt i) :
    ∃ y, invert (.number x) = .ok (.number y) ∧ y.IsInt (inverted i) := by
  have hinteger : x.isInteger = true := isInteger_iff.2 ⟨i, h⟩
  refine ⟨ofInt64 (~~~x.toInt64), ?_, ?_⟩
  · rw [invert, integerOperand_of_isInteger "~" hinteger, ok_bind, pure_eq_ok]
  · rw [inverted, ← h.toInt64, ← toInt_not]
    exact isInt_ofInt64 _

/-- What `&` and `|` make of a number that is an integer and itself. -/
theorem exists_connect_of_isInt (h : x.IsInt i) {op : Connective} (hop : op = .and ∨ op = .or) :
    ∃ y, connect op (.number x) (.number x) = .ok (.number y) ∧
      y.IsInt (roundedInt (saturate64 i).toInt) := by
  have hinteger : x.isInteger = true := isInteger_iff.2 ⟨i, h⟩
  have hself : op.applyBits x.toInt64 x.toInt64 = x.toInt64 := by
    rcases hop with rfl | rfl
    · exact Int64.and_self
    · exact Int64.or_self
  refine ⟨ofInt64 x.toInt64, ?_, ?_⟩
  · simp only [connect, integerOperand_of_isInteger _ hinteger, ok_bind, hself, pure_eq_ok]
  · rw [← h.toInt64]
    exact isInt_ofInt64 _

/-- A representable integer survives the passage to 64 bits and back exactly if it is within their
limit. -/
theorem roundedInt_saturate64_iff (h : rounded i.natAbs = i.natAbs) :
    roundedInt (saturate64 i).toInt = i ↔ i.natAbs ≤ 0x8000000000000000 := by
  rw [toInt_saturate64]
  split_ifs with hlow hhigh
  · have hround : roundedInt (-0x8000000000000000) = -0x8000000000000000 := by decide
    rw [hround]
    omega
  · have hround : roundedInt 0x7FFFFFFFFFFFFFFF = 0x8000000000000000 := by decide
    rw [hround]
    omega
  · have hround : roundedInt i = i := by
      rcases Int.lt_or_le i 0 with hneg | hnonneg
      · obtain ⟨n, rfl⟩ : ∃ n : Nat, i = -n := ⟨i.natAbs, by omega⟩
        rw [Int.natAbs_neg, Int.natAbs_natCast] at h
        rw [roundedInt_neg_natCast, h]
      · obtain ⟨n, rfl⟩ : ∃ n : Nat, i = n := ⟨i.natAbs, by omega⟩
        rw [Int.natAbs_natCast] at h
        rw [roundedInt_natCast, h]
    rw [hround]
    omega

/-- The operators on bits work on 64-bit integers, and numbers have 24 significant bits. So of the
numbers that they accept `x & x` and `x | x` are `x` exactly up to a magnitude of `2 ^ 63`, and
`~(~x)` is `x` exactly if it is not longer than 24 bits, or a multiple of 4 up to that magnitude. -/
theorem kept_bits (h : x.isInteger = true) :
    ∃ i, x.IsInt i ∧
      (∀ op, op = .and ∨ op = .or → ∃ y, connect op (.number x) (.number x) = .ok (.number y) ∧
        (same y x = true ↔ i.natAbs ≤ 0x8000000000000000)) ∧
      ∃ y z, invert (.number x) = .ok (.number y) ∧ invert (.number y) = .ok (.number z) ∧
        (same z x = true ↔ i.natAbs ≤ 0x8000000000000000 ∧
          (-0x1000000 ≤ i ∧ i < 0x1000000 ∨ 4 ∣ i ∧ i ≠ 0x1000000)) := by
  obtain ⟨i, hi⟩ := isInteger_iff.1 h
  have hrounded := rounded_of_isInt hi
  refine ⟨i, hi, ?_, ?_⟩
  · intro op hop
    obtain ⟨y, hy, hint⟩ := exists_connect_of_isInt hi hop
    refine ⟨y, hy, ?_⟩
    rw [same_iff_of_isInt hint hi, roundedInt_saturate64_iff hrounded]
  · obtain ⟨y, hy, hyint⟩ := exists_invert_of_isInt hi
    obtain ⟨z, hz, hzint⟩ := exists_invert_of_isInt hyint
    refine ⟨y, z, hy, hz, ?_⟩
    rw [same_iff_of_isInt hzint hi, inverted_inverted_iff hrounded]

/-- `2 ^ 26` is longer than 24 bits, but a multiple of 4. -/
theorem kept_bits_long :
    isInteger (.ofBits 0x4C800000) = true ∧
      ∃ y z, invert (.number (.ofBits 0x4C800000)) = .ok (.number y) ∧
        invert (.number y) = .ok (.number z) ∧ same z (.ofBits 0x4C800000) = true := by
  have hinteger : isInteger (.ofBits 0x4C800000) = true := by decide
  obtain ⟨i, ⟨d, hd, -, rfl⟩, -, y, z, hy, hz, hsame⟩ := kept_bits hinteger
  have hvalue : dyadic? (.ofBits 0x4C800000) = some ⟨false, 0x800000, 3⟩ := by decide
  obtain rfl : ⟨false, 0x800000, 3⟩ = d := Option.some.inj (hvalue.symm.trans hd)
  exact ⟨hinteger, y, z, hy, hz, hsame.2 (by decide)⟩

/-- Not every number that the operators on bits accept is kept: `2 ^ 65 & 2 ^ 65` is `2 ^ 63`, and
`~(~(2 ^ 24))` is one less than `2 ^ 24`. -/
theorem bits_lost :
    (isInteger (.ofBits 0x60000000) = true ∧
      ∃ y, connect .and (.number (.ofBits 0x60000000)) (.number (.ofBits 0x60000000)) =
        .ok (.number y) ∧ same y (.ofBits 0x60000000) = false) ∧
      isInteger (.ofBits 0x4B800000) = true ∧
        ∃ y z, invert (.number (.ofBits 0x4B800000)) = .ok (.number y) ∧
          invert (.number y) = .ok (.number z) ∧ same z (.ofBits 0x4B800000) = false := by
  have hwide : IsInt (.ofBits 0x60000000) 0x20000000000000000 :=
    ⟨⟨false, 0x800000, 42⟩, by decide, by decide, by decide⟩
  have hodd : IsInt (.ofBits 0x4B800000) 0x1000000 :=
    ⟨⟨false, 0x800000, 1⟩, by decide, by decide, by decide⟩
  obtain ⟨y, hy, hyint⟩ := exists_connect_of_isInt hwide (.inl rfl)
  obtain ⟨z, hz, hzint⟩ := exists_invert_of_isInt hodd
  obtain ⟨w, hw, hwint⟩ := exists_invert_of_isInt hzint
  refine ⟨⟨isInteger_iff.2 ⟨_, hwide⟩, y, hy, ?_⟩, isInteger_iff.2 ⟨_, hodd⟩, z, w, hz, hw, ?_⟩
  · rw [← Bool.not_eq_true, same_iff_of_isInt hyint hwide]
    decide
  · rw [← Bool.not_eq_true, same_iff_of_isInt hwint hodd]
    decide

end Value

end Recolor
