import Mathlib
import Elocution.Proofs.Single.Order

/-!
# What single-precision numbers stand for

A finite number stands for its significand times a power of two. A significand has its hidden bit
unless the exponent is the least, so that finite numbers are ordered as what they stand for.
-/

namespace Elocution

namespace Single

open Float.Model (Format UnpackedFloat)
open Float.Model.UnpackedFloat

/-! ## The fields of a number -/

/-- The bits of the significand, less the hidden one. -/
def fractionField (x : Float32) : Nat := x.toBits.toNat % 2 ^ 23

def exponentField (x : Float32) : Nat := x.toBits.toNat / 2 ^ 23 % 2 ^ 8

theorem toNat_fraction (x : Float32) : (x.toBits &&& 0x7fffff).toNat = fractionField x := by
  change x.toBits.toNat &&& (2 ^ 23 - 1) = _
  rw [Nat.and_two_pow_sub_one_eq_mod, fractionField]

theorem toNat_exponent (x : Float32) :
    ((x.toBits >>> 23) &&& 0xff).toNat = exponentField x := by
  change (x.toBits.toNat >>> 23) &&& (2 ^ 8 - 1) = _
  rw [Nat.and_two_pow_sub_one_eq_mod, Nat.shiftRight_eq_div_pow, exponentField]

theorem fractionField_lt (x : Float32) : fractionField x < 2 ^ 23 := Nat.mod_lt _ (by decide)

theorem significand_eq (x : Float32) :
    significand x = if exponentField x = 0 then fractionField x else 2 ^ 23 + fractionField x := by
  have hzero : ((x.toBits >>> 23) &&& 0xff == 0) = true ↔ exponentField x = 0 := by
    rw [beq_iff_eq, ← UInt32.toNat_inj, toNat_exponent]
    rfl
  simp only [significand, toNat_fraction, hzero]
  split
  · rfl
  · exact Nat.add_comm _ _

theorem exponent_eq (x : Float32) :
    exponent x = if exponentField x = 0 then -149 else (exponentField x : Int) - 150 := by
  rw [exponent, toNat_exponent]
  split <;> omega

theorem significand_lt (x : Float32) : significand x < 2 ^ 24 := by
  have hlt := fractionField_lt x
  rw [significand_eq]
  split <;> omega

/-- The hidden bit is missing only at the least exponent. -/
theorem le_significand {x : Float32} (h : -149 < exponent x) : 2 ^ 23 ≤ significand x := by
  rw [exponent_eq] at h
  rw [significand_eq]
  split
  · simp_all
  · exact Nat.le_add_right _ _

theorem le_exponent (x : Float32) : -149 ≤ exponent x := by
  rw [exponent_eq]
  split <;> omega

theorem sign_eq (x : Float32) :
    Sign.ofBitVec (@unpackSign Format.binary32 x.toBits.toBitVec) =
      if isNegative x then .negative else .positive := by
  have hbit : (@unpackSign Format.binary32 x.toBits.toBitVec).toNat = x.toBits.toNat / 2 ^ 31 := by
    have hlt := x.toBits.toNat_lt
    change (x.toBits.toNat >>> 31) % 2 = _
    rw [Nat.shiftRight_eq_div_pow, Nat.mod_eq_of_lt (by omega)]
  have hneg : isNegative x = true ↔ x.toBits.toNat / 2 ^ 31 = 1 := by
    rw [isNegative, beq_iff_eq, ← UInt32.toNat_inj]
    change x.toBits.toNat >>> 31 = 1 ↔ _
    rw [Nat.shiftRight_eq_div_pow]
  have hlt := x.toBits.toNat_lt
  by_cases h : x.toBits.toNat / 2 ^ 31 = 1
  · rw [if_pos (hneg.mpr h), Sign.ofBitVec, if_neg]
    intro hzero
    rw [hzero, h] at hbit
    exact absurd hbit (by decide)
  · rw [if_neg (mt hneg.mp h), Sign.ofBitVec, if_pos]
    apply BitVec.eq_of_toNat_eq
    rw [hbit]
    change _ = 0
    omega

theorem exponentField_eq (x : Float32) :
    (@unpackExponent Format.binary32 x.toBits.toBitVec).toNat = exponentField x := by
  change (x.toBits.toNat >>> 23) % 2 ^ 8 = _
  rw [Nat.shiftRight_eq_div_pow, exponentField]

theorem fractionField_eq (x : Float32) :
    (@unpackMantissa Format.binary32 x.toBits.toBitVec).toNat = fractionField x := by
  change (x.toBits.toNat >>> 0) % 2 ^ 23 = _
  rw [Nat.shiftRight_zero, fractionField]

theorem hidden_eq (x : Float32) :
    (1#1 ++ @unpackMantissa Format.binary32 x.toBits.toBitVec).toNat =
      2 ^ 23 + fractionField x := by
  rw [BitVec.toNat_append, fractionField_eq, ← Nat.shiftLeft_add_eq_or_of_lt (fractionField_lt x)]
  rfl

/-- A finite number is made of its sign, its significand and its exponent. -/
theorem unpack_of_isFinite {x : Float32} (h : x.isFinite = true) :
    (significand x = 0 ∧ ∃ s, x.toModel.unpack = .zero s) ∨
      ∃ hm, x.toModel.unpack = .finite (if isNegative x then .negative else .positive)
        (significand x) (exponent x) hm := by
  change (unpack Format.binary32 x.toBits.toBitVec).isFinite = true at h
  change (significand x = 0 ∧ ∃ s, unpack Format.binary32 x.toBits.toBitVec = .zero s) ∨
    ∃ hm, unpack Format.binary32 x.toBits.toBitVec = _
  rw [significand_eq, exponent_eq]
  unfold unpack at h ⊢
  dsimp only at h ⊢
  rw [sign_eq]
  split at h
  · split at h <;> cases h
  · rename_i hlast
    rw [if_neg hlast]
    -- The least exponent is that of numbers with no hidden bit.
    by_cases hzero : @unpackExponent Format.binary32 x.toBits.toBitVec = 0#_
    · have hfield : exponentField x = 0 := by
        rw [← exponentField_eq, hzero]
        rfl
      simp only [if_pos hzero, if_pos hfield]
      by_cases hnone : @unpackMantissa Format.binary32 x.toBits.toBitVec = 0#_
      · refine .inl ⟨?_, ?_⟩
        · rw [← fractionField_eq, hnone]
          rfl
        · rw [dif_pos hnone]
          exact ⟨_, rfl⟩
      · have hpos : 0 < fractionField x := by
          rw [← fractionField_eq, Nat.pos_iff_ne_zero]
          exact fun h => hnone (BitVec.eq_of_toNat_eq h)
        refine .inr ⟨hpos, ?_⟩
        rw [dif_neg hnone, UnpackedFloat.finite.injEq, exponentField_eq, hfield]
        exact ⟨rfl, fractionField_eq x, rfl⟩
    · have hfield : exponentField x ≠ 0 := by
        rw [← exponentField_eq]
        exact fun h => hzero (BitVec.eq_of_toNat_eq h)
      simp only [if_neg hzero, if_neg hfield]
      refine .inr ⟨by omega, ?_⟩
      rw [UnpackedFloat.finite.injEq, exponentField_eq]
      exact ⟨rfl, hidden_eq x, rfl⟩

/-! ## Values -/

def magnitude (x : Float32) : ℚ := significand x * 2 ^ exponent x

/-- What a finite number stands for. -/
def value (x : Float32) : ℚ := if isNegative x then -magnitude x else magnitude x

theorem scaled_lt {m n : ℕ} {e d : ℤ} (hm : m < 2 ^ 24) (hn : 2 ^ 23 ≤ n) (h : e < d) :
    (m : ℚ) * 2 ^ e < n * 2 ^ d := by
  have hstep : (2 : ℚ) ^ (e + 1) ≤ 2 ^ d := zpow_le_zpow_right₀ (by norm_num) (by omega)
  calc (m : ℚ) * 2 ^ e < 2 ^ 24 * 2 ^ e := by
        gcongr
        exact_mod_cast hm
    _ = 2 ^ 23 * 2 ^ (e + 1) := by
        rw [zpow_add_one₀ (by norm_num)]
        ring
    _ ≤ n * 2 ^ d := by
        gcongr
        exact_mod_cast hn

/-- Exponents decide, then significands. -/
theorem magnitude_le_iff (x y : Float32) :
    ((compare (exponent x) (exponent y)).then (compare (significand x) (significand y))).isLE =
      true ↔ magnitude x ≤ magnitude y := by
  have hx := le_exponent x
  have hy := le_exponent y
  unfold magnitude
  rcases lt_trichotomy (exponent x) (exponent y) with h | h | h
  · have hlt := scaled_lt (significand_lt x) (le_significand (by omega : -149 < exponent y)) h
    rw [compare_lt_iff_lt.mpr h]
    exact iff_of_true rfl hlt.le
  · rw [h, compare_eq_iff_eq.mpr rfl, Ordering.then, Nat.isLE_compare,
      mul_le_mul_iff_left₀ (by positivity), Nat.cast_le]
  · have hlt := scaled_lt (significand_lt y) (le_significand (by omega : -149 < exponent x)) h
    rw [compare_gt_iff_gt.mpr h]
    exact iff_of_false Bool.false_ne_true hlt.not_ge

theorem magnitude_pos {x : Float32} (h : 0 < significand x) : 0 < magnitude x := by
  unfold magnitude
  positivity

theorem magnitude_of_zero {x : Float32} (h : significand x = 0) : magnitude x = 0 := by
  rw [magnitude, h, Nat.cast_zero, zero_mul]

/-- Finite numbers are ordered as what they stand for. -/
theorem le_iff_value_le {x y : Float32} (hx : x.isFinite = true) (hy : y.isFinite = true) :
    x ≤ y ↔ value x ≤ value y := by
  rw [le_iff_compare]
  unfold value
  rcases unpack_of_isFinite hx with ⟨hzx, s, hx⟩ | ⟨hpx, hx⟩ <;>
    rcases unpack_of_isFinite hy with ⟨hzy, t, hy⟩ | ⟨hpy, hy⟩ <;> rw [hx, hy]
  · simp [UnpackedFloat.compare, magnitude_of_zero hzx, magnitude_of_zero hzy]
  · have hy := magnitude_pos hpy
    cases isNegative y <;>
      simp [UnpackedFloat.compare, magnitude_of_zero hzx, hy, hy.le]
  · have hx := magnitude_pos hpx
    cases isNegative x <;>
      simp [UnpackedFloat.compare, magnitude_of_zero hzy, hx, hx.le]
  · have hx := magnitude_pos hpx
    have hy := magnitude_pos hpy
    cases isNegative x <;> cases isNegative y
    · exact magnitude_le_iff x y
    · refine iff_of_false Bool.false_ne_true ?_
      simp only [Bool.false_eq_true, if_false, if_true]
      linarith
    · refine iff_of_true rfl ?_
      simp only [Bool.false_eq_true, if_false, if_true]
      linarith
    · simp only [if_true, UnpackedFloat.compare, Option.any_some, Ordering.swap_then,
        Int.compare_swap, Nat.compare_swap, neg_le_neg_iff]
      exact magnitude_le_iff y x

theorem lt_iff_value_lt {x y : Float32} (hx : x.isFinite = true) (hy : y.isFinite = true) :
    x < y ↔ value x < value y := by
  have hle := (le_iff_value_le hx hx).mpr le_rfl
  have hle' := (le_iff_value_le hy hy).mpr le_rfl
  rw [← not_le, ← le_iff_value_le hy hx]
  constructor
  · exact not_le_of_lt
  · intro h
    by_contra hlt
    exact h (le_of_not_lt (not_isNaN_of_le hle).1 (not_isNaN_of_le hle').1 hlt)

theorem value_lowered {most x : Float32} (hm : most.isFinite = true) (hx : x.isFinite = true) :
    value (lowered most x) = min (value x) (value most) := by
  unfold lowered
  by_cases h : x ≤ most
  · rw [if_pos h, min_eq_left ((le_iff_value_le hx hm).mp h)]
  · rw [if_neg h, min_eq_right (le_of_not_ge (mt (le_iff_value_le hx hm).mpr h))]

/-- A whole number, told from the fields of a number. -/
theorem value_eq_natCast {x : Float32} {n : Nat} (hs : isNegative x = false)
    (h : significand x * 2 ^ (exponent x + 149).toNat = n * 2 ^ 149) : value x = n := by
  have he := le_exponent x
  obtain ⟨k, hk⟩ := Int.eq_ofNat_of_zero_le (by omega : 0 ≤ exponent x + 149)
  have hexp : exponent x = (k : Int) - 149 := by omega
  rw [hk, Int.toNat_natCast] at h
  have hq : (significand x : ℚ) * 2 ^ k = n * 2 ^ 149 := by exact_mod_cast h
  rw [value, hs, if_neg Bool.false_ne_true, magnitude, hexp, zpow_sub₀ (by norm_num), zpow_natCast,
    ← mul_div_assoc, hq, mul_div_assoc]
  norm_num

theorem value_zero : value 0 = 0 := by
  have hsignificand : significand 0 = 0 := by decide +kernel
  have hsign : isNegative 0 = false := by decide +kernel
  rw [value, hsign, magnitude_of_zero hsignificand]
  rfl

end Single

end Elocution
