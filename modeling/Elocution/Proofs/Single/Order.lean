import Mathlib
import Elocution.Single.Basic

/-!
# The order of single-precision numbers

Two numbers that are defined are ordered one way or the other. So the greater of a number and a
bound that is defined is the number raised to the bound, and the lesser is the number lowered to
it; an undefined number goes to the bound both ways.
-/

namespace Elocution

namespace Single

open Float.Model

theorem compare_swap (a b : UnpackedFloat) :
    (a.compare b).map Ordering.swap = b.compare a := by
  cases a with
  | notANumber => cases b <;> rfl
  | infinity s =>
    cases b with
    | infinity r => cases s <;> cases r <;> rfl
    | _ => cases s <;> rfl
  | zero s =>
    cases b with
    | infinity r => cases r <;> rfl
    | finite r => cases r <;> rfl
    | _ => rfl
  | finite s m e hm =>
    cases b with
    | infinity r => cases s <;> cases r <;> rfl
    | finite r n d hn =>
      cases s <;> cases r <;>
        simp [UnpackedFloat.compare, Ordering.swap_then, Int.compare_swap, Nat.compare_swap]
    | _ => cases s <;> rfl

theorem isSome_compare {a b : UnpackedFloat} (ha : a.isNaN = false) (hb : b.isNaN = false) :
    (a.compare b).isSome := by
  cases a with
  | notANumber => cases ha
  | infinity s =>
    cases b with
    | notANumber => cases hb
    | infinity r => rfl
    | _ => cases s <;> rfl
  | zero s =>
    cases b with
    | notANumber => cases hb
    | infinity r => cases r <;> rfl
    | finite r => cases r <;> rfl
    | zero r => rfl
  | finite s m e hm =>
    cases b with
    | notANumber => cases hb
    | infinity r => cases s <;> cases r <;> rfl
    | finite r => cases s <;> cases r <;> rfl
    | zero r => cases s <;> rfl

theorem lt_iff_compare {a b : Float32} :
    a < b ↔ a.toModel.unpack.compare b.toModel.unpack = some .lt := by
  change decide (a.toModel < b.toModel) = true ↔ _
  rw [decide_eq_true_iff]
  change (a.toModel.unpack.compare b.toModel.unpack == some .lt) = true ↔ _
  exact beq_iff_eq

theorem le_iff_compare {a b : Float32} :
    a ≤ b ↔ (a.toModel.unpack.compare b.toModel.unpack).any Ordering.isLE = true := by
  change decide (a.toModel ≤ b.toModel) = true ↔ _
  rw [decide_eq_true_iff]
  rfl

/-- Defined numbers are ordered one way or the other. -/
theorem le_of_not_lt {a b : Float32} (ha : a.isNaN = false) (hb : b.isNaN = false)
    (h : ¬a < b) : b ≤ a := by
  obtain ⟨o, ho⟩ := Option.isSome_iff_exists.mp (isSome_compare ha hb)
  rw [lt_iff_compare, ho, Option.some_inj] at h
  rw [le_iff_compare, ← compare_swap, ho]
  cases o <;> first | rfl | exact absurd rfl h

theorem le_maxNum {a b : Float32} (hb : b.isNaN = false) (hr : b ≤ b) : b ≤ maxNum a b := by
  unfold maxNum
  split
  · exact hr
  · split
    · simp_all
    · split
      · exact hr
      · exact le_of_not_lt (by simp_all) hb ‹_›

/-- The number, or `least` if it is not as much. -/
def raised (least x : Float32) : Float32 := if least ≤ x then x else least

/-- The number, or `most` if it is not as little. -/
def lowered (most x : Float32) : Float32 := if x ≤ most then x else most

theorem not_le_of_lt {a b : Float32} (h : a < b) : ¬ b ≤ a := by
  rw [lt_iff_compare] at h
  rw [le_iff_compare, ← compare_swap, h]
  exact Bool.false_ne_true

theorem not_isNaN_of_le {a b : Float32} (h : a ≤ b) : a.isNaN = false ∧ b.isNaN = false := by
  rw [le_iff_compare] at h
  change a.toModel.unpack.isNaN = false ∧ b.toModel.unpack.isNaN = false
  cases ha : a.toModel.unpack with
  | notANumber => simp [ha, UnpackedFloat.compare] at h
  | _ =>
    cases hb : b.toModel.unpack with
    | notANumber => simp [ha, hb, UnpackedFloat.compare] at h
    | _ => exact ⟨rfl, rfl⟩

theorem maxNum_eq_raised {a b : Float32} (hb : b.isNaN = false) : maxNum a b = raised b a := by
  unfold maxNum raised
  cases ha : a.isNaN with
  | true =>
    have hno : ¬ b ≤ a := fun h =>
      absurd ((not_isNaN_of_le h).2.symm.trans ha) Bool.false_ne_true
    rw [if_pos rfl, if_neg hno]
  | false =>
    rw [if_neg Bool.false_ne_true, hb, if_neg Bool.false_ne_true]
    by_cases hlt : a < b
    · rw [if_pos hlt, if_neg (not_le_of_lt hlt)]
    · rw [if_neg hlt, if_pos (le_of_not_lt ha hb hlt)]

theorem minNum_eq_lowered {a b : Float32} (hb : b.isNaN = false) : minNum a b = lowered b a := by
  unfold minNum lowered
  cases ha : a.isNaN with
  | true =>
    have hno : ¬ a ≤ b := fun h =>
      absurd ((not_isNaN_of_le h).1.symm.trans ha) Bool.false_ne_true
    rw [if_pos rfl, if_neg hno]
  | false =>
    rw [if_neg Bool.false_ne_true, hb, if_neg Bool.false_ne_true]
    by_cases hlt : b < a
    · rw [if_pos hlt, if_neg (not_le_of_lt hlt)]
    · rw [if_neg hlt, if_pos (le_of_not_lt hb ha hlt)]

end Single

end Elocution
