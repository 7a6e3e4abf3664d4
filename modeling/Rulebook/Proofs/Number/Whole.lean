import Mathlib
import Rulebook.Proofs.Number.Finite

/-!
# Whole numbers as doubles

The nearest double to a whole number is finite as long as the number is not beyond all doubles, as
none of 64 bits is.
-/

namespace Rulebook.Number

open Float.Model (Format UnpackedFloat totalExponent)
open Float.Model.UnpackedFloat

/-! ## Rounding -/

theorem mantissa_shiftRight_le (em : ExtendedMantissa) (n : Nat) :
    (em >>> n).mantissa ≤ em.mantissa := by
  change (n.repeat ExtendedMantissa.shiftRightOne em).mantissa ≤ em.mantissa
  induction n with
  | zero => exact le_rfl
  | succ n ih => exact (Nat.div_le_self _ 2).trans ih

theorem roundedMantissa_le (em : ExtendedMantissa) : em.roundedMantissa ≤ em.mantissa + 1 := by
  unfold ExtendedMantissa.roundedMantissa Accuracy.roundToNearestEven
  split <;> omega

theorem shiftToTargetExponent_le (m : Nat) (e : Int) (a : Accuracy) :
    (shiftToTargetExponent Format.binary64 m e a).1.mantissa ≤ m ∧
      (shiftToTargetExponent Format.binary64 m e a).2 ≤ max e (max (m.log2 + e - 52) (-1074)) := by
  constructor
  · refine (mantissa_shiftRight_le _ _).trans ?_
    cases a with
    | exact => exact le_rfl
    | inexact o => cases o <;> exact le_rfl
  · have target : Format.binary64.targetExponent (totalExponent m e) =
        max (m.log2 + e - 52) (-1074) := by
      unfold Format.targetExponent totalExponent
      rw [show Format.binary64.minExponent = -1074 by decide]
      change max ((m.log2 : Int) + 1 + e - 53) _ = _
      omega
    change e + ((Format.binary64.targetExponent (totalExponent m e) - e).toNat : Int) ≤ _
    rw [target]
    omega

theorem log2_le_of_lt {m n : Nat} (lt : m < 2 ^ n) : m.log2 ≤ n := by
  rcases Nat.eq_zero_or_pos m with rfl | pos
  · exact Nat.zero_le n
  · exact ((Nat.log2_lt (by omega)).mpr lt).le

/-- What is rounded is finite, and far below the greatest double if it has few bits. -/
theorem fits_roundWithAccuracy (s : Sign) {m n : Nat} (lt : m < 2 ^ n) (few : n ≤ 200) {e : Int}
    (low : e ≤ 0) (a : Accuracy) :
    Fits (roundWithAccuracy Format.binary64 s m e a) ∧
      (roundWithAccuracy Format.binary64 s m e a).isFinite = true := by
  obtain ⟨le, exponent⟩ := shiftToTargetExponent_le m e a
  unfold roundWithAccuracy
  -- Rounding up can carry into one more bit, and is followed by a second shift.
  generalize shiftToTargetExponent Format.binary64 m e a = first at le exponent ⊢
  obtain ⟨em, e'⟩ := first
  dsimp only at le exponent ⊢
  have carry : em.roundedMantissa < 2 ^ (n + 1) := by
    have rounded := roundedMantissa_le em
    rw [Nat.pow_succ]
    omega
  have bits := log2_le_of_lt lt
  have bits' := log2_le_of_lt carry
  obtain ⟨-, exponent'⟩ := shiftToTargetExponent_le em.roundedMantissa e' .exact
  split
  · exact ⟨trivial, rfl⟩
  · refine ⟨?_, rfl⟩
    change (shiftToTargetExponent Format.binary64 em.roundedMantissa e' .exact).2 < 972
    omega

/-! ## Integers -/

theorem isFinite_pack_roundWithAccuracy (s : Sign) {m n : Nat} (lt : m < 2 ^ n) (few : n ≤ 200)
    {e : Int} (low : e ≤ 0) (a : Accuracy) :
    (Float.Model.pack (roundWithAccuracy Format.binary64 s m e a)).isFinite = true := by
  obtain ⟨fits, finite⟩ := fits_roundWithAccuracy s lt few low a
  exact (isFinite_unpack_pack fits).trans finite

theorem isFinite_ofScientific {n : Nat} (lt : n < 2 ^ 64) :
    (Float.Model.ofScientific n 0).isFinite = true := by
  unfold Float.Model.ofScientific ofScientific
  split
  · rfl
  · rw [if_neg (by decide), if_neg (by change ¬ 0 < -((2 : Int) ^ 11 + _); omega), if_pos le_rfl]
    have few : n <<< Format.binary64.mantissaBits * 1 < 2 ^ 117 := by
      rw [Nat.shiftLeft_eq]
      change n * 2 ^ 53 * 1 < 2 ^ 117
      omega
    simp only [mul, Int.toNat_zero, Nat.pow_zero]
    exact isFinite_pack_roundWithAccuracy _ few (by decide) (by decide) _

/-- A whole number beyond the signed 64-bit range, but not beyond the unsigned one. -/
theorem isFinite_ofInt {n : Int} (low : 0x8000000000000000 ≤ n) (high : n < 0x10000000000000000) :
    (Float.ofInt n).isFinite = true := by
  obtain ⟨m, rfl⟩ := Int.eq_ofNat_of_zero_le (show 0 ≤ n by omega)
  have many : ¬ (m < 2 ^ 53 ∧ 0 ≤ 22) := by omega
  change (Float.ofScientific m false 0).isFinite = true
  unfold Float.ofScientific
  rw [dif_neg many]
  exact isFinite_ofScientific (by omega)

end Rulebook.Number
