import Mathlib
import Rulebook.Number.Binary

/-!
# Finite doubles

Whether a double is finite is read off its exponent alone, which negation keeps.
-/

namespace Rulebook.Number

open Float.Model (Format UnpackedFloat)
open Float.Model.UnpackedFloat

/-! ## The exponent -/

abbrev exponentBits (b : BitVec 64) : BitVec 11 := @unpackExponent Format.binary64 b

theorem toNat_exponentBits (b : BitVec 64) :
    (exponentBits b).toNat = b.toNat / 2 ^ 52 % 2 ^ 11 := by
  unfold exponentBits unpackExponent
  rw [BitVec.toNat_cast, BitVec.extractLsb_toNat, Nat.shiftRight_eq_div_pow]
  rfl

/-- All bits of the exponent are set. -/
theorem exponentBits_eq_iff (b : BitVec 64) :
    exponentBits b = -1#11 ↔ b.toNat / 2 ^ 52 % 2 ^ 11 = 2047 := by
  rw [← BitVec.toNat_inj, toNat_exponentBits]
  rfl

theorem isFinite_unpack (b : BitVec 64) :
    (unpack Format.binary64 b).isFinite = true ↔ exponentBits b ≠ -1#11 := by
  unfold unpack
  simp only
  split
  · next all => split <;> simp [UnpackedFloat.isFinite, all]
  · next some =>
    refine (iff_true_right some).mpr ?_
    split
    · split <;> rfl
    · rfl

/-! ## Negation -/

/-- The exponent is not beyond that of the greatest double. -/
def Fits : UnpackedFloat → Prop
  | .finite _ _ e _ => e < 972
  | _ => True

theorem fits_unpack (b : BitVec 64) : Fits (unpack Format.binary64 b) := by
  have lt := (exponentBits b).isLt
  unfold unpack
  simp only
  split
  · split <;> exact trivial
  · next some =>
    have ne : (exponentBits b).toNat ≠ 2047 := fun eq => some (BitVec.toNat_inj.mp eq)
    split
    · next none =>
      have zero : (exponentBits b).toNat = 0 := congrArg BitVec.toNat none
      split
      · exact trivial
      · change ((exponentBits b).toNat : Int) - (1023 + 52) + 1 < 972
        omega
    · change ((exponentBits b).toNat : Int) - (1023 + 52) < 972
      omega

theorem Fits.neg {u : UnpackedFloat} (h : Fits u) : Fits u.neg := by cases u <;> exact h

theorem isFinite_unpack_pack {u : UnpackedFloat} (h : Fits u) :
    (unpack Format.binary64 (pack Format.binary64 u)).isFinite = u.isFinite := by
  rw [Bool.eq_iff_iff, isFinite_unpack]
  cases u with
  | infinity s =>
    simp [pack, packedInfinity, UnpackedFloat.isFinite]
  | notANumber =>
    simp [pack, packedNaN, UnpackedFloat.isFinite]
  | zero s =>
    simp [pack, packedZero, UnpackedFloat.isFinite]
  | finite s m e pos =>
    have bias : (e + Format.binary64.exponentBias + (52 : Nat)).toNat = (e + 1075).toNat := by
      rw [Int.add_assoc]
      rfl
    have lt : (e + 1075).toNat + 1 < 2048 := by
      have h : e < 972 := h
      omega
    simp only [UnpackedFloat.isFinite, iff_true]
    unfold pack
    simp only [bias]
    rw [if_neg (Nat.not_le.mpr lt)]
    split
    · rw [exponentBits, unpackExponent_packComponents]
      intro eq
      have eq := congrArg BitVec.toNat eq
      rw [BitVec.toNat_ofNat] at eq
      change (e + 1075).toNat % 2048 = 2047 at eq
      omega
    · rw [exponentBits, unpackExponent_packComponents]
      decide

theorem isFinite_unpacked_neg (u : UnpackedFloat) : u.neg.isFinite = u.isFinite := by
  cases u <;> rfl

theorem isFinite_neg (x : Float) : (-x).isFinite = x.isFinite := by
  have fits := (fits_unpack x.toBits.toBitVec).neg
  exact (isFinite_unpack_pack fits).trans (isFinite_unpacked_neg _)

/-! ## Decoding -/

/-- A finite double has a mantissa of at most 53 bits. -/
theorem decode_of_isFinite {x : Float} (h : x.isFinite = true) :
    ∃ b, decode x = .finite b ∧ b.mantissa < 2 ^ 53 := by
  have some := (isFinite_unpack x.toBits.toBitVec).mp h
  rw [ne_eq, exponentBits_eq_iff] at some
  have some : ¬ x.toBits.toNat / hiddenBit % 2048 = 2047 := some
  have lt := Nat.mod_lt x.toBits.toNat (show 0 < hiddenBit by decide)
  unfold decode decodeBits
  simp only
  rw [if_neg some]
  unfold hiddenBit at lt ⊢
  split
  · refine ⟨_, rfl, ?_⟩
    simp only
    omega
  · refine ⟨_, rfl, ?_⟩
    simp only
    omega

end Rulebook.Number
