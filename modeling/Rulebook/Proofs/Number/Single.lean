import Mathlib
import Rulebook.Proofs.Number.Finite

/-!
# Numbers of single precision

Rounding to single precision leaves alone what has it already: the rounded double is decoded to the
number that it was put together from, which is kept as it is.
-/

namespace Rulebook.Number

open Float.Model (Format UnpackedFloat)
open Float.Model.UnpackedFloat

/-! ## Bits -/

theorem toNat_unpackMantissa (b : BitVec 64) :
    (@unpackMantissa Format.binary64 b).toNat = b.toNat % 2 ^ 52 := by
  unfold unpackMantissa
  rw [BitVec.toNat_cast, BitVec.extractLsb_toNat, Nat.shiftRight_zero]
  rfl

/-- A double has the bits that it was made from, unless they stand for no number. -/
theorem toBits_ofBits {bits : Nat} (lt : bits < 2 ^ 64)
    (number : bits / hiddenBit % 2048 ≠ 2047 ∨ bits % hiddenBit = 0) :
    (Float.ofBits (UInt64.ofNat bits)).toBits.toNat = bits := by
  have toNat : (UInt64.ofNat bits).toBitVec.toNat = bits := Nat.mod_eq_of_lt lt
  have packed := @pack_unpack Format.binary64 (UInt64.ofNat bits).toBitVec (by decide)
  rw [if_neg] at packed
  · exact (congrArg BitVec.toNat packed).trans toNat
  · unfold isNaNBits
    rw [decide_eq_true_eq]
    rintro ⟨exponent, mantissa⟩
    have exponent := (exponentBits_eq_iff _).mp exponent
    rw [toNat] at exponent
    refine mantissa (BitVec.eq_of_toNat_eq ?_)
    rw [toNat_unpackMantissa, toNat]
    exact number.resolve_left fun ne => ne exponent

theorem decode_ofBits {bits : Nat} (lt : bits < 2 ^ 64)
    (number : bits / hiddenBit % 2048 ≠ 2047 ∨ bits % hiddenBit = 0) :
    decode (Float.ofBits (UInt64.ofNat bits)) = decodeBits bits := by
  rw [decode, toBits_ofBits lt number]

/-- The bits of a number in the normal range, from its parts. -/
theorem decode_normal (negative : Bool) (biased fraction : Nat) (low : 1 ≤ biased)
    (high : biased ≤ 2046) (lt : fraction < hiddenBit) :
    decode (Float.ofBits (UInt64.ofNat
      ((if negative then signBit else 0) + biased * hiddenBit + fraction))) =
      .finite ⟨negative, fraction + hiddenBit, (biased : Int) - 1075⟩ := by
  unfold hiddenBit at lt
  have sign : ((if negative then signBit else 0) = 0 ∧ negative = false) ∨
      (if negative then signBit else 0) = 0x8000000000000000 ∧ negative = true := by
    cases negative <;> simp [signBit]
  generalize (if negative then signBit else 0) = s at sign
  have exponent : (s + biased * hiddenBit + fraction) / hiddenBit % 2048 = biased := by
    unfold hiddenBit
    omega
  have rest : (s + biased * hiddenBit + fraction) % hiddenBit = fraction := by
    unfold hiddenBit
    omega
  have signed : ((s + biased * hiddenBit + fraction) / signBit % 2 = 1) ↔ negative = true := by
    unfold hiddenBit signBit
    rcases sign with ⟨rfl, rfl⟩ | ⟨rfl, rfl⟩ <;> simp <;> omega
  rw [decode_ofBits (by unfold hiddenBit; omega) (.inl (by omega))]
  unfold decodeBits
  simp only [exponent, rest, signed]
  rw [if_neg (by omega), if_neg (by omega)]
  simp

/-! ## Decoding what was put together -/

/-- The power of two that brings a mantissa of at most 53 bits to exactly as many. -/
def lift (mantissa : Nat) : Nat := 52 - mantissa.log2

theorem log2_add_lift {mantissa : Nat} (pos : 0 < mantissa) (lt : mantissa < 2 ^ 53) :
    mantissa.log2 + lift mantissa = 52 := by
  have log : mantissa.log2 < 53 := (Nat.log2_lt (by omega)).mpr lt
  unfold lift
  omega

theorem lifted_bounds {mantissa : Nat} (pos : 0 < mantissa) (lt : mantissa < 2 ^ 53) :
    2 ^ 52 ≤ mantissa * 2 ^ lift mantissa ∧ mantissa * 2 ^ lift mantissa < 2 ^ 53 := by
  have split := log2_add_lift pos lt
  have below := Nat.log2_self_le (n := mantissa) (by omega)
  have above := Nat.lt_log2_self (n := mantissa)
  constructor
  · rw [← split, Nat.pow_add]
    exact Nat.mul_le_mul_right _ below
  · rw [show 53 = mantissa.log2 + 1 + lift mantissa by omega, Nat.pow_add]
    exact Nat.mul_lt_mul_of_pos_right above (Nat.two_pow_pos _)

theorem decode_encode (negative : Bool) {mantissa : Nat} {exponent : Int} (pos : 0 < mantissa)
    (lt : mantissa < 2 ^ 53) (low : -1022 ≤ exponent + mantissa.log2)
    (high : exponent + mantissa.log2 ≤ 1023) :
    decode (encode negative mantissa exponent) =
      .finite ⟨negative, mantissa * 2 ^ lift mantissa, exponent - lift mantissa⟩ := by
  have split := log2_add_lift pos lt
  obtain ⟨least, below⟩ := lifted_bounds pos lt
  have normal := decode_normal negative (exponent - lift mantissa + 1075).toNat
    (mantissa * 2 ^ lift mantissa - hiddenBit) (by omega) (by omega) (by unfold hiddenBit; omega)
  unfold encode
  rw [if_neg (by omega)]
  refine normal.trans ?_
  have cancel : mantissa * 2 ^ lift mantissa - hiddenBit + hiddenBit =
      mantissa * 2 ^ lift mantissa := Nat.sub_add_cancel least
  have biased : ((exponent - lift mantissa + 1075).toNat : Int) - 1075 =
      exponent - lift mantissa := by omega
  rw [cancel, biased]

/-! ## Rounding again -/

theorem divNearestEven_mul (n : Nat) {d : Nat} (pos : 0 < d) : divNearestEven (n * d) d = n := by
  unfold divNearestEven
  simp only
  rw [Nat.mul_mod_left, Nat.mul_div_cancel n pos, if_neg (by omega)]

theorem divNearestEven_bounds (n d : Nat) :
    n / d ≤ divNearestEven n d ∧ divNearestEven n d ≤ n / d + 1 := by
  unfold divNearestEven
  simp only
  split <;> omega

/-- A number of single precision that is not zero. -/
structure IsSingle (mantissa : Nat) (exponent : Int) : Prop where
  pos : 0 < mantissa
  le : mantissa ≤ 2 ^ 24
  low : -149 ≤ exponent
  normal : -149 < exponent → 2 ^ 23 ≤ mantissa
  high : exponent + mantissa.log2 < 128

/-- A carry into a further bit is the next power of two. -/
theorem encode_carry (negative : Bool) (exponent : Int) :
    encode negative (2 ^ 23) (exponent + 1) = encode negative (2 ^ 24) exponent := by
  unfold encode
  simp only [Nat.log2_two_pow]
  rw [if_neg (show ¬ 2 ^ 23 = 0 by decide), if_neg (show ¬ 2 ^ 24 = 0 by decide)]
  have same : exponent + 1 - ((52 - 23 : Nat) : Int) + 1075 =
      exponent - ((52 - 24 : Nat) : Int) + 1075 := by
    omega
  rw [same]
  rfl

theorem toSingle_encode (negative : Bool) {mantissa : Nat} {exponent : Int}
    (single : IsSingle mantissa exponent) :
    toSingle (encode negative mantissa exponent) = encode negative mantissa exponent := by
  obtain ⟨pos, le, low, normal, high⟩ := single
  have lt : mantissa < 2 ^ 53 := by omega
  have split := log2_add_lift pos lt
  obtain ⟨least, below⟩ := lifted_bounds pos lt
  have log : (mantissa * 2 ^ lift mantissa).log2 = 52 := by
    rw [Nat.log2_eq_iff (by omega)]
    exact ⟨least, below⟩
  unfold toSingle
  rw [decode_encode negative pos lt (by omega) (by omega)]
  simp only [log, Nat.pow_eq]
  rw [if_neg (by omega), Nat.cast_ofNat]
  by_cases most : mantissa = 2 ^ 24
  -- A mantissa that was rounded up to a further bit is kept with one bit less.
  · subst most
    have bits : (2 ^ 24 : Nat).log2 = 24 := Nat.log2_two_pow
    have kept : max (exponent - lift (2 ^ 24) + 52 - 23) (-149) = exponent + 1 := by omega
    have shift : (exponent + 1 - (exponent - lift (2 ^ 24))).toNat = 29 := by omega
    have half : 2 ^ 24 * 2 ^ lift (2 ^ 24) = 2 ^ 23 * 2 ^ 29 := by
      rw [show lift (2 ^ 24) = 28 by omega]
      rfl
    rw [kept, shift, half, divNearestEven_mul _ (Nat.two_pow_pos _), Nat.log2_two_pow,
      if_neg (by omega), encode_carry]
  · have few : mantissa.log2 < 24 := (Nat.log2_lt (by omega)).mpr (by omega)
    have kept : max (exponent - lift mantissa + 52 - 23) (-149) = exponent := by
      by_cases above : -149 < exponent
      · have full := (Nat.le_log2 (by omega)).mpr (normal above)
        omega
      · omega
    have shift : (exponent - (exponent - lift mantissa)).toNat = lift mantissa := by omega
    rw [kept, shift, divNearestEven_mul _ (Nat.two_pow_pos _), if_neg (by omega)]

theorem decode_sign (negative : Bool) :
    decode (Float.ofBits (UInt64.ofNat (if negative then signBit else 0))) =
      .finite ⟨negative, 0, -1074⟩ := by
  cases negative <;> decide

theorem decode_infinite (negative : Bool) :
    decode (Float.ofBits (UInt64.ofNat ((if negative then signBit else 0) + infinityBits))) =
      .infinite negative := by
  cases negative <;> decide

/-- A finite double has all bits of its mantissa or the least exponent. -/
theorem decode_finite_cases {x : Float} {b : Binary} (h : decode x = .finite b) :
    b.mantissa < 2 ^ 53 ∧ (b.exponent = -1074 ∧ b.mantissa < 2 ^ 52 ∨
      -1074 ≤ b.exponent ∧ 2 ^ 52 ≤ b.mantissa) := by
  have lt := Nat.mod_lt x.toBits.toNat (show 0 < hiddenBit by decide)
  unfold decode decodeBits at h
  unfold hiddenBit at h lt
  simp only at h
  split at h
  · split at h <;> cases h
  · split at h
    · cases h
      exact ⟨by simp only; omega, .inl ⟨rfl, lt⟩⟩
    · cases h
      exact ⟨by simp only; omega, .inr ⟨by simp only; omega, by simp only; omega⟩⟩

theorem isSingle_divNearestEven {x : Float} {b : Binary} (decoded : decode x = .finite b)
    {unit : Int} (is : unit = max (b.exponent + b.mantissa.log2 - 23) (-149))
    (pos : divNearestEven b.mantissa (2 ^ (unit - b.exponent).toNat) ≠ 0)
    (high : ¬ 128 ≤ unit + (divNearestEven b.mantissa (2 ^ (unit - b.exponent).toNat)).log2) :
    IsSingle (divNearestEven b.mantissa (2 ^ (unit - b.exponent).toNat)) unit := by
  obtain ⟨lt, size⟩ := decode_finite_cases decoded
  have some : b.mantissa ≠ 0 := by
    intro zero
    rw [zero] at pos
    have kept := divNearestEven_mul 0 (Nat.two_pow_pos (unit - b.exponent).toNat)
    rw [Nat.zero_mul] at kept
    exact pos kept
  have log : b.mantissa.log2 < 53 := (Nat.log2_lt some).mpr lt
  have full (least : 2 ^ 52 ≤ b.mantissa) : b.mantissa.log2 = 52 :=
    (Nat.log2_eq_iff some).mpr ⟨least, lt⟩
  have places : 29 ≤ (unit - b.exponent).toNat := by omega
  obtain ⟨below, above⟩ := divNearestEven_bounds b.mantissa (2 ^ (unit - b.exponent).toNat)
  have le : b.mantissa / 2 ^ (unit - b.exponent).toNat ≤ b.mantissa / 2 ^ 29 :=
    Nat.div_le_div_left (Nat.pow_le_pow_right (by decide) places) (Nat.two_pow_pos 29)
  have least : -149 < unit → 2 ^ 23 ≤ b.mantissa / 2 ^ (unit - b.exponent).toNat := by
    intro normal
    have exact : (unit - b.exponent).toNat = 29 := by omega
    rw [exact, Nat.le_div_iff_mul_le (Nat.two_pow_pos 29)]
    omega
  generalize b.mantissa / 2 ^ (unit - b.exponent).toNat = quotient at below above le least
  generalize divNearestEven b.mantissa (2 ^ (unit - b.exponent).toNat) = kept at *
  exact ⟨by omega, by omega, by omega, fun normal => (least normal).trans below, by omega⟩

/-- What is not kept as it is becomes zero, infinite or a number of single precision. -/
theorem toSingle_cases (x : Float) :
    toSingle x = x ∨ ∃ negative : Bool,
      toSingle x = Float.ofBits (UInt64.ofNat (if negative then signBit else 0)) ∨
      toSingle x = Float.ofBits (UInt64.ofNat ((if negative then signBit else 0) + infinityBits)) ∨
      ∃ mantissa exponent, IsSingle mantissa exponent ∧
        toSingle x = encode negative mantissa exponent := by
  unfold toSingle
  split
  · next b decoded =>
    by_cases zero : b.mantissa = 0
    · exact .inl (if_pos zero)
    refine .inr ⟨b.negative, ?_⟩
    simp only [Nat.pow_eq]
    rw [if_neg zero]
    split
    · exact .inr (.inl rfl)
    · next low =>
      by_cases none : divNearestEven b.mantissa
          (2 ^ (max (b.exponent + b.mantissa.log2 - 23) (-149) - b.exponent).toNat) = 0
      · rw [none, encode, if_pos rfl]
        exact .inl rfl
      · exact .inr (.inr ⟨_, _, isSingle_divNearestEven decoded rfl none low, rfl⟩)
  · exact .inl rfl

/-- Rounding to single precision twice is rounding once. -/
theorem toSingle_toSingle (x : Float) : toSingle (toSingle x) = toSingle x := by
  rcases toSingle_cases x with same | ⟨negative, zero | infinite | ⟨m, e, single, rounded⟩⟩
  · rw [same, same]
  · rw [zero, toSingle, decode_sign]
    simp only [if_true]
  · rw [infinite, toSingle, decode_infinite]
  · rw [rounded, toSingle_encode negative single]

end Rulebook.Number
