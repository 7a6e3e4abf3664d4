import Mathlib
import Rulebook.Number.Integer

/-!
# Integers are read as they are written

The digits of a natural number below the limit read back as it. A written integer is such digits,
behind a minus sign if it is negative.
-/

namespace Rulebook.Number

/-! ## Digits -/

theorem le_ofDigitChars (ds : List Char) (n : Nat) : n ≤ Nat.ofDigitChars 10 ds n := by
  rw [Nat.ofDigitChars_eq_ofDigitChars_zero]
  have pos : 0 < 10 ^ ds.length := Nat.pow_pos (by decide)
  have le := Nat.le_mul_of_pos_left n pos
  omega

theorem foldlM_appendDigit? (ds : List Char) (n : Nat)
    (lt : Nat.ofDigitChars 10 ds n < 0x8000000000000000) :
    ds.foldlM appendDigit? n = some (Nat.ofDigitChars 10 ds n) := by
  induction ds generalizing n with
  | nil => rw [Nat.ofDigitChars_nil, List.foldlM_nil]; rfl
  | cons d ds ih =>
    rw [Nat.ofDigitChars_cons] at lt ⊢
    have le := le_ofDigitChars ds (10 * n + (d.toNat - '0'.toNat))
    rw [List.foldlM_cons]
    unfold appendDigit?
    rw [if_pos (Nat.lt_of_le_of_lt le lt)]
    exact ih _ lt

theorem readInt?_toDigits (n : Nat) (lt : n < 0x8000000000000000) :
    readInt? (Nat.toDigits 10 n) = some (Int64.ofInt n) := by
  have value := Nat.ofDigitChars_ten_toDigits (n := n)
  unfold readInt?
  rw [foldlM_appendDigit? _ 0 (by rw [value]; exact lt), value]
  rfl

theorem lt_of_foldlM_appendDigit? (ds : List Char) {n m : Nat} (lt : n < 0x8000000000000000)
    (h : ds.foldlM appendDigit? n = some m) : m < 0x8000000000000000 := by
  induction ds generalizing n with
  | nil =>
    cases h
    exact lt
  | cons d ds ih =>
    rw [List.foldlM_cons] at h
    rcases step : appendDigit? n d with _ | next
    · rw [step] at h
      cases h
    · rw [step] at h
      refine ih ?_ h
      simp only [appendDigit?] at step
      split at step
      · next lt =>
        cases step
        exact lt
      · cases step

/-- No sign is read. -/
theorem nonneg_of_readInt? {ds : List Char} {i : Int64} (h : readInt? ds = some i) :
    0 ≤ i.toInt := by
  unfold readInt? at h
  rw [Option.map_eq_some_iff] at h
  obtain ⟨m, read, rfl⟩ := h
  have lt := lt_of_foldlM_appendDigit? ds (by decide) read
  rw [Int64.toInt_ofInt_of_le (by omega) (by omega)]
  omega

theorem all_isDigit_toDigits (n : Nat) : ∀ c ∈ Nat.toDigits 10 n, c.isDigit = true := fun _ mem =>
  Nat.isDigit_of_mem_toDigits (by decide) (by decide) mem

/-! ## Signed integers -/

/-- How an integer is written that has an opposite. -/
theorem toString_toInt_cases (i : Int64) (least : -0x8000000000000000 < i.toInt) :
    ∃ n : Nat, n < 0x8000000000000000 ∧
      ((i = Int64.ofInt n ∧ (toString i.toInt).toList = Nat.toDigits 10 n) ∨
        (i = -Int64.ofInt n ∧ toInt64? (-(Int64.ofInt n).toInt) = some i ∧
          (toString i.toInt).toList = '-' :: Nat.toDigits 10 n)) := by
  have lt := i.toInt_lt
  rw [Int.toString_eq_repr, Int.repr_eq_if]
  split
  · next nonneg =>
    refine ⟨i.toInt.toNat, by omega, .inl ⟨?_, Nat.toList_repr⟩⟩
    rw [Int.toNat_of_nonneg nonneg, Int64.ofInt_toInt]
  · next neg =>
    refine ⟨(-i.toInt).toNat, by omega, .inr ⟨?_, ?_, ?_⟩⟩
    · rw [Int.toNat_of_nonneg (by omega), ← Int64.ofInt_neg, Int.neg_neg, Int64.ofInt_toInt]
    · rw [Int.toNat_of_nonneg (by omega), Int64.toInt_ofInt_of_le (by omega) (by omega),
        Int.neg_neg, toInt64?_toInt]
    · rw [String.toList_append, Nat.toList_repr]
      rfl

end Rulebook.Number
