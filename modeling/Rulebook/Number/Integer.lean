/-!
# Integers of a fixed range

Results of 64-bit signed arithmetic are computed as whole numbers and kept only if they are in
range. `readInt?` reads a run of digits of any length.
-/

namespace Rulebook.Number

/-- The 64-bit signed integer with this value, if there is one. -/
def toInt64? (n : Int) : Option Int64 :=
  if -0x8000000000000000 ≤ n ∧ n < 0x8000000000000000 then some (Int64.ofInt n) else none

theorem toInt_of_toInt64? {n : Int} {i : Int64} (h : toInt64? n = some i) : i.toInt = n := by
  unfold toInt64? at h
  split at h
  · next bounds =>
    cases h
    exact Int64.toInt_ofInt_of_le bounds.1 bounds.2
  · cases h

theorem toInt64?_toInt (i : Int64) : toInt64? i.toInt = some i := by
  unfold toInt64?
  rw [if_pos ⟨i.le_toInt, i.toInt_lt⟩, Int64.ofInt_toInt]

/-- Puts one more digit behind a value, as long as it stays in range. -/
def appendDigit? (n : Nat) (c : Char) : Option Nat :=
  let next := 10 * n + (c.toNat - '0'.toNat)
  if next < 0x8000000000000000 then some next else none

/-- The value of a run of digits. -/
def readInt? (digits : List Char) : Option Int64 :=
  (digits.foldlM appendDigit? 0).map fun n : Nat => Int64.ofInt n

end Rulebook.Number
