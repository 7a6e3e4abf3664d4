/-!
# Bytes as text

A byte string that is no UTF-8 is reported with its longest prefix that is.
-/

namespace Rulebook.Text

/-- The payload of a continuation byte. -/
def continuation? (b : UInt8) : Option Nat :=
  if 0x80 ≤ b ∧ b < 0xC0 then some (b.toNat - 0x80) else none

/-- The character with a code point that needs at least `least`, if there is one. -/
def charFrom? (n least : Nat) : Option Char :=
  if least ≤ n ∧ n.isValidChar then some (Char.ofNat n) else none

/-- The character at the front, and the number of bytes after its first. -/
def firstChar? (b : UInt8) (bs : List UInt8) : Option (Char × Nat) := do
  if b < 0x80 then return (Char.ofNat b.toNat, 0)
  let x ← continuation? (← bs[0]?)
  if 0xC0 ≤ b ∧ b < 0xE0 then return (← charFrom? ((b.toNat - 0xC0) * 0x40 + x) 0x80, 1)
  let y ← continuation? (← bs[1]?)
  if 0xE0 ≤ b ∧ b < 0xF0 then
    return (← charFrom? ((b.toNat - 0xE0) * 0x1000 + x * 0x40 + y) 0x800, 2)
  let z ← continuation? (← bs[2]?)
  if 0xF0 ≤ b ∧ b < 0xF8 then
    return (← charFrom? ((b.toNat - 0xF0) * 0x40000 + x * 0x1000 + y * 0x40 + z) 0x10000, 3)
  none

/-- The characters up to the first byte that belongs to none, behind those already found, which are
kept in reverse. -/
def validPrefixFrom (found : List Char) : List UInt8 → List Char
  | [] => found.reverse
  | b :: bs =>
    match firstChar? b bs with
    | some (c, n) => validPrefixFrom (c :: found) (bs.drop n)
    | none => found.reverse
termination_by bs => bs.length
decreasing_by simp only [List.length_cons, List.length_drop]; omega

def validPrefix (bytes : List UInt8) : List Char := validPrefixFrom [] bytes

end Rulebook.Text
