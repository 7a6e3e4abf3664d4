/-!
# The exact value of a floating-point number

A finite double is a signed multiple of a power of two, read off its bits. Whole values, the order
of two doubles and rounding to single precision are decided on that exact value.
-/

namespace Rulebook.Number

/-- The absolute value `mantissa * 2 ^ exponent`, with its sign kept apart so that zero has one. -/
structure Binary where
  negative : Bool
  mantissa : Nat
  exponent : Int
deriving DecidableEq, Repr

/-- What the bits of a double say. -/
inductive Decoded where
  | nan
  | infinite (negative : Bool)
  | finite (value : Binary)
deriving DecidableEq, Repr

/-- The sign bit of a double. -/
def signBit : Nat := 0x8000000000000000

/-- The leading bit of the mantissa of a double in the normal range, which is not written down. -/
def hiddenBit : Nat := 0x10000000000000

/-- The bits of positive infinity. -/
def infinityBits : Nat := 0x7ff0000000000000

def decodeBits (bits : Nat) : Decoded :=
  let negative : Bool := bits / signBit % 2 = 1
  let biased : Nat := bits / hiddenBit % 2048
  let fraction : Nat := bits % hiddenBit
  if biased = 2047 then
    if fraction = 0 then .infinite negative else .nan
  else if biased = 0 then .finite ⟨negative, fraction, -1074⟩
  else .finite ⟨negative, fraction + hiddenBit, (biased : Int) - 1075⟩

def decode (x : Float) : Decoded := decodeBits x.toBits.toNat

/-- The double with a mantissa of at most 53 bits, for values in the normal range or zero. -/
def encode (negative : Bool) (mantissa : Nat) (exponent : Int) : Float :=
  let sign := if negative then signBit else 0
  if mantissa = 0 then Float.ofBits (UInt64.ofNat sign)
  else
    let shift := 52 - mantissa.log2
    let biased := (exponent - shift + 1075).toNat
    let fraction := mantissa * Nat.pow 2 shift - hiddenBit
    Float.ofBits (UInt64.ofNat (sign + biased * hiddenBit + fraction))

/-! ## Whole values -/

/-- The absolute value as a whole number, if it is one. -/
def Binary.whole? (b : Binary) : Option Nat :=
  if 0 ≤ b.exponent then some (b.mantissa * Nat.pow 2 b.exponent.toNat)
  else
    let unit := Nat.pow 2 (-b.exponent).toNat
    if b.mantissa % unit = 0 then some (b.mantissa / unit) else none

def signed (negative : Bool) (n : Nat) : Int := if negative then -(n : Int) else n

/-- The exact value of a double without a fractional part. -/
def whole? (x : Float) : Option Int :=
  match decode x with
  | .finite b => b.whole?.map (signed b.negative)
  | _ => none

/-! ## Order -/

/-- A number for each double that is not NaN, in the order of their values; both zeros have the
same. -/
def orderKey? (x : Float) : Option Int :=
  match decode x with
  | .nan => none
  | .infinite negative => some (signed negative infinityBits)
  | .finite b => some (signed b.negative (x.toBits.toNat % signBit))

/-- NaN is not ordered with anything. -/
def compare? (x y : Float) : Option Ordering := do
  let k ← orderKey? x
  let l ← orderKey? y
  return compare k l

theorem compare?_swap (x y : Float) : compare? y x = (compare? x y).map Ordering.swap := by
  unfold compare?
  cases orderKey? x <;> cases orderKey? y <;> simp [bind, Option.bind, pure]
  rw [← Int.compare_swap]

/-! ## Single precision -/

/-- The nearest whole number to `n / d`, a half going to the even neighbour. -/
def divNearestEven (n d : Nat) : Nat :=
  let q := n / d
  let r := n % d
  if d < 2 * r ∨ (d = 2 * r ∧ q % 2 = 1) then q + 1 else q

/-- The nearest number with 24 significant bits and no bit below `2 ^ -149`, ties to even; beyond
the greatest such number it is infinite. -/
def toSingle (x : Float) : Float :=
  match decode x with
  | .finite b =>
    if b.mantissa = 0 then x
    else
      let unit := max (b.exponent + b.mantissa.log2 - 23) (-149)
      let kept := divNearestEven b.mantissa (Nat.pow 2 (unit - b.exponent).toNat)
      if 128 ≤ unit + kept.log2 then
        Float.ofBits (UInt64.ofNat ((if b.negative then signBit else 0) + infinityBits))
      else encode b.negative kept unit
  | _ => x

end Rulebook.Number
