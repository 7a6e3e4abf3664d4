import Rulebook.Number.Binary

/-!
# The fewest digits that read back

Of the decimals that round to a given double, those with the fewest digits are found by trying
ever finer decimal grids: if a point of a grid rounds to the double, so does one of the two grid
points next to it.
-/

namespace Rulebook.Number

/-- Where to go from a value that lies exactly between two decimals. -/
inductive Tie where
  | up
  | even
deriving DecidableEq, Repr

/-- `digits * 10 ^ exponent`. -/
structure Decimal where
  digits : Nat
  exponent : Int
deriving DecidableEq, Repr

/-- Fractions with a common denominator: the value itself and the ends of the interval of reals
that round to it. The ends belong to the interval if `closed`. -/
structure Interval where
  low : Nat
  value : Nat
  high : Nat
  denominator : Nat
  closed : Bool

/-- A mantissa that is the hidden bit alone borders on numbers half as far apart below it, except at
the least exponent. -/
def Binary.interval (b : Binary) : Interval :=
  let below := if b.mantissa = hiddenBit ∧ -1074 < b.exponent then 1 else 2
  let scale := Nat.pow 2 (b.exponent - 2).toNat
  { low := (4 * b.mantissa - below) * scale
    value := 4 * b.mantissa * scale
    high := (4 * b.mantissa + 2) * scale
    denominator := Nat.pow 2 (2 - b.exponent).toNat
    closed := b.mantissa % 2 = 0 }

/-- Whether `n / d` lies in the interval, its `denominator` apart. -/
def Interval.contains (i : Interval) (n d : Nat) : Bool :=
  if i.closed then i.low * d ≤ n && n ≤ i.high * d else i.low * d < n && n < i.high * d

/-- The best multiple of `10 ^ exponent` in the interval. -/
def Interval.onGrid? (i : Interval) (tie : Tie) (exponent : Int) : Option Decimal :=
  let up := Nat.pow 10 exponent.toNat
  let down := Nat.pow 10 (-exponent).toNat
  let step := i.denominator * up
  let below := i.value * down / step
  let twice := 2 * (i.value * down % step)
  let hit (k : Nat) : Bool := i.contains (k * step) down
  let roundsUp : Bool := step < twice ||
    (step = twice && match tie with
      | .up => true
      | .even => below % 2 = 1)
  match hit below, hit (below + 1) with
  | true, true => some ⟨if roundsUp then below + 1 else below, exponent⟩
  | true, false => some ⟨below, exponent⟩
  | false, true => some ⟨below + 1, exponent⟩
  | false, false => none

/-- Tries `steps` grids, each ten times as fine as the one before it. -/
def Interval.firstGrid (i : Interval) (tie : Tie) (exponent : Int) : (steps : Nat) → Decimal
  | 0 => ⟨0, exponent⟩
  | steps + 1 =>
    match i.onGrid? tie exponent with
    | some d => d
    | none => i.firstGrid tie (exponent - 1) steps

/-- The decimal with the fewest digits that rounds to a positive value, and of those the nearest.
The first grid is coarser than the value, and seventeen digits always suffice. -/
def Binary.shortest (b : Binary) (tie : Tie) : Decimal :=
  let coarse := Int.fdiv ((b.exponent + b.mantissa.log2 + 1) * 30103) 100000 + 1
  b.interval.firstGrid tie coarse 20

end Rulebook.Number
