import Rulebook.Number.Shortest

/-!
# Floating-point numbers in decimal notation

`floatText` writes the fewest digits that read back, never with an exponent and without a point
where none is needed. `floatLiteral` is the form of rule text, where a whole number is written out
exactly and keeps one decimal place. `readFloat?` reads decimals with an optional exponent.
-/

namespace Rulebook.Number

/-! ## Writing -/

def zeros (n : Nat) : String := String.ofList (List.replicate n '0')

/-- The digits with the point put `places` digits from the right. -/
def withPoint (digits : String) (places : Nat) : String :=
  if places = 0 then digits
  else if places < digits.length then
    let cs := digits.toList
    String.ofList (cs.take (cs.length - places)) ++ "."
      ++ String.ofList (cs.drop (cs.length - places))
  else "0." ++ zeros (places - digits.length) ++ digits

/-- The decimal written out in full. -/
def Decimal.positional (d : Decimal) : String :=
  let digits := toString d.digits
  if 0 ≤ d.exponent then digits ++ zeros d.exponent.toNat
  else withPoint digits (-d.exponent).toNat

def minus (negative : Bool) : String := if negative then "-" else ""

/-- A half of the last place goes up. -/
def Binary.text (b : Binary) : String :=
  minus b.negative ++ if b.mantissa = 0 then "0" else (b.shortest .up).positional

def floatText (x : Float) : String :=
  match decode x with
  | .nan => "NaN"
  | .infinite negative => minus negative ++ "inf"
  | .finite b => b.text

def floatLiteral (x : Float) : String :=
  match decode x with
  | .finite b =>
    match b.whole? with
    | some n => minus b.negative ++ toString n ++ ".0"
    | none => b.text
  | _ => floatText x

/-- A quotient with two decimal places, a half of the last place going to the even neighbour. -/
def twoPlaces (n d : Nat) : String :=
  let hundredths := toString (divNearestEven (n * 100) d)
  withPoint (zeros (3 - hundredths.length) ++ hundredths) 2

/-! ## Reading -/

def infinity : Float := Float.ofBits 0x7FF0000000000000

def nan : Float := Float.ofBits 0x7FF8000000000000

/-- The double nearest to `digits * 10 ^ exponent`. A value beyond all doubles is infinite, and one
far below the least is zero; neither power of ten is ever computed. -/
def ofDecimal (digits : Nat) (exponent : Int) : Float :=
  if digits = 0 then 0
  else
    let places := exponent + (toString digits).length
    if 400 < places then infinity
    else if places < -400 then 0
    else if 0 ≤ exponent then Float.ofScientific digits false exponent.toNat
    else Float.ofScientific digits true (-exponent).toNat

/-- The value of a run of digits. -/
def digitsValue (digits : List Char) : Nat :=
  digits.foldl (fun n c => 10 * n + (c.toNat - '0'.toNat)) 0

/-- An exponent mark, an optional sign and digits up to the end; nothing is exponent zero. -/
def readExponent? : List Char → Option Int
  | [] => some 0
  | mark :: cs =>
    if mark ≠ 'e' ∧ mark ≠ 'E' then none
    else
      let (negative, digits) := match cs with
        | '-' :: ds => (true, ds)
        | '+' :: ds => (false, ds)
        | ds => (false, ds)
      if digits.isEmpty || !digits.all Char.isDigit then none
      else some (signed negative (digitsValue digits))

/-- Digits with an optional point among or beside them, then an optional exponent. -/
def readDecimal? (cs : List Char) : Option Float := do
  let whole := cs.takeWhile Char.isDigit
  let rest := cs.dropWhile Char.isDigit
  let (fraction, rest) := match rest with
    | '.' :: ds => (ds.takeWhile Char.isDigit, ds.dropWhile Char.isDigit)
    | ds => ([], ds)
  if whole.isEmpty && fraction.isEmpty then none
  else
    let exponent ← readExponent? rest
    return ofDecimal (digitsValue (whole ++ fraction)) (exponent - fraction.length)

/-- A decimal, or one of the words for what is not finite in any case, after an optional sign. -/
def readFloat? (text : String) : Option Float :=
  let (negative, body) := match text.toList with
    | '-' :: cs => (true, cs)
    | '+' :: cs => (false, cs)
    | cs => (false, cs)
  let word := String.ofList (body.map Char.toLower)
  let value? :=
    if word = "inf" || word = "infinity" then some infinity
    else if word = "nan" then some nan
    else readDecimal? body
  value?.map fun x => if negative then -x else x

end Rulebook.Number
