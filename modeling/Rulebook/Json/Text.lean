import Rulebook.Json

/-!
# Writing JSON

`compact` has no blanks; `pretty` puts every item on a line of its own, indented by two spaces per
level. A float always shows that it is one, by a point or an exponent.
-/

namespace Rulebook.Json

/-! ## Text -/

def hexDigits (n : Nat) : String := Number.zeros (2 - (Nat.toDigits 16 n).length) ++
  String.ofList (Nat.toDigits 16 n)

def quotedChar (c : Char) : String :=
  if c = '"' then "\\\""
  else if c = '\\' then "\\\\"
  else if c = '\n' then "\\n"
  else if c = '\r' then "\\r"
  else if c = '\t' then "\\t"
  else if c.toNat = 0x08 then "\\b"
  else if c.toNat = 0x0c then "\\f"
  else if c.toNat < 0x20 then "\\u00" ++ hexDigits c.toNat
  else c.toString

/-- Quotes, backslashes and control characters are escaped, all else is written as it is. -/
def quoted (s : String) : String :=
  s.toList.foldl (fun out c => out ++ quotedChar c) "\"" ++ "\""

/-! ## Numbers -/

/-- The first digit, the others behind a point if there are any, and a signed exponent. -/
def scientific (digits : String) (exponent : Int) : String :=
  let shift := digits.length - 1
  let power := exponent + shift
  Number.withPoint digits shift ++ "e" ++ (if power < 0 then "-" else "+") ++ toString power.natAbs

/-- Positional from `0.00001` up to sixteen digits before the point, with a point in any case, and
scientific beyond. A half of the last place goes to the even neighbour. -/
def floatText (x : Float) : String :=
  match Number.decode x with
  | .finite b =>
    let sign := Number.minus b.negative
    if b.mantissa = 0 then sign ++ "0.0"
    else
      let d := b.shortest .even
      let digits := toString d.digits
      let point : Int := digits.length + d.exponent
      if -5 < point ∧ point ≤ 16 then
        sign ++ d.positional ++ if 0 ≤ d.exponent then ".0" else ""
      else sign ++ scientific digits d.exponent
  | _ => "null"

def numberText : JsonNumber → String
  | .int n _ => toString n
  | .float x _ => floatText x

/-! ## Documents -/

mutual

def compact : Json → String
  | null => "null"
  | bool b => boolText b
  | number n => numberText n
  | string s => quoted s
  | array items => "[" ++ ",".intercalate (compactItems items) ++ "]"
  | object entries => "\x7b" ++ ",".intercalate (compactEntries entries) ++ "\x7d"

def compactItems : List Json → List String
  | [] => []
  | j :: js => j.compact :: compactItems js

def compactEntries : List (String × Json) → List String
  | [] => []
  | (k, j) :: es => (quoted k ++ ":" ++ j.compact) :: compactEntries es

end

def newline (depth : Nat) : String := "\n" ++ String.ofList (List.replicate (2 * depth) ' ')

/-- Lines between brackets, or the brackets alone. -/
def block (opening closing : String) (depth : Nat) (lines : List String) : String :=
  if lines.isEmpty then opening ++ closing
  else
    opening ++ newline (depth + 1) ++ ("," ++ newline (depth + 1)).intercalate lines
      ++ newline depth ++ closing

mutual

def prettyAt (depth : Nat) : Json → String
  | null => "null"
  | bool b => boolText b
  | number n => numberText n
  | string s => quoted s
  | array items => block "[" "]" depth (prettyItems (depth + 1) items)
  | object entries => block "\x7b" "\x7d" depth (prettyEntries (depth + 1) entries)

def prettyItems (depth : Nat) : List Json → List String
  | [] => []
  | j :: js => j.prettyAt depth :: prettyItems depth js

def prettyEntries (depth : Nat) : List (String × Json) → List String
  | [] => []
  | (k, j) :: es => (quoted k ++ ": " ++ j.prettyAt depth) :: prettyEntries depth es

end

def pretty (j : Json) : String := j.prettyAt 0

end Rulebook.Json
