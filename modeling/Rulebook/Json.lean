import Rulebook.Value

/-!
# JSON documents

Numbers are integers of 64 bits, signed or not, or finite floats; the two forms are kept apart. The
entries of an object are sorted by key.
-/

namespace Rulebook

inductive JsonNumber where
  | int (n : Int) (bounds : -0x8000000000000000 ≤ n ∧ n < 0x10000000000000000)
  | float (x : Float) (finite : x.isFinite = true)

inductive Json where
  | null
  | bool (b : Bool)
  | number (n : JsonNumber)
  | string (s : String)
  | array (items : List Json)
  | object (entries : List (String × Json))
deriving Inhabited

namespace Json

/-- How messages call a document that is bound as a fact. -/
def typeName : Json → String
  | null => "json null"
  | bool _ => "json boolean"
  | number _ => "json number"
  | string _ => "json string"
  | array _ => "json array"
  | object _ => "json object"

def ofInt64 (n : Int64) : Json :=
  .number (.int n.toInt ⟨n.le_toInt, Int.lt_trans n.toInt_lt (by decide)⟩)

/-- An integer in the range of the signed or the unsigned 64-bit integers. -/
def ofInt? (n : Int) : Option Json :=
  if h : -0x8000000000000000 ≤ n ∧ n < 0x10000000000000000 then some (.number (.int n h)) else none

/-- JSON has no number that is not finite; null stands for it. -/
def ofFloat (x : Float) : Json :=
  if h : x.isFinite = true then .number (.float x h) else null

/-- An integer beyond the signed range becomes a float. -/
def numberValue : JsonNumber → Value
  | .int n _ =>
    match Number.toInt64? n with
    | some i => .int i
    | none => .float (Float.ofInt n)
  | .float x _ => .float x

mutual

def toValue : Json → Value
  | null => .nil
  | bool b => .bool b
  | number n => numberValue n
  | string s => .text s
  | array items => .list (toValues items)
  | object entries => .map (toEntries entries)

def toValues : List Json → List Value
  | [] => []
  | j :: js => j.toValue :: toValues js

def toEntries : List (String × Json) → List (String × Value)
  | [] => []
  | (k, j) :: es => (k, j.toValue) :: toEntries es

end

end Json

namespace Value

mutual

def toJson : Value → Json
  | nil => .null
  | bool b => .bool b
  | int n => .ofInt64 n
  | float x => .ofFloat x
  | text s => .string s
  | list items => .array (toJsons items)
  | map entries => .object (toJsonEntries entries)

def toJsons : List Value → List Json
  | [] => []
  | v :: vs => v.toJson :: toJsons vs

def toJsonEntries : List (String × Value) → List (String × Json)
  | [] => []
  | (k, v) :: es => (k, v.toJson) :: toJsonEntries es

end

end Value

end Rulebook
