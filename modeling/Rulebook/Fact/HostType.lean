import Rulebook.Fact.Access
import Rulebook.Json

/-!
# Types that the fields of a fact may have

Rules see values; a field has a narrower type. `HostType.read` turns a value into an element of the
type or refuses it, and `HostType.write` turns the element into a value again.
-/

namespace Rulebook

/-- The integer types, by their range. -/
inductive IntType where
  | i8
  | i16
  | i32
  | i64
  | isize
  | u8
  | u16
  | u32
  | u64
  | usize
deriving DecidableEq, Repr

namespace IntType

def name : IntType → String
  | i8 => "i8"
  | i16 => "i16"
  | i32 => "i32"
  | i64 => "i64"
  | isize => "isize"
  | u8 => "u8"
  | u16 => "u16"
  | u32 => "u32"
  | u64 => "u64"
  | usize => "usize"

def bits : IntType → Nat
  | i8 | u8 => 8
  | i16 | u16 => 16
  | i32 | u32 => 32
  | i64 | isize | u64 | usize => 64

def isSigned : IntType → Bool
  | i8 | i16 | i32 | i64 | isize => true
  | _ => false

def low (t : IntType) : Int := if t.isSigned then -(Nat.pow 2 (t.bits - 1) : Int) else 0

/-- The least integer above the range. -/
def high (t : IntType) : Int := Nat.pow 2 (if t.isSigned then t.bits - 1 else t.bits)

end IntType

/-- The types of fields. A `map` has text keys. -/
inductive HostType where
  | bool
  | int (t : IntType)
  | double
  | single
  | text
  | value
  | json
  | option (item : HostType)
  | list (item : HostType)
  | map (item : HostType)
deriving DecidableEq, Repr

namespace HostType

/-- The elements of a type. A `single` is kept as the double of the same value. -/
@[reducible] def Carrier : HostType → Type
  | bool => Bool
  | int _ => Int
  | double => Float
  | single => Float
  | text => String
  | value => Value
  | json => Json
  | option item => Option item.Carrier
  | list item => List item.Carrier
  | map item => List (String × item.Carrier)

def mismatch {α : Type} (expected : String) (v : Value) : Except AccessError α :=
  .error (.typeMismatch expected v.typeName)

def readInt (t : IntType) (v : Value) : Except AccessError Int :=
  match v.int? with
  | none => mismatch t.name v
  | some n =>
    if t.low ≤ n.toInt ∧ n.toInt < t.high then .ok n.toInt
    else .error (.outOfRange (toString n.toInt) t.name)

def readFloat (v : Value) : Except AccessError Float :=
  match v.float? with
  | some x => .ok x
  | none => mismatch "float" v

/-- Reads each item, up to the first that is refused. -/
def readItems {α : Type} (read : Value → Except AccessError α) :
    List Value → Except AccessError (List α)
  | [] => .ok []
  | v :: vs => do
    let x ← read v
    let xs ← readItems read vs
    return x :: xs

def readEntries {α : Type} (read : Value → Except AccessError α) :
    List (String × Value) → Except AccessError (List (String × α))
  | [] => .ok []
  | (k, v) :: es => do
    let x ← read v
    let xs ← readEntries read es
    return (k, x) :: xs

/-- The element that a value stands for. -/
def read : (t : HostType) → Value → Except AccessError t.Carrier
  | bool, v =>
    match v.bool? with
    | some b => .ok b
    | none => mismatch "boolean" v
  | int t, v => readInt t v
  | double, v => readFloat v
  | single, v => (readFloat v).map Number.toSingle
  | text, v =>
    match v.text? with
    | some s => .ok s
    | none => mismatch "string" v
  | value, v => .ok v
  | json, v => .ok v.toJson
  | option _, .nil => .ok none
  | option item, v => (item.read v).map some
  | list item, .list items => readItems item.read items
  | list _, v => mismatch "list" v
  | map item, .map entries => readEntries item.read entries
  | map _, v => mismatch "map" v

/-- An integer beyond the signed 64-bit range is written as a float. -/
def writeInt (n : Int) : Value :=
  match Number.toInt64? n with
  | some i => .int i
  | none => .float (Float.ofInt n)

/-- The value of an element. -/
def write : (t : HostType) → t.Carrier → Value
  | bool, b => .bool b
  | int _, n => writeInt n
  | double, x => .float x
  | single, x => .float x
  | text, s => .text s
  | value, v => v
  | json, j => j.toValue
  | option _, none => .nil
  | option item, some x => item.write x
  | list item, xs => .list (xs.map item.write)
  | map item, es => .map (es.map fun e => (e.1, item.write e.2))

/-- The element that a field of the type starts with. -/
def default : (t : HostType) → t.Carrier
  | bool => false
  | int _ => (0 : Int)
  | double => (0 : Float)
  | single => (0 : Float)
  | text => ""
  | value => Value.nil
  | json => Json.null
  | option _ => none
  | list _ => []
  | map _ => []

end HostType

end Rulebook
