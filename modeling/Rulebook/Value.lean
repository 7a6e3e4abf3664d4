import Rulebook.Entries
import Rulebook.Literal
import Rulebook.Number.Integer

/-! # Values that expressions evaluate to -/

namespace Rulebook

/-- The entries of a map are sorted by key. -/
inductive Value where
  | nil
  | bool (b : Bool)
  | int (n : Int64)
  | float (x : Float)
  | text (s : String)
  | list (items : List Value)
  | map (entries : List (String × Value))
deriving Inhabited

namespace Value

/-- The name of a value's type, as messages use it. -/
def typeName : Value → String
  | nil => "nil"
  | bool _ => "boolean"
  | int _ => "integer"
  | float _ => "float"
  | text _ => "string"
  | list _ => "list"
  | map _ => "map"

def isNumeric : Value → Bool
  | int _ | float _ => true
  | _ => false

def bool? : Value → Option Bool
  | bool b => some b
  | _ => none

/-- A number as a float; an integer is rounded to the nearest one. -/
def float? : Value → Option Float
  | int n => some (Float.ofInt n.toInt)
  | float x => some x
  | _ => none

/-- A number as an integer; a float must be whole and in range. -/
def int? : Value → Option Int64
  | int n => some n
  | float x => (Number.whole? x).bind Number.toInt64?
  | _ => none

def text? : Value → Option String
  | text s => some s
  | _ => none

def ofLiteral : Literal → Value
  | .int n => int n
  | .float x => float x
  | .text s => text s
  | .bool b => bool b
  | .nil => nil

mutual

/-- A value as it appears in messages, logs and joined text. Text stands without quotes. -/
def shown : Value → String
  | nil => "nil"
  | bool b => boolText b
  | int n => toString n.toInt
  | float x => Number.floatText x
  | text s => s
  | list items => "[" ++ ", ".intercalate (shownItems items) ++ "]"
  | map entries => "\x7b" ++ ", ".intercalate (shownEntries entries) ++ "\x7d"

def shownItems : List Value → List String
  | [] => []
  | v :: vs => v.shown :: shownItems vs

def shownEntries : List (String × Value) → List String
  | [] => []
  | (k, v) :: es => (k ++ ": " ++ v.shown) :: shownEntries es

end

end Value

end Rulebook
