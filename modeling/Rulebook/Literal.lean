import Rulebook.Number.Notation
import Rulebook.Text.Quoted

/-! # Literals of the rule language -/

namespace Rulebook

inductive Literal where
  | int (n : Int64)
  | float (x : Float)
  | text (s : String)
  | bool (b : Bool)
  | nil
deriving Inhabited

def boolText (b : Bool) : String := if b then "true" else "false"

/-- How a literal is written in a displayed rule. -/
def Literal.shown : Literal → String
  | .int n => toString n.toInt
  | .float x => Number.floatLiteral x
  | .text s => Text.Quoted.shown s
  | .bool b => boolText b
  | .nil => "nil"

end Rulebook
