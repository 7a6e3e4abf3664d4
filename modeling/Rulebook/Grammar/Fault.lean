import Rulebook.Rule
import Rulebook.Token

/-! # How a token list can fail to be a rule set -/

namespace Rulebook.Grammar

/-- What the grammar allows at a place where something else stands. -/
inductive Expected where
  | ruleKeyword
  | keyword (k : Keyword)
  | ruleName
  | mark (m : Mark)
  | expression
  | identifier
  | memberName
  | argumentEnd
  | salience
  | action
  | statement
  | assignOrCall
deriving DecidableEq, Repr

def Expected.text : Expected → String
  | .ruleKeyword => "`rule`"
  | .keyword k => "`" ++ k.text ++ "`"
  | .ruleName => "rule name"
  | .mark m => "`" ++ m.text ++ "`"
  | .expression => "expression"
  | .identifier => "identifier"
  | .memberName => "member name after `.`"
  | .argumentEnd => "`,` or `)` in argument list"
  | .salience => "integer salience"
  | .action => "at least one action after `Then`"
  | .statement => "assignment or call statement"
  | .assignOrCall => "`=` or a call"

inductive Fault where
  | expected (what : Expected) (found : Token)
  | chainedComparison (next : String) (op : CompareOp)
  | assignToFact (name : String)
  | assignToCall (target : Expr)
  | badSalience (found : Literal) (text : String)

/-- The kind of a literal, as it is called where an integer should stand. -/
def literalKind : Literal → String
  | .int _ => "integer"
  | .float _ => "float"
  | .text _ => "string"
  | .bool _ => "boolean"
  | .nil => "nil"

def Fault.message : Fault → String
  | .expected what found => "expected " ++ what.text ++ ", found " ++ found.shown
  | .chainedComparison next op =>
    "comparison operators cannot be chained, found `" ++ next ++ "` after `" ++ op.symbol
      ++ "`; use parentheses or `&&`"
  | .assignToFact name =>
    "cannot assign to fact '" ++ name ++ "' itself; assign to one of its fields"
  | .assignToCall target => "cannot assign to the result of a call '" ++ target.shown ++ "'"
  | .badSalience found text =>
    "salience must be an integer, found " ++ literalKind found ++ " " ++ text

end Rulebook.Grammar
