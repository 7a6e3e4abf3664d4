import Rulebook.Fact.Access
import Rulebook.Grammar.Fault
import Rulebook.Token.Scan
import Rulebook.Value.Operation

/-!
# What can go wrong

A `Problem` has a place in a rule text and a cause, which says at which stage it arose: reading
tokens, reading rules, checking them, or evaluating them. Other errors have no place.
-/

namespace Rulebook

/-- Why rules that can be read are not accepted. -/
inductive CompileFault where
  | duplicateRule (name : String) (firstLine : Nat)
  | inCondition (name : String)
  | argumentCount (name : String) (expected found : Nat)
  | unknownTarget (target : String)
  | targetNotText (found : Literal)

namespace CompileFault

def message : CompileFault → String
  | duplicateRule name _ => "Duplicate rule definition: '" ++ name ++ "'"
  | inCondition name => "'" ++ name ++ "' cannot be used in a condition"
  | argumentCount name expected found =>
    "'" ++ name ++ "' expects " ++ toString expected ++ " argument(s), found " ++ toString found
  | unknownTarget target => "Retract target '" ++ target ++ "' is not a rule in this rule set"
  | targetNotText found => "Retract expects a rule name string, found " ++ found.shown

def suggestion? : CompileFault → Option String
  | duplicateRule name line =>
    some ("rule '" ++ name ++ "' was already defined at line " ++ toString line
      ++ "; rule names must be unique within a rule set")
  | _ => none

end CompileFault

/-- Why an expression or action fails. -/
inductive EvalFault where
  | operator (fault : OperatorFault)
  | notTruthValue (op : LogicOp) (type : String) (operand : Expr)
  | condition (found : Value)
  | access (error : AccessError)
  | unknownFact (name : String) (bound : List String)
  | unknownFunction (name : String)
  | functionFailed (name : String) (error : AccessError)
  | argumentCount (name : String) (expected found : Nat)
  | targetNotText (type : String)
  | unknownTarget (target ruleSet : String)
  | assignToFact (name : String)
  | assignElsewhere (target : Expr)

namespace EvalFault

def message : EvalFault → String
  | operator fault => fault.message
  | notTruthValue op type operand =>
    "'" ++ op.symbol ++ "' requires boolean operands, found " ++ type ++ " (" ++ operand.shown
      ++ ")"
  | condition found =>
    "condition must evaluate to a boolean, found " ++ found.typeName ++ " (" ++ found.shown ++ ")"
  | access error => error.message
  | unknownFact name _ => "Unknown fact '" ++ name ++ "'"
  | unknownFunction name => "Unknown function '" ++ name ++ "'"
  | functionFailed name error => name ++ ": " ++ error.message
  | argumentCount name expected found =>
    "'" ++ name ++ "' expects " ++ toString expected ++ " argument(s), found " ++ toString found
  | targetNotText type => "Retract expects a rule name string, found " ++ type
  | unknownTarget target ruleSet =>
    "Retract target '" ++ target ++ "' is not a rule in rule set '" ++ ruleSet ++ "'"
  | assignToFact name => "cannot assign to fact '" ++ name ++ "' itself"
  | assignElsewhere target =>
    "cannot assign to '" ++ target.shown ++ "': target must start with a fact name"

def suggestion? : EvalFault → Option String
  | unknownFact _ [] => some "no facts are bound in the data context"
  | unknownFact _ bound => some ("bound facts: " ++ ", ".intercalate bound)
  | unknownFunction _ =>
    some "host functions must be registered with DataContext::add_function"
  | _ => none

end EvalFault

inductive Stage where
  | lex
  | parse
  | compile
  | eval
deriving DecidableEq, Repr

def Stage.title : Stage → String
  | lex => "Lex error"
  | parse => "Parse error"
  | compile => "Compile error"
  | eval => "Evaluation error"

inductive Cause where
  | lex (fault : Token.Fault)
  | grammar (fault : Grammar.Fault)
  | compile (fault : CompileFault)
  | eval (fault : EvalFault)

namespace Cause

/-- A bad salience can be read but not compiled. -/
def stage : Cause → Stage
  | lex _ => .lex
  | grammar (.badSalience ..) => .compile
  | grammar _ => .parse
  | compile _ => .compile
  | eval _ => .eval

def message : Cause → String
  | lex fault => fault.message
  | grammar fault => fault.message
  | compile fault => fault.message
  | eval fault => fault.message

def suggestion? : Cause → Option String
  | compile fault => fault.suggestion?
  | eval fault => fault.suggestion?
  | _ => none

end Cause

/-- A cause with its place, the rule it belongs to if it belongs to one, and the name of the rule
text. -/
structure Problem where
  cause : Cause
  span : Span
  rule : Option String
  source : String

namespace Problem

/-- The name of the rule text with line and column. -/
def place (p : Problem) : String := p.source ++ ":" ++ p.span.text

def message (p : Problem) : String :=
  p.cause.stage.title ++ ": " ++ p.cause.message
    ++ (p.cause.suggestion?.elim "" fun s => " (suggestion: " ++ s ++ ")")
    ++ (p.rule.elim "" fun r => " in rule '" ++ r ++ "'")
    ++ " at " ++ p.place

end Problem

/-- The number of bytes that one megabyte has. -/
def megabyte : Nat := 0x100000

/-- A bound on rule texts that was exceeded, with the texts that say so. -/
structure LimitReport where
  name : String
  limit : String
  actual : String
  advice : String

inductive Error where
  | problem (p : Problem)
  | problems (ps : List Problem)
  | cycleLimit (maxCycles : Nat) (lastRule : String)
  | duplicateFact (name : String)
  | textTooLarge (limit actual : Nat)
  | tooDeep (limit : Nat)
  | reservedFunction (name : String)
  | duplicateFunction (name : String)
  | noRuleAt (index : Nat) (ruleSet : String)
  | unknownRuleSet (name version : String)

namespace Error

/-- One problem stands for itself. -/
def ofProblems : List Problem → Option Error
  | [] => none
  | [p] => some (problem p)
  | ps => some (problems ps)

/-- The size of a text in bytes, and in megabytes as `units` writes it. -/
def sizeText (bytes : Nat) (units : String) : String :=
  toString bytes ++ " bytes (" ++ units ++ " MB)"

def limit? : Error → Option LimitReport
  | textTooLarge limit actual => some
    { name := "max_source_bytes"
      limit := sizeText limit (toString (limit / megabyte))
      actual := sizeText actual (Number.twoPlaces actual megabyte)
      advice := "Reduce source size or split rules into multiple rule sets" }
  | tooDeep limit => some
    { name := "max_expression_depth"
      limit := toString limit
      actual := toString (limit + 1)
      advice := "Simplify nested expressions to reduce depth" }
  | _ => none

/-- What is wrong apart from any rule text or limit. -/
def engineMessage : Error → String
  | reservedFunction name =>
    "'" ++ name ++ "' is an intrinsic function and cannot be redefined"
  | duplicateFunction name => "Function '" ++ name ++ "' is already registered"
  | noRuleAt index ruleSet =>
    "Rule index " ++ toString index ++ " out of range for rule set '" ++ ruleSet ++ "'"
  | unknownRuleSet name version => "Rule set '" ++ name ++ "@" ++ version ++ "' not found"
  | _ => ""

/-- Numbered lines, from 1. -/
def numbered (messages : List String) : String :=
  String.join (messages.zipIdx.map fun (m, i) => "\n  " ++ toString (i + 1) ++ ". " ++ m)

def message (e : Error) : String :=
  match e with
  | problem p => p.message
  | problems ps => "Multiple errors:" ++ numbered (ps.map Problem.message)
  | cycleLimit maxCycles lastRule =>
    "Cycle limit exceeded: rules still matching after " ++ toString maxCycles
      ++ " cycles (last fired rule: '" ++ lastRule ++ "')"
  | duplicateFact name => "Fact '" ++ name ++ "' is already bound in this data context"
  | textTooLarge .. | tooDeep .. =>
    e.limit?.elim "" fun r =>
      "Resource limit exceeded: " ++ r.name ++ " (limit: " ++ r.limit ++ ", actual: " ++ r.actual
        ++ "). " ++ r.advice
  | _ => "Engine error: " ++ e.engineMessage

end Error

end Rulebook
