import Rulebook.Expr

/-!
# Rules

A rule has a condition and actions, and a salience that decides which of several matching rules
fires first. An action assigns to a place in a fact or makes a call.
-/

namespace Rulebook

inductive Statement where
  | assign (target value : Expr) (span : Span)
  | call (call : Expr) (span : Span)
deriving Inhabited

namespace Statement

def span : Statement → Span
  | assign _ _ s | call _ s => s

/-- The expressions that a statement consists of. -/
def exprs : Statement → List Expr
  | assign target value _ => [target, value]
  | call e _ => [e]

def shown : Statement → String
  | assign target value _ => target.shown ++ " = " ++ value.shown ++ ";"
  | call e _ => e.shown ++ ";"

end Statement

structure Rule where
  name : String
  description : Option String
  salience : Int64
  condition : Expr
  actions : List Statement
  span : Span
deriving Inhabited

namespace Rule

/-- The salience of a rule that declares none. -/
def defaultSalience : Int64 := 0

def indent (depth : Nat) (line : String) : String :=
  String.ofList (List.replicate (4 * depth) ' ') ++ line ++ "\n"

/-- A rule on several lines, as it could be written in a rule text. -/
def shown (r : Rule) : String :=
  "rule " ++ r.name
    ++ (r.description.elim "" fun d => " " ++ Text.Quoted.shown d)
    ++ " salience " ++ toString r.salience.toInt ++ " \x7b\n"
    ++ indent 1 "When" ++ indent 2 r.condition.shown
    ++ indent 1 "Then" ++ String.join (r.actions.map fun a => indent 2 a.shown)
    ++ "\x7d"

end Rule

end Rulebook
