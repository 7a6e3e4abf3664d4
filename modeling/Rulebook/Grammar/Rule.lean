import Rulebook.Grammar.Expr
import Rulebook.Token.Scan

/-!
# The grammar of rules

A rule that cannot be read does not hide those after it: reading goes on at the next `rule` keyword
that is not a member name, so that all broken rules are reported together. Only nesting beyond the
limit ends the whole attempt.
-/

namespace Rulebook.Grammar

open Rulebook.Grammar.Parser

/-- An optional minus sign and an integer. -/
def salience : Parser Int64 := do
  let negative := (← nextIf (·.isOperator .minus)).isSome
  let t ← peek
  match t.kind with
  | .literal (.int n) =>
    let _ ← next
    return if negative then -n else n
  | .literal other => refuse (.badSalience other t.text) t.span
  | _ => expected .salience

/-- An assignment to a member or an element, or a call, up to the semicolon. -/
def statement (room : Nat) : Parser Statement := do
  match (← peek).kind with
  | .identifier =>
    let target ← chain room
    if (← peek).isOperator .assign then
      match target with
      | .member .. | .index .. =>
        let _ ← next
        let value ← expression room
        let stop ← mark .semicolon
        return .assign target value (target.span.cover stop.span)
      | .ident name span => refuse (.assignToFact name) span
      | _ => refuse (.assignToCall target) target.span
    else
      match target with
      | .call .. | .method .. =>
        let stop ← mark .semicolon
        return .call target (target.span.cover stop.span)
      | _ => expected .assignOrCall
  | _ => expected .statement

/-- Statements up to a closing brace or the end, behind those already read, which are kept in
reverse. No more statements are read than the list of tokens `bound` is long. -/
def statements (room : Nat) : List Token → List Statement → Parser (List Statement)
  | [], found => return found.reverse
  | _ :: bound, found => do
    let t ← peek
    if t.isMark .closeBrace || t.isEof then return found.reverse
    else
      let s ← statement room
      statements room bound (s :: found)

/-- The description of a rule, if there is one. -/
def description : Parser (Option String) := do
  match (← peek).kind with
  | .literal (.text s) =>
    let _ ← next
    return some s
  | _ => return none

/-- The salience that a rule declares, or else the default. -/
def declaredSalience : Parser Int64 := do
  match ← nextIf (·.isKeyword .salience) with
  | some _ => salience
  | none => return Rule.defaultSalience

/-- What follows the name of a rule. -/
def ruleBody (room : Nat) (start : Token) (name : String) : Parser Rule := do
  let description ← description
  let salience ← declaredSalience
  let _ ← mark .openBrace
  let _ ← keyword .when
  let condition ← expression room
  let _ ← keyword .«then»
  let actions ← statements room (← get) []
  if actions.isEmpty then expected .action
  else
    let stop ← mark .closeBrace
    return ⟨name, description, salience, condition, actions, start.span.cover stop.span⟩

/-- The keyword that a rule begins with. -/
def ruleKeyword : Parser Token := do
  match ← nextIf (·.isKeyword .rule) with
  | some t => return t
  | none => expected .ruleKeyword

def rule (room : Nat) : Parser Rule := do
  let start ← ruleKeyword
  match ← nextIf (·.kind matches .identifier) with
  | some name => inRule name.text (ruleBody room start name.text)
  | none => expected .ruleName

/-! ## Many rules -/

/-- The tokens from the next `rule` keyword on that starts a rule, where `last` is the token just
before. -/
def nextRule (last : Token) : List Token → List Token
  | [] => []
  | t :: ts =>
    if t.isEof || (t.isKeyword .rule && !last.isMark .dot) then t :: ts else nextRule t ts

/-- Skips at least one token, unless the end is reached. -/
def recover : List Token → List Token
  | [] => []
  | t :: ts => if t.isEof then t :: ts else nextRule t ts

/-- A token list that is not a rule set: the nesting is too deep somewhere, or some rules are
broken. -/
inductive Failure where
  | tooDeep
  | broken (faults : List (Fault × Span × Option String))

/-- Reads rules up to the end, behind the rules and faults already found, which are kept in reverse.
No more attempts are made than the list of tokens `bound` is long. -/
def rulesFrom (room : Nat) (rules : List Rule) (faults : List (Fault × Span × Option String))
    (ts : List Token) : (bound : List Token) → Except Failure (List Rule)
  | [] => finish
  | _ :: bound =>
    if (first ts).isEof then finish
    else
      match (rule room).run.run ts with
      | (.ok r, ts) => rulesFrom room (r :: rules) faults ts bound
      | (.error .tooDeep, _) => .error .tooDeep
      | (.error (.refused fault span name), ts) =>
        rulesFrom room rules ((fault, span, name) :: faults) (recover ts) bound
where
  finish := if faults.isEmpty then .ok rules.reverse else .error (.broken faults.reverse)

/-- The rules that a token list consists of. -/
def rules (room : Nat) (ts : List Token) : Except Failure (List Rule) := rulesFrom room [] [] ts ts

end Rulebook.Grammar
