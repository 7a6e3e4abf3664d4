import Rulebook.Grammar.Depth
import Rulebook.Proofs.Grammar.Derivation

/-!
# Reading with a cursor

The grammar once more, as a machine that changes a state: a cursor moves over the tokens, a counter
goes up with every level that is entered and down again with every level that is left, and the name
of the rule is kept for its faults. Nothing here says that the machine ends or that its tokens are
there: a loop may run for ever, and a token that is looked up outside the list is a panic.

What happens to the counter is noted down. How a sign is put before its operand is left open, so
that the same machine also reads without making signs part of literals.
-/

namespace Rulebook.Grammar

/-- A machine with a cursor is given by how it puts a sign before its operand. -/
abbrev Cursor := UnaryOp → Expr → Span → Expr

namespace Cursor

/-- What has to begin without any level that is still open. -/
inductive Part where
  | rule
  | condition
  | action

/-- Something that happens to the counter, with its value: after a level was entered, and before one
is left. -/
inductive Note where
  | begins (part : Part) (level : Nat)
  | enters (level : Nat)
  | leaves (level : Nat)

structure State where
  tokens : List Token
  pos : Nat := 0
  depth : Depth
  rule : Option String := none
  notes : List Note := []

inductive Panic where
  | outOfRange (index : Nat)
  | underflow

/-- A run gives a result or panics, or it never ends. -/
abbrev Run := StateT State (ExceptT Panic Option)

/-- A run that may also stop, and leaves the state as it is then. -/
abbrev Reader := ExceptT Stop Run

variable {α : Type}

/-! ## Tokens -/

def panic (p : Panic) : Run α := throwThe Panic p

def tokenAt (i : Nat) : Run Token := do
  match (← get).tokens[i]? with
  | some t => return t
  | none => panic (.outOfRange i)

/-- The token at the cursor, or else the last one. -/
def peek : Run Token := do
  let s ← get
  tokenAt (min s.pos (s.tokens.length - 1))

/-- Moves over the next token, but never over the end. -/
def advance : Run Token := do
  let t ← peek
  if !t.isEof then modify fun s => { s with pos := s.pos + 1 }
  return t

def eat (p : Token → Bool) : Run Bool := do
  if p (← peek) then
    let _ ← advance
    return true
  else return false

/-- The span of the token before the cursor. -/
def previous : Run Span := do
  match (← get).pos with
  | 0 => return (← peek).span
  | i + 1 => return (← tokenAt i).span

def refuse (fault : Fault) (span : Span) : Reader α := do
  throw (.refused fault span (← get).rule)

def expected (what : Expected) : Reader α := do
  let t ← peek
  refuse (.expected what t) t.span

def expect (p : Token → Bool) (what : Expected) : Reader Token := do
  if p (← peek) then advance else expected what

def mark (m : Mark) : Reader Token := expect (·.isMark m) (.mark m)

def keyword (k : Keyword) : Reader Token := expect (·.isKeyword k) (.keyword k)

/-! ## The counter -/

/-- Enters a level, or stops. -/
def enter : Reader Unit := do
  let s ← get
  match s.depth.push with
  | .ok d => set { s with depth := d, notes := .enters d.level :: s.notes }
  | .error _ => throw .tooDeep

def leave : Run Unit :=
  modify fun s => { s with depth := s.depth.pop, notes := .leaves s.depth.level :: s.notes }

def leaveAll : Nat → Run Unit
  | 0 => return
  | n + 1 => do
    leave
    leaveAll n

def begin (part : Part) : Run Unit :=
  modify fun s => { s with notes := .begins part s.depth.level :: s.notes }

/-! ## Expressions

Levels are left on every way out, so where some are open a result is kept until they are. -/

mutual

def expression (sign : Cursor) : Run (Except Stop Expr) := do
  match ← enter.run with
  | .error e => return .error e
  | .ok () =>
    let result ← sign |>.level .or
    leave
    return result
partial_fixpoint

/-- The operands of a binary level. Those behind the first are counted. -/
def level (sign : Cursor) (b : Binary) : Run (Except Stop Expr) := do
  match ← sign |>.operand b with
  | .error e => return .error e
  | .ok left =>
    let (result, folded) ← sign |>.folds b left 0
    leaveAll folded
    return result
partial_fixpoint

def folds (sign : Cursor) (b : Binary) (left : Expr) (folded : Nat) :
    Run (Except Stop Expr × Nat) := do
  match b.op? (← peek) with
  | none => return (.ok left, folded)
  | some build =>
    let _ ← advance
    match ← enter.run with
    | .error e => return (.error e, folded)
    | .ok () =>
      match ← sign |>.operand b with
      | .error e => return (.error e, folded + 1)
      | .ok right => sign |>.folds b (build left right) (folded + 1)
partial_fixpoint

def operand (sign : Cursor) (b : Binary) : Run (Except Stop Expr) :=
  match b with
  | .or => sign |>.level .and
  | .and => (sign |>.comparison).run
  | .sum => sign |>.level .product
  | .product => sign |>.unary
partial_fixpoint

def comparison (sign : Cursor) : Reader Expr := do
  let left ← (sign |>.level .sum : Reader Expr)
  match compareOp? (← peek) with
  | none => return left
  | some op =>
    let _ ← advance
    let right ← (sign |>.level .sum : Reader Expr)
    let t ← peek
    if (compareOp? t).isSome then refuse (.chainedComparison t.text op) t.span
    else return .compare op left right (left.span.cover right.span)
partial_fixpoint

def unary (sign : Cursor) : Run (Except Stop Expr) := do
  match unaryOp? (← peek) with
  | none => (sign |>.primary).run
  | some op =>
    let start ← advance
    match ← enter.run with
    | .error e => return .error e
    | .ok () =>
      let result ← sign |>.unary
      leave
      return result.map fun e => sign op e (start.span.cover e.span)
partial_fixpoint

def primary (sign : Cursor) : Reader Expr := do
  let t ← peek
  match t.kind with
  | .literal value =>
    let _ ← advance
    return .literal value t.span
  | .identifier => (sign |>.chain : Reader Expr)
  | .mark .openParen =>
    let _ ← advance
    let inner ← (sign |>.expression : Reader Expr)
    let close ← mark .closeParen
    return inner.withSpan (t.span.cover close.span)
  | _ => expected .expression
partial_fixpoint

/-- A name with its links, which are counted. -/
def chain (sign : Cursor) : Run (Except Stop Expr) := do
  match ← (sign |>.chainHead).run with
  | .error e => return .error e
  | .ok object =>
    let (result, links) ← sign |>.linksFrom object 0
    leaveAll links
    return result
partial_fixpoint

def chainHead (sign : Cursor) : Reader Expr := do
  let head ← expect (·.kind matches .identifier) .identifier
  if (← peek).isMark .openParen then
    let args ← sign |>.arguments
    return .call head.text args (head.span.cover (← previous))
  else return .ident head.text head.span
partial_fixpoint

def linksFrom (sign : Cursor) (object : Expr) (links : Nat) : Run (Except Stop Expr × Nat) := do
  if ← eat (·.isMark .dot) then
    match ← enter.run with
    | .error e => return (.error e, links)
    | .ok () =>
      match ← (sign |>.memberLink object).run with
      | .error e => return (.error e, links + 1)
      | .ok object => sign |>.linksFrom object (links + 1)
  else if ← eat (·.isMark .openBracket) then
    match ← enter.run with
    | .error e => return (.error e, links)
    | .ok () =>
      match ← (sign |>.indexLink object).run with
      | .error e => return (.error e, links + 1)
      | .ok object => sign |>.linksFrom object (links + 1)
  else return (.ok object, links)
partial_fixpoint

def memberLink (sign : Cursor) (object : Expr) : Reader Expr := do
  let t ← peek
  match t.name? with
  | none => expected .memberName
  | some name =>
    let _ ← advance
    if (← peek).isMark .openParen then
      let args ← sign |>.arguments
      return .method object name args (object.span.cover (← previous))
    else return .member object name (object.span.cover t.span)
partial_fixpoint

def indexLink (sign : Cursor) (object : Expr) : Reader Expr := do
  let key ← (sign |>.expression : Reader Expr)
  let close ← mark .closeBracket
  return .index object key (object.span.cover close.span)
partial_fixpoint

def arguments (sign : Cursor) : Reader (List Expr) := do
  let _ ← mark .openParen
  if ← eat (·.isMark .closeParen) then return []
  else sign |>.separated []
partial_fixpoint

def separated (sign : Cursor) (found : List Expr) : Reader (List Expr) := do
  let e ← (sign |>.expression : Reader Expr)
  if ← eat (·.isMark .comma) then sign |>.separated (e :: found)
  else if ← eat (·.isMark .closeParen) then return (e :: found).reverse
  else expected .argumentEnd
partial_fixpoint

end

/-! ## Statements and rules -/

def statement (sign : Cursor) : Reader Statement := do
  begin .action
  match (← peek).kind with
  | .identifier =>
    let target ← (chain sign : Reader Expr)
    if (← peek).isOperator .assign then
      match target with
      | .member .. | .index .. =>
        let _ ← advance
        let value ← (expression sign : Reader Expr)
        let stop ← mark .semicolon
        return .assign target value (target.span.cover stop.span)
      | .ident name span => refuse (.assignToFact name) span
      | _ => refuse (.assignToCall target) target.span
    else
      match target with
      | .call .. | .method .. =>
        let stop ← mark .semicolon
        return .call target (target.span.cover stop.span)
      | _ => expected .assignOrCall
  | _ => expected .statement

def statements (sign : Cursor) (found : List Statement) : Reader (List Statement) := do
  let t ← peek
  if t.isMark .closeBrace || t.isEof then return found.reverse
  else sign |>.statements ((← statement sign) :: found)
partial_fixpoint

def description : Reader (Option String) := do
  match (← peek).kind with
  | .literal (.text s) =>
    let _ ← advance
    return some s
  | _ => return none

/-- The number behind the sign of a salience. -/
def magnitude (negative : Bool) : Reader Int64 := do
  let t ← peek
  match t.kind with
  | .literal (.int n) =>
    let _ ← advance
    return if negative then -n else n
  | .literal other => refuse (.badSalience other t.text) t.span
  | _ => expected .salience

def salience : Reader Int64 := do
  magnitude (← eat (·.isOperator .minus))

def declaredSalience : Reader Int64 := do
  if ← eat (·.isKeyword .salience) then salience
  else return Rule.defaultSalience

/-- What follows the name of a rule. -/
def ruleBody (sign : Cursor) (start : Token) (name : String) : Reader Rule := do
  let description ← description
  let salience ← declaredSalience
  let _ ← mark .openBrace
  let _ ← keyword .when
  begin .condition
  let condition ← (expression sign : Reader Expr)
  let _ ← keyword .«then»
  let actions ← statements sign []
  if actions.isEmpty then expected .action
  else
    let stop ← mark .closeBrace
    return ⟨name, description, salience, condition, actions, start.span.cover stop.span⟩

def rule (sign : Cursor) : Reader Rule := do
  begin .rule
  let start ← expect (·.isKeyword .rule) .ruleKeyword
  let name ← expect (·.kind matches .identifier) .ruleName
  modify fun s => { s with rule := some name.text }
  ruleBody sign start name.text

/-! ## Many rules -/

/-- Moves to the next `rule` keyword that starts a rule. -/
def skip (sign : Cursor) : Run Unit := do
  let t ← peek
  if t.isEof then return
  else
    match (← get).pos with
    | 0 => panic .underflow
    | i + 1 =>
      let last ← tokenAt i
      if t.isKeyword .rule && !last.isMark .dot then return
      else
        let _ ← advance
        sign |>.skip
partial_fixpoint

def recover (sign : Cursor) : Run Unit := do
  let _ ← advance
  skip sign

def attempt (sign : Cursor) : Reader Rule := do
  if (← peek).isKeyword .rule then rule sign else expected .ruleKeyword

/-- One attempt to read a rule, with what is skipped if it fails. -/
def round (sign : Cursor) : Run (Except Stop Rule) := do
  modify fun s => { s with rule := none }
  let result ← (attempt sign).run
  if let .error (.refused ..) := result then recover sign
  return result

/-- Reads rules up to the end, behind the rules and faults already found, which are kept in
reverse. -/
def ruleSet (sign : Cursor) (rules : List Rule) (faults : List (Fault × Span × Option String)) :
    Run (Except Failure (List Rule)) := do
  if (← peek).isEof then
    return if faults.isEmpty then .ok rules.reverse else .error (.broken faults.reverse)
  else
    match ← round sign with
    | .ok r => sign |>.ruleSet (r :: rules) faults
    | .error .tooDeep => return .error .tooDeep
    | .error (.refused fault span name) => sign |>.ruleSet rules ((fault, span, name) :: faults)
partial_fixpoint

/-- The state before a token list. -/
def start (limit : Nat) (tokens : List Token) : State := { tokens, depth := { limit } }

/-- What a run makes of a state. -/
def Run.on (q : Run α) (s : State) : Option (Except Panic (α × State)) := (q.run s).run

end Cursor

end Rulebook.Grammar
