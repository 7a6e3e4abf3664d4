import Rulebook.Eval.Call
import Rulebook.Eval.Chain

/-!
# Evaluating expressions

An expression first leads to a place: a fact or a value, and the links from there that have not been
followed yet, with their keys and arguments evaluated. Reading the place gives the value. The fact
of a chain is looked up only when the place is read, after all keys and arguments.
-/

namespace Rulebook.Eval

variable {φ ω : Type} [FactOps φ]

/-- What a chain of links starts from. -/
inductive Base where
  | fact (name : String) (span : Span)
  | value (v : Value)

/-- A base and the steps from it, the last one first. -/
structure Place where
  base : Base
  steps : List Step

namespace Place

def ofValue (v : Value) : Place := ⟨.value v, []⟩

def step (p : Place) (link : Link) (span : Span) : Place :=
  { p with steps := ⟨link, span⟩ :: p.steps }

end Place

def unknownFact {α : Type} (name : String) (span : Span) : Eval φ ω α := do
  fail (.unknownFact name (← get).context.names) span

/-- Accesses a fact and keeps its next state. -/
def accessFact {α : Type} (name : String) (span : Span)
    (access : φ → Except StepFault α × φ) : Eval φ ω α := do
  match Entries.get? (← get).context.facts name with
  | none => unknownFact name span
  | some f =>
    let (result, f) := access f
    modify (·.setFact name f)
    match result with
    | .ok a => return a
    | .error e => fail (.access e.error) e.span

/-- The value at a place. -/
def readPlace (p : Place) : Eval φ ω Value :=
  match p.base with
  | .fact name span => accessFact name span (Chain.readFact p.steps.reverse)
  | .value v =>
    match Chain.readValue p.steps.reverse v with
    | .ok v => return v
    | .error e => fail (.access e.error) e.span

/-- An operand of a logical operator must be a truth value. -/
def truth (op : LogicOp) (operand : Expr) (v : Value) : Eval φ ω Bool :=
  match v with
  | .bool b => return b
  | other => fail (.notTruthValue op other.typeName operand) operand.span

/-- Whether the left operand alone decides. -/
def decides (op : LogicOp) (left : Bool) : Bool :=
  match op with
  | .and => !left
  | .or => left

mutual

/-- The place that an expression leads to. Operands, keys and arguments are evaluated from left to
right. -/
def place : Expr → Eval φ ω Place
  | .literal v _ => return .ofValue (.ofLiteral v)
  | .ident name span => return ⟨.fact name span, []⟩
  | .unary op operand span => do
    let v ← readPlace (← place operand)
    return .ofValue (← ofExcept .operator span (Value.unary op v))
  | .arith op left right span => do
    let l ← readPlace (← place left)
    let r ← readPlace (← place right)
    return .ofValue (← ofExcept .operator span (Value.arith op l r))
  | .compare op left right span => do
    let l ← readPlace (← place left)
    let r ← readPlace (← place right)
    return .ofValue (← ofExcept .operator span (Value.compare op l r))
  | .logic op left right _ => do
    let l ← truth op left (← readPlace (← place left))
    if decides op l then return .ofValue (.bool l)
    else
      let r ← truth op right (← readPlace (← place right))
      return .ofValue (.bool r)
  | .member object name span => do
    let p ← place object
    return p.step (.member name) span
  | .index object key span => do
    let p ← place object
    let k ← readPlace (← place key)
    return p.step (.index k) span
  | .call name args span => do
    let vs ← values args
    return .ofValue (← call name vs span)
  | .method receiver name args span => do
    let p ← place receiver
    let vs ← values args
    return p.step (.call name vs) span

/-- The values of expressions, from left to right. -/
def values : List Expr → Eval φ ω (List Value)
  | [] => return []
  | e :: es => do
    let v ← readPlace (← place e)
    let vs ← values es
    return v :: vs

end

/-- The value of an expression. -/
def eval (e : Expr) : Eval φ ω Value := do readPlace (← place e)

/-- Assigns to the member or element of a fact that `target` leads to. -/
def assign (target : Expr) (v : Value) : Eval φ ω Unit := do
  if target.root?.isNone then fail (.assignElsewhere target) target.span
  else
    match ← place target with
    | ⟨.fact name _, []⟩ => fail (.assignToFact name) target.span
    | ⟨.fact name span, steps⟩ => accessFact name span (Chain.writeFact v steps.reverse)
    | ⟨.value _, _⟩ => fail (.assignElsewhere target) target.span

/-- The value that is assigned is evaluated before the target's keys and arguments. -/
def execute : Statement → Eval φ ω Unit
  | .assign target value _ => do
    let v ← eval value
    assign target v
  | .call e _ => do
    let _ ← eval e

/-- Whether the condition of a rule holds. -/
def condition (r : Rule) : Eval φ ω Bool := do
  match ← eval r.condition with
  | .bool b => return b
  | other => fail (.condition other) r.condition.span

/-- Runs actions in order; a failure keeps what those before it did. -/
def executeAll : List Statement → Eval φ ω Unit
  | [] => return
  | a :: rest => do
    execute a
    executeAll rest

end Rulebook.Eval
