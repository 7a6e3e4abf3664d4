import Rulebook.Eval.Expr

/-!
# Running rule sets

One cycle evaluates the conditions of all active rules, orders the rules that match by salience, the
highest first and equal ones as declared, and fires the first. A run goes on until no active rule
matches or a rule completes it, and fails when rules still match after the given number of cycles.
-/

namespace Rulebook

/-- What a run without an error did. `fired` and `retracted` are in the order of events. -/
structure Report where
  ruleSet : String
  version : String
  outcome : Outcome
  cycles : Nat
  fired : List String
  retracted : List String

def Report.hasFired (r : Report) (rule : String) : Bool := rule ∈ r.fired

/-- The state of everything after a run, and its result. -/
structure Run (φ ω α : Type) where
  result : Except Error α
  session : Session φ ω

namespace Engine

variable {φ ω : Type} [FactOps φ]

/-- The number of cycles of a run if nothing else is said. -/
def defaultMaxCycles : Nat := 5000

/-- A rule with its position in the rule set, from 0. -/
abbrev Numbered := Nat × Rule

/-- The active rules among `rules` whose conditions hold, in order. -/
def holding : List Numbered → Eval φ ω (List Numbered)
  | [] => return []
  | (i, r) :: rest => do
    if (← get).active.getD i false then
      let holds ← Eval.inRule r.name (Eval.condition r)
      let others ← holding rest
      return if holds then (i, r) :: others else others
    else holding rest

/-- The highest salience first; the sort keeps the order of equal ones. -/
def byPriority (rules : List Numbered) : List Numbered :=
  rules.mergeSort fun a b => b.2.salience ≤ a.2.salience

def numbered (s : RuleSet) : List Numbered := s.rules.zipIdx.map fun (r, i) => (i, r)

/-- The active rules whose conditions hold, in the order in which they would fire. -/
def matching : Eval φ ω (List Numbered) := do
  let rules ← holding (numbered (← read).ruleSet)
  return byPriority rules

/-- Runs the actions of a rule. -/
def fireRule (r : Rule) : Eval φ ω Unit := Eval.inRule r.name (Eval.executeAll r.actions)

/-- Runs the actions of the rule at a position. -/
def fire (i : Nat) : Eval φ ω Unit := do
  let frame ← read
  match frame.ruleSet.rules[i]? with
  | some r => fireRule r
  | none => throw (.noRuleAt i frame.ruleSet.name)

/-- The name of the rule that fired last, where `fired` has the last one first. -/
def lastFired (fired : List String) : String := fired.headD ""

/-- Gives up because rules still match. -/
def giveUp {α : Type} (maxCycles : Nat) (fired : List String) : Eval φ ω α := do
  modify (·.record (.stopped maxCycles (lastFired fired)))
  throw (.cycleLimit maxCycles (lastFired fired))

/-- Fires a rule, the best of `count` that match, as the next cycle. -/
def fireNext (r : Rule) (count : Nat) : Eval φ ω Unit := do
  modify fun s => s.record (.firing (s.cycle + 1) count r.name r.salience)
  fireRule r
  modify fun s => { s with cycle := s.cycle + 1 }

/-- Runs cycles as long as `left` allows, behind those that fired the rules in `fired`, the last one
first. -/
def cycles (maxCycles : Nat) :
    (left : Nat) → (fired : List String) → Eval φ ω (Outcome × List String)
  | 0, fired => do
    match ← matching with
    | [] => return (.quiescent, fired)
    | _ :: _ => giveUp maxCycles fired
  | left + 1, fired => do
    match ← matching with
    | [] => return (.quiescent, fired)
    | (_, r) :: others =>
      fireNext r (others.length + 1)
      if (← get).complete then return (.completed, r.name :: fired)
      else cycles maxCycles left (r.name :: fired)

/-- A whole run within a session. -/
def session (maxCycles : Nat) : Eval φ ω Report := do
  let (outcome, fired) ← cycles maxCycles maxCycles []
  let s ← get
  modify (·.record (.finished outcome s.cycle))
  let frame ← read
  return ⟨frame.ruleSet.name, frame.ruleSet.version, outcome, s.cycle, fired.reverse, s.retracted⟩

/-- Evaluates over a context, starting with the given rules active. -/
def runWith {α : Type} (e : Eval φ ω α) (s : RuleSet) (active : Array Bool) (c : Context φ ω) :
    Run φ ω α :=
  let (result, final) := e.runIn ⟨s, none⟩ (.start c active)
  ⟨result, final⟩

/-- Runs the rules of a knowledge base, all of them active at first. -/
def execute (maxCycles : Nat) (c : Context φ ω) (kb : KnowledgeBase) : Run φ ω Report :=
  runWith (session maxCycles) kb.ruleSet kb.reset.active c

/-- The active rules of a knowledge base that match, in the order in which they would fire. -/
def fetchMatching (c : Context φ ω) (kb : KnowledgeBase) : Run φ ω (List Rule) :=
  runWith (do return (← matching).map Prod.snd) kb.ruleSet kb.active c

end Engine

/-- The knowledge base after a run over it. -/
def Run.knowledgeBase {φ ω α : Type} (r : Run φ ω α) (kb : KnowledgeBase) : KnowledgeBase :=
  { kb with active := r.session.active }

end Rulebook
