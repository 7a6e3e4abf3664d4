import Rulebook.Context
import Rulebook.RuleSet

/-!
# Sessions

A session is one run over a context: it knows which rules are active, which were retracted and in
what order, whether a rule asked for the end, and what was reported on the way. Evaluation changes
the session, and keeps its changes when it fails.
-/

namespace Rulebook

/-- How a run without an error ended: no active rule matched, or a rule completed it. -/
inductive Outcome where
  | quiescent
  | completed
deriving DecidableEq, Repr

/-- What a session reports while it runs. -/
inductive Event where
  | logged (text : String) (rule : Option String)
  | called (function : String) (args : List Value)
  | firing (cycle matched : Nat) (rule : String) (salience : Int64)
  | finished (outcome : Outcome) (cycles : Nat)
  | stopped (maxCycles : Nat) (lastRule : String)

structure Session (φ ω : Type) where
  context : Context φ ω
  active : Array Bool
  retracted : List String := []
  complete : Bool := false
  cycle : Nat := 0
  events : Array Event := #[]

namespace Session

variable {φ ω : Type}

/-- A session at its beginning. -/
def start (context : Context φ ω) (active : Array Bool) : Session φ ω := { context, active }

def record (e : Event) (s : Session φ ω) : Session φ ω := { s with events := s.events.push e }

/-- Switches off the rule at position `i`. Retracting it again changes nothing. -/
def retract (i : Nat) (name : String) (s : Session φ ω) : Session φ ω :=
  if s.active.getD i false then
    { s with active := s.active.setIfInBounds i false, retracted := s.retracted ++ [name] }
  else s

@[simp] theorem context_retract (i : Nat) (name : String) (s : Session φ ω) :
    (s.retract i name).context = s.context := by
  unfold retract; split <;> rfl

@[simp] theorem complete_retract (i : Nat) (name : String) (s : Session φ ω) :
    (s.retract i name).complete = s.complete := by
  unfold retract; split <;> rfl

@[simp] theorem cycle_retract (i : Nat) (name : String) (s : Session φ ω) :
    (s.retract i name).cycle = s.cycle := by
  unfold retract; split <;> rfl

def setFact (name : String) (f : φ) (s : Session φ ω) : Session φ ω :=
  { s with context := { s.context with facts := Entries.insert s.context.facts name f } }

def setWorld (w : ω) (s : Session φ ω) : Session φ ω :=
  { s with context := { s.context with world := w } }

end Session

/-- What an evaluation is part of: a rule set, and one of its rules if any. -/
structure Frame where
  ruleSet : RuleSet
  rule : Option String := none

/-- An evaluation within a session. -/
abbrev Eval (φ ω α : Type) := ReaderT Frame (ExceptT Error (StateM (Session φ ω))) α

namespace Eval

variable {φ ω α : Type}

/-- Fails at a place of the rule text. -/
def fail (fault : EvalFault) (span : Span) : Eval φ ω α := do
  let frame ← read
  throw (.problem ⟨.eval fault, span, frame.rule, frame.ruleSet.source⟩)

def ofExcept {ε : Type} (fault : ε → EvalFault) (span : Span) : Except ε α → Eval φ ω α
  | .ok a => return a
  | .error e => fail (fault e) span

/-- Evaluates as part of a rule. -/
def inRule (name : String) (e : Eval φ ω α) : Eval φ ω α :=
  withReader (fun frame => { frame with rule := some name }) e

/-- Evaluates on its own, with the session that results. -/
def runIn (e : Eval φ ω α) (frame : Frame) (s : Session φ ω) : Except Error α × Session φ ω :=
  ((e.run frame).run.run s)

end Eval

end Rulebook
