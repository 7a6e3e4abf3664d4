import Rulebook.Error
import Rulebook.Intrinsic

/-!
# Data contexts

A context binds facts and host functions to names. Host functions share a state of their own and
never see the facts.
-/

namespace Rulebook

/-- A function that rules can call by a bare name, over a state of type `ω`. -/
abbrev HostFunction (ω : Type) := List Value → ω → Except AccessError Value × ω

structure Context (φ ω : Type) where
  facts : Entries φ := []
  functions : Entries (HostFunction ω) := []
  world : ω

namespace Context

variable {φ ω : Type}

/-- Binds a fact to a name that is still free. -/
def add (c : Context φ ω) (name : String) (fact : φ) : Except Error (Context φ ω) :=
  if Entries.contains c.facts name then .error (.duplicateFact name)
  else .ok { c with facts := Entries.insert c.facts name fact }

def remove (c : Context φ ω) (name : String) : Context φ ω :=
  { c with facts := Entries.erase c.facts name }

def contains (c : Context φ ω) (name : String) : Bool := Entries.contains c.facts name

/-- The names of the bound facts, sorted. -/
def names (c : Context φ ω) : List String := Entries.keys c.facts

/-- A snapshot of a bound fact. -/
def valueOf? [FactOps φ] (c : Context φ ω) (name : String) : Option Value :=
  (Entries.get? c.facts name).map FactOps.toValue

/-- Registers a function under a name that neither an intrinsic function nor another one has. -/
def addFunction (c : Context φ ω) (name : String) (f : HostFunction ω) :
    Except Error (Context φ ω) :=
  if (Intrinsic.ofName? name).isSome then .error (.reservedFunction name)
  else if Entries.contains c.functions name then .error (.duplicateFunction name)
  else .ok { c with functions := Entries.insert c.functions name f }

end Context

end Rulebook
