/-!
# Functions that rules always have

`Log` reports its arguments, `Retract` switches a rule off for the rest of a session, and `Complete`
ends the session after the rule that calls it. Their names cannot be given to other functions.
-/

namespace Rulebook

inductive Intrinsic where
  | log
  | retract
  | complete
deriving DecidableEq, Repr

namespace Intrinsic

def name : Intrinsic → String
  | log => "Log"
  | retract => "Retract"
  | complete => "Complete"

def ofName? (name : String) : Option Intrinsic :=
  if name = "Log" then some log
  else if name = "Retract" then some retract
  else if name = "Complete" then some complete
  else none

/-- The exact number of arguments, unless any number will do. -/
def arity? : Intrinsic → Option Nat
  | log => none
  | retract => some 1
  | complete => some 0

theorem ofName?_name (i : Intrinsic) : ofName? i.name = some i := by cases i <;> rfl

theorem eq_name_of_ofName? {name : String} {i : Intrinsic} (h : ofName? name = some i) :
    name = i.name := by
  unfold ofName? at h
  repeat' split at h
  all_goals cases h
  all_goals assumption

end Intrinsic

end Rulebook
