import Rulebook.Error
import Rulebook.Intrinsic

/-!
# Checks on rules that can be read

Rule names are unique; `Retract` and `Complete`, which change the session, do not occur in
conditions; and in actions they have the right number of arguments, where a literal argument of
`Retract` names a rule of the set. Every offence is reported: repeated names first, then rule by
rule.
-/

namespace Rulebook.RuleSet

/-- An offence with the span and the rule that it is in. -/
structure Offence where
  fault : CompileFault
  span : Span
  rule : String

/-- Rules whose name occurred before, where `seen` are the names so far with their lines. -/
def repeated (seen : List (String × Nat)) : List Rule → List Offence
  | [] => []
  | r :: rs =>
    match seen.lookup r.name with
    | some line => ⟨.duplicateRule r.name line, r.span, r.name⟩ :: repeated seen rs
    | none => repeated ((r.name, r.span.line) :: seen) rs

/-- What is wrong with an expression that is part of a condition. -/
def conditionFault? : Expr → Option CompileFault
  | .call name _ _ =>
    match Intrinsic.ofName? name with
    | some .retract | some .complete => some (.inCondition name)
    | _ => none
  | _ => none

/-- What is wrong with the argument of `Retract`. One that is computed is only checked when it is
evaluated. -/
def targetFault? (names : List String) : Expr → Option CompileFault
  | .literal (.text target) _ => if target ∈ names then none else some (.unknownTarget target)
  | .literal other _ => some (.targetNotText other)
  | _ => none

/-- What is wrong with an expression that is part of an action. -/
def actionFault? (names : List String) : Expr → Option CompileFault
  | .call name args _ =>
    match Intrinsic.ofName? name, args with
    | some .retract, [target] => targetFault? names target
    | some .retract, args => some (.argumentCount name 1 args.length)
    | some .complete, [] => none
    | some .complete, args => some (.argumentCount name 0 args.length)
    | _, _ => none
  | _ => none

/-- The offences of the expressions in `e`, by a test that each of them has to pass. -/
def offencesIn (test : Expr → Option CompileFault) (rule : String) (e : Expr) : List Offence :=
  e.nodes.filterMap fun part => (test part).map fun fault => ⟨fault, part.span, rule⟩

def ruleOffences (names : List String) (r : Rule) : List Offence :=
  offencesIn conditionFault? r.name r.condition
    ++ (r.actions.flatMap Statement.exprs).flatMap (offencesIn (actionFault? names) r.name)

def offences (rules : List Rule) : List Offence :=
  repeated [] rules ++ rules.flatMap (ruleOffences (rules.map Rule.name))

def Offence.problem (source : String) (o : Offence) : Problem :=
  ⟨.compile o.fault, o.span, some o.rule, source⟩

def check (source : String) (rules : List Rule) : Except Error Unit :=
  match Error.ofProblems ((offences rules).map (Offence.problem source)) with
  | some e => .error e
  | none => .ok ()

end Rulebook.RuleSet
