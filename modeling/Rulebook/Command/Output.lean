import Rulebook.Command.Table
import Rulebook.Command.Workspace
import Rulebook.Fact.Provided
import Rulebook.Json.Text

/-! # What the command prints -/

namespace Rulebook.Command

/-! ## Results -/

def ruleSetLine (name version : String) : String :=
  "Rule set: " ++ RuleSet.sourceName name version ++ "\n\n"

def firedRow (s : RuleSet) (cycle : Nat) (rule : String) : List Cell :=
  [⟨toString cycle, true⟩, ⟨rule, false⟩,
    ⟨(s.rule? rule).elim "" fun r => toString r.salience.toInt, true⟩]

/-- The rules that fired, in order, and how the run ended. -/
def reportText (s : RuleSet) (r : Report) : String :=
  let fired := if r.fired.isEmpty then "No rules fired.\n"
    else Table.render ["Cycle", "Rule", "Salience"]
      (r.fired.zipIdx.map fun (rule, i) => firedRow s (i + 1) rule) ++ "\n"
  let outcome := match r.outcome with
    | .quiescent => "quiescent"
    | .completed => "completed"
  ruleSetLine r.ruleSet r.version ++ fired
    ++ "\nOutcome: " ++ outcome ++ " after " ++ toString r.cycles ++ " cycle(s)\n"
    ++ (if r.retracted.isEmpty then ""
      else "Retracted: " ++ ", ".intercalate r.retracted ++ "\n")
    ++ "\n"

def matchingRow (place : Nat) (r : Rule) : List Cell :=
  [⟨toString place, true⟩, ⟨r.name, false⟩, ⟨toString r.salience.toInt, true⟩,
    ⟨r.description.getD "", false⟩]

def matchingText (rules : List Rule) : String :=
  if rules.isEmpty then "No rules match.\n"
  else Table.render ["#", "Rule", "Salience", "Description"]
    (rules.zipIdx.map fun (r, i) => matchingRow (i + 1) r) ++ "\n"

def ruleSetText (s : RuleSet) : String :=
  ruleSetLine s.name s.version ++ "rules (" ++ toString s.rules.length ++ "):\n"
    ++ String.join (s.rules.map fun r => "\n" ++ r.shown ++ "\n")

def workspaceText (w : Workspace) : String :=
  let ruleSets := w.library.ruleSets
  "Workspace contains " ++ toString w.fileCount ++ " files, " ++ toString ruleSets.length
    ++ " rule sets\n\n"
    ++ String.join (ruleSets.map fun s =>
      s.source ++ ": " ++ toString s.rules.length ++ " rules\n")

/-! ## Errors -/

/-- A problem with its place, and what to do about it on a line with a border. -/
def problemText (p : Problem) : String :=
  "Error: " ++ p.cause.stage.title ++ ": " ++ p.cause.message ++ " ("
    ++ (p.rule.elim "" fun r => "in rule '" ++ r ++ "', ") ++ p.place ++ ")\n"
    ++ (p.cause.suggestion?.elim "" fun s => "  │ Help: " ++ s ++ "\n")

def errorText (e : Error) : String :=
  match e with
  | .problem p => problemText p
  | .problems ps =>
    toString ps.length ++ " errors occurred:\n\n"
      ++ String.join (ps.map fun p => problemText p ++ "\n\n")
  | .cycleLimit maxCycles lastRule =>
    "Cycle limit exceeded: rules still matching after " ++ toString maxCycles ++ " cycles"
      ++ (if lastRule.isEmpty then "" else "\n  Last fired rule: " ++ lastRule)
      ++ "\n  Retract rules once they have fired, or raise --max-cycles"
  | other =>
    match other.limit? with
    | some r =>
      "Resource limit exceeded: " ++ r.name ++ "\n  Limit: " ++ r.limit ++ "\n  Actual: "
        ++ r.actual ++ "\n  " ++ r.advice
    | none => other.message

def Failure.text : Failure → String
  | .engine e => errorText e
  | .noDirectory path e =>
    "Error: IO error for operation on " ++ path ++ ": " ++ e.message ++ ": " ++ e.message
  | .ruleFile path e => "Error: failed to read " ++ path ++ ": " ++ e.message
  | .factFile path e => "Error: failed to read facts file " ++ path ++ ": " ++ e.message
  | .badJson path message => "Error: invalid JSON in " ++ path ++ ": " ++ message
  | .noObject path =>
    "Error: facts file " ++ path ++ " must contain a JSON object, one fact per key"
  | .badFact argument => "Error: invalid fact '" ++ argument ++ "', expected NAME=JSON"
  | .noFactName argument => "Error: invalid fact '" ++ argument ++ "', name is empty"
  | .noRuleSet name => "Error: Rule set '" ++ name ++ "' not found"
  | .severalVersions name versions =>
    "Error: Rule set '" ++ name ++ "' has several versions (" ++ ", ".intercalate versions
      ++ "); use " ++ name ++ "@VERSION"

end Rulebook.Command
