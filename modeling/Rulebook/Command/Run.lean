import Rulebook.Command.Output

/-! # Running the command -/

namespace Rulebook.Command

/-- What a finished command leaves: its exit code and what it printed. -/
structure Finished where
  code : Nat := 0
  stdout : String := ""
  stderr : String := ""

/-- JSON facts under their names; there are no host functions. -/
def contextOf (facts : Entries Json) : Context Fact Unit :=
  { facts := facts.map fun (name, j) => (name, .document j), world := () }

/-- The documents that the facts of a context are. -/
def factsOf (c : Context Fact Unit) : Entries Json :=
  c.facts.filterMap fun (name, f) =>
    match f with
    | .document j => some (name, j)
    | _ => none

def engine {α : Type} (r : Except Error α) : Except Failure α :=
  match r with
  | .ok a => .ok a
  | .error e => .error (.engine e)

/-- What a request prints, in two parts: before anything can fail, and in the end. -/
def perform (files : Tree) : Request → String × Except Failure String
  | .run ruleSet factArgs workspace maxCycles raw => ("", do
    let w ← Workspace.load files workspace
    let kb ← knowledgeBase w.library ruleSet
    let facts ← loadFacts files factArgs
    let run := Engine.execute maxCycles (contextOf facts) kb
    let report ← engine run.result
    let final := (Json.object (factsOf run.session.context)).pretty ++ "\n"
    return if raw then final else reportText kb.ruleSet report ++ final)
  | .matching ruleSet factArgs workspace => ("", do
    let w ← Workspace.load files workspace
    let kb ← knowledgeBase w.library ruleSet
    let facts ← loadFacts files factArgs
    let rules ← engine (Engine.fetchMatching (contextOf facts) kb).result
    return matchingText rules)
  | .show ruleSet workspace => ("", do
    let w ← Workspace.load files workspace
    let kb ← knowledgeBase w.library ruleSet
    return ruleSetText kb.ruleSet)
  | .list root => ("Loading workspace from " ++ root ++ "...\n", do
    let w ← Workspace.load files { directory := root }
    return "\n" ++ workspaceText w)

def usage : String :=
  "Usage: rulebook run RULESET[@VERSION] [NAME=JSON]... [-f FILE] [-d DIR] [--max-depth N]\n"
    ++ "           [--max-cycles N] [-r]\n"
    ++ "       rulebook match RULESET[@VERSION] [NAME=JSON]... [-f FILE] [-d DIR] [--max-depth N]\n"
    ++ "       rulebook show RULESET[@VERSION] [-d DIR] [--max-depth N]\n"
    ++ "       rulebook list [ROOT]\n"

/-- Runs the command in a directory. -/
def run (args : List String) (files : Tree) : Finished :=
  match Request.ofArguments args with
  | .error .help => { stdout := usage }
  | .error .version => { stdout := "ferrule 0.1.0\n" }
  | .error .invalid => { code := 2, stderr := usage }
  | .ok request =>
    match perform files request with
    | (before, .ok text) => { stdout := before ++ text }
    | (before, .error e) => { code := 1, stdout := before, stderr := e.text ++ "\n" }

end Rulebook.Command
