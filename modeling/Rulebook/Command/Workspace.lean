import Rulebook.Command.Files
import Rulebook.Command.Options
import Rulebook.Json.Reader
import Rulebook.Library
import Rulebook.Text.Trim

/-!
# Rule sets and facts of a command

Every file below a directory whose name ends in `.grl` is compiled as the rule set of its name, which
may have a version behind an at sign. Facts are the entries of a JSON file and arguments `NAME=JSON`,
the later of two with one name counting.
-/

namespace Rulebook.Command

/-- Why a command fails. -/
inductive Failure where
  | engine (e : Error)
  | noDirectory (path : String) (e : FileError)
  | ruleFile (path : String) (e : FileError)
  | factFile (path : String) (e : FileError)
  | badJson (path message : String)
  | noObject (path : String)
  | badFact (argument : String)
  | noFactName (argument : String)
  | noRuleSet (name : String)
  | severalVersions (name : String) (versions : List String)

/-- The version of rule files without one. -/
def defaultVersion : String := "0.0.1"

/-- A name and the version behind its first at sign. -/
def splitVersion (text : String) : String × Option String :=
  match Text.splitAt? '@' text with
  | some (name, version) => (name, some version)
  | none => (text, none)

/-- The name and version that a rule file has by its path, if it is one. -/
def ruleFile? (path : String) : Option (String × String) := do
  let (stem, extension) := Path.splitExtension (← Path.fileName? path)
  if extension = some "grl" then
    let (name, version?) := splitVersion stem
    return (name, version?.getD defaultVersion)
  else none

/-- A library together with the number of files it was compiled from. -/
structure Workspace where
  library : Library
  fileCount : Nat := 0

namespace Workspace

/-- Compiles one file, if it is a rule file. -/
def addFile (w : Workspace) (path : String) (t : Tree) : Except Failure Workspace :=
  match ruleFile? path, t with
  | none, _ => .ok w
  | some _, .directory _ => .error (.ruleFile path .isDirectory)
  | some (name, version), .file bytes =>
    match w.library.compile name version bytes with
    | .ok (_, library) => .ok ⟨library, w.fileCount + 1⟩
    | .error e => .error (.engine e)

/-- Compiles files in order, up to the first that fails. -/
def addFiles (w : Workspace) : List (String × Tree) → Except Failure Workspace
  | [] => .ok w
  | (path, t) :: rest => do
    let w ← w.addFile path t
    addFiles w rest

def load (files : Tree) (args : WorkspaceArguments) : Except Failure Workspace := do
  let default : Limits := {}
  let limits : Limits := { default with depth := args.maxDepth?.getD default.depth }
  match files.find args.directory with
  | .error e => throw (.noDirectory args.directory e)
  | .ok t => addFiles ⟨{ limits }, 0⟩ (t.walk args.directory)

end Workspace

/-- A knowledge base over the rule set of a name, which needs a version only if there are several. -/
def knowledgeBase (l : Library) (ruleSet : String) : Except Failure KnowledgeBase :=
  let (name, version?) := splitVersion ruleSet
  let opened (version : String) : Except Failure KnowledgeBase :=
    match l.knowledgeBase name version with
    | .ok kb => .ok kb
    | .error e => .error (.engine e)
  match version?, (l.keys.filter fun k => k.1 = name).map Prod.snd with
  | some version, _ => opened version
  | none, [] => .error (.noRuleSet name)
  | none, [version] => opened version
  | none, versions => .error (.severalVersions name versions)

/-! ## Facts -/

/-- A fact from an argument. What is no JSON is taken as text. -/
def factArgument (argument : String) : Except Failure (String × Json) :=
  match Text.splitAt? '=' argument with
  | none => .error (.badFact argument)
  | some (name, raw) =>
    let name := Text.trim name
    if name.isEmpty then .error (.noFactName argument)
    else
      match Json.ofText raw with
      | .ok j => .ok (name, j)
      | .error _ => .ok (name, .string raw)

/-- The entries of the JSON object in a file. -/
def factFile (files : Tree) (path : String) : Except Failure (Entries Json) :=
  match files.readText path with
  | .error e => .error (.factFile path e)
  | .ok text =>
    match Json.ofText text with
    | .error message => .error (.badJson path message)
    | .ok (.object entries) => .ok entries
    | .ok _ => .error (.noObject path)

def addArguments (facts : Entries Json) : List String → Except Failure (Entries Json)
  | [] => .ok facts
  | argument :: rest => do
    let (name, j) ← factArgument argument
    addArguments (Entries.insert facts name j) rest

def loadFacts (files : Tree) (args : FactArguments) : Except Failure (Entries Json) := do
  let facts ← match args.file? with
    | some path => factFile files path
    | none => pure []
  addArguments facts args.arguments

end Rulebook.Command
