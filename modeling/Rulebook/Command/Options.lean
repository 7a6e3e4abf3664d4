import Rulebook.Engine

/-!
# The arguments of the command

A subcommand is followed by positional arguments and options in any order. Options have a long name
and may have a short one; the value of an option follows it, or is attached to it, behind an equals
sign if need be. Short options may be joined. After a lone double dash everything is positional. An
option may be given once, and a value that is not attached does not begin with a dash.
-/

namespace Rulebook.Command

structure FactArguments where
  arguments : List String := []
  file? : Option String := none

structure WorkspaceArguments where
  directory : String := "."
  maxDepth? : Option Nat := none

/-- What the command is asked to do. -/
inductive Request where
  | run (ruleSet : String) (facts : FactArguments) (workspace : WorkspaceArguments)
      (maxCycles : Nat) (raw : Bool)
  | matching (ruleSet : String) (facts : FactArguments) (workspace : WorkspaceArguments)
  | «show» (ruleSet : String) (workspace : WorkspaceArguments)
  | list (root : String)

/-- Arguments that are no request. -/
inductive Refusal where
  | help
  | version
  | invalid
deriving DecidableEq, Repr

namespace Options

/-- A number of 64 bits, with an optional plus sign. -/
def readNumber? (text : String) : Option Nat :=
  let digits := match text.toList with
    | '+' :: ds => ds
    | ds => ds
  let n := Number.digitsValue digits
  if digits.isEmpty || !digits.all Char.isDigit || 0x10000000000000000 ≤ n then none else some n

/-- What an option takes as its value. -/
inductive Takes where
  | nothing
  | path
  | number
deriving DecidableEq, Repr

/-- A path is not empty. -/
def Takes.accepts : Takes → String → Bool
  | .nothing, _ => true
  | .path, value => !value.isEmpty
  | .number, value => (readNumber? value).isSome

/-- The positional arguments that a subcommand takes. -/
inductive Places where
  | ruleSetAndFacts
  | ruleSet
  | root
deriving DecidableEq, Repr

/-- Whether `arg` may come after `taken` positional arguments. -/
def Places.accepts (taken : Nat) (arg : String) : Places → Bool
  | .ruleSetAndFacts => true
  | .ruleSet => taken = 0
  | .root => taken = 0 && !arg.isEmpty

/-- An option by its names. -/
structure Flag where
  long : String
  short? : Option Char := none
  takes : Takes

/-- What has been read: positional arguments, the last one first, and options with their values. -/
structure Parsed where
  positional : List String := []
  values : List (String × String) := []

abbrev Result := Except Refusal

/-- The value that an option was given. -/
def Parsed.value? (p : Parsed) (name : String) : Option String := p.values.lookup name

/-- An option may not be repeated. -/
def Parsed.set (p : Parsed) (o : Flag) (value : String) : Result Parsed :=
  if (p.value? o.long).isNone && o.takes.accepts value then
    .ok { p with values := (o.long, value) :: p.values }
  else .error .invalid

def Parsed.position (places : Places) (p : Parsed) (arg : String) : Result Parsed :=
  if places.accepts p.positional.length arg then .ok { p with positional := arg :: p.positional }
  else .error .invalid

/-- Whether an argument begins with a dash and is more than that. -/
def isOption (arg : String) : Bool := arg.startsWith "-" && arg ≠ "-"

/-- A long option without its dashes; gives the option if its value is still to come. -/
def long (options : List Flag) (p : Parsed) (text : String) :
    Result (Parsed × Option Flag) := do
  let cs := text.toList
  let name := String.ofList (cs.takeWhile (· ≠ '='))
  let value? := match cs.dropWhile (· ≠ '=') with
    | [] => none
    | _ :: v => some (String.ofList v)
  if name = "help" && value?.isNone then throw .help
  match options.find? fun o => o.long = name, value? with
  | none, _ => throw .invalid
  | some o, some v => if o.takes = .nothing then throw .invalid else return (← p.set o v, none)
  | some o, none => if o.takes = .nothing then return (← p.set o "", none) else return (p, some o)

/-- Joined short options without their dash. -/
def short (options : List Flag) (p : Parsed) : List Char → Result (Parsed × Option Flag)
  | [] => .ok (p, none)
  | c :: cs => do
    if c = 'h' then throw .help
    match options.find? fun o => o.short? = some c with
    | none => throw .invalid
    | some o =>
      if o.takes = .nothing then short options (← p.set o "") cs
      else
        match cs with
        | [] => return (p, some o)
        | '=' :: v => return (← p.set o (String.ofList v), none)
        | v => return (← p.set o (String.ofList v), none)

/-- Reads arguments on, where `waiting?` is an option whose value comes next. -/
def parseFrom (options : List Flag) (places : Places) (waiting? : Option Flag) (p : Parsed) :
    List String → Result Parsed
  | [] => if waiting?.isSome then .error .invalid else .ok p
  | arg :: rest => do
    match waiting? with
    | some o =>
      if isOption arg then throw .invalid
      else parseFrom options places none (← p.set o arg) rest
    | none =>
      if arg = "--" then rest.foldlM (Parsed.position places) p
      else if !isOption arg then parseFrom options places none (← p.position places arg) rest
      else
        let (p, waiting?) ←
          if arg.startsWith "--" then long options p (String.ofList (arg.toList.drop 2))
          else short options p (arg.toList.drop 1)
        parseFrom options places waiting? p rest

def parse (options : List Flag) (places : Places) (args : List String) : Result Parsed :=
  parseFrom options places none {} args

/-! ## The options of the subcommands -/

def workspaceOptions : List Flag :=
  [{ long := "dir", short? := some 'd', takes := .path }, { long := "max-depth", takes := .number }]

def factOptions : List Flag := [{ long := "facts", short? := some 'f', takes := .path }]

def runOptions : List Flag :=
  [{ long := "max-cycles", takes := .number },
    { long := "raw", short? := some 'r', takes := .nothing }]

def Parsed.number? (p : Parsed) (name : String) : Option Nat := (p.value? name).bind readNumber?

def workspace (p : Parsed) : WorkspaceArguments :=
  { directory := (p.value? "dir").getD ".", maxDepth? := p.number? "max-depth" }

/-- The rule set comes first, and the facts after it. -/
def ruleSetAndFacts (p : Parsed) : Result (String × FactArguments) :=
  match p.positional.reverse with
  | ruleSet :: arguments => .ok (ruleSet, { arguments, file? := p.value? "facts" })
  | [] => .error .invalid

end Options

open Options in
/-- The request of a subcommand with its arguments. -/
def Request.ofSubcommand (name : String) (args : List String) : Except Refusal Request := do
  match name with
  | "run" =>
    let p ← parse (workspaceOptions ++ factOptions ++ runOptions) .ruleSetAndFacts args
    let (ruleSet, facts) ← ruleSetAndFacts p
    let maxCycles := (p.number? "max-cycles").getD Engine.defaultMaxCycles
    return .run ruleSet facts (workspace p) maxCycles (p.value? "raw").isSome
  | "match" =>
    let p ← parse (workspaceOptions ++ factOptions) .ruleSetAndFacts args
    let (ruleSet, facts) ← ruleSetAndFacts p
    return .matching ruleSet facts (workspace p)
  | "show" =>
    let p ← parse workspaceOptions .ruleSet args
    match p.positional with
    | ruleSet :: _ => return .show ruleSet (workspace p)
    | [] => throw .invalid
  | "list" =>
    let p ← parse [] .root args
    return .list (p.positional.headD ".")
  | _ => throw .invalid

/-- Help may be asked for in general or for one subcommand. -/
def helpRequest : List String → Refusal
  | [] => .help
  | [name] => if name ∈ ["run", "match", "show", "list", "help"] then .help else .invalid
  | _ => .invalid

def Request.ofArguments : List String → Except Refusal Request
  | [] => .error .invalid
  | name :: args =>
    if name = "help" then .error (helpRequest args)
    else if name = "-h" || name = "--help" then .error .help
    else if name = "-V" || name = "--version" then .error .version
    else ofSubcommand name args

end Rulebook.Command
