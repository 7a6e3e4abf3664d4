import Rulebook.Eval.Session

/-!
# Calls by a bare name

Intrinsic functions come first, then those of the context. Every argument has been evaluated.
-/

namespace Rulebook.Eval

variable {φ ω : Type}

/-- Reports the arguments, with blanks between them. -/
def log (args : List Value) : Eval φ ω Unit := do
  let frame ← read
  modify (·.record (.logged (" ".intercalate (args.map Value.shown)) frame.rule))

def retract (target : Value) (span : Span) : Eval φ ω Unit := do
  let frame ← read
  match target with
  | .text name =>
    match frame.ruleSet.position? name with
    | some i => modify (·.retract i name)
    | none => fail (.unknownTarget name frame.ruleSet.name) span
  | other => fail (.targetNotText other.typeName) span

def callIntrinsic (i : Intrinsic) (args : List Value) (span : Span) : Eval φ ω Unit :=
  match i, args with
  | .log, args => log args
  | .retract, [target] => retract target span
  | .complete, [] => modify fun s => { s with complete := true }
  | i, args => fail (.argumentCount i.name (i.arity?.getD 0) args.length) span

/-- The call is reported before the function does anything. -/
def callHost (name : String) (args : List Value) (span : Span) : Eval φ ω Value := do
  match Entries.get? (← get).context.functions name with
  | none => fail (.unknownFunction name) span
  | some f =>
    modify (·.record (.called name args))
    let (result, world) := f args (← get).context.world
    modify (·.setWorld world)
    ofExcept (.functionFailed name) span result

def call (name : String) (args : List Value) (span : Span) : Eval φ ω Value :=
  match Intrinsic.ofName? name with
  | some i => do
    callIntrinsic i args span
    return .nil
  | none => callHost name args span

end Rulebook.Eval
