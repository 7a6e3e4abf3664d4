import Rulebook.Value

/-!
# What rules may do with a fact

A fact has fields, may be indexed by keys or positions, and may have methods. Fields and elements
may themselves be facts that can be navigated into; `FactOps` hands such a part out and takes its
next state back. Every operation that may change a fact gives its next state, also when it fails.
-/

namespace Rulebook

/-- Why a fact refuses an access. -/
inductive AccessError where
  | unknownMember (type member : String)
  | unknownMethod (type method : String)
  | notIndexable (type : String)
  | missingKey (key : String)
  | outOfBounds (index : Int) (length : Nat)
  | typeMismatch (expected found : String)
  | outOfRange (value target : String)
  | arity (method : String) (expected found : Nat)
  | readOnly (type member : String)
  | custom (text : String)
deriving DecidableEq, Repr

/-- A missing key is written out as it stands. -/
def AccessError.message : AccessError → String
  | .unknownMember type member => "no field or accessor '" ++ member ++ "' on " ++ type
  | .unknownMethod type method => "no method '" ++ method ++ "' on " ++ type
  | .notIndexable type => type ++ " does not support indexing"
  | .missingKey key => "key " ++ key ++ " not found"
  | .outOfBounds index length =>
    "index " ++ toString index ++ " out of bounds for length " ++ toString length
  | .typeMismatch expected found => "type mismatch: expected " ++ expected ++ ", found " ++ found
  | .outOfRange value target => "value " ++ value ++ " is out of range for " ++ target
  | .arity method expected found =>
    "'" ++ method ++ "' expects " ++ toString expected ++ " argument(s), found " ++ toString found
  | .readOnly type member => "field '" ++ member ++ "' of " ++ type ++ " cannot be assigned"
  | .custom text => text

/-- A result together with the next state of a fact. -/
abbrev Access (φ α : Type) := φ → Except AccessError α × φ

/-- Changes a fact only if that succeeds. -/
def Access.ofUpdate {φ : Type} (update : φ → Except AccessError φ) : Access φ Unit := fun f =>
  match update f with
  | .ok f' => (.ok (), f')
  | .error e => (.error e, f)

/-- The operations on facts of type `φ`. A part that `member?` or `element?` hands out is put back
under the same name or key. -/
class FactOps (φ : Type) where
  typeName : φ → String
  get? : φ → String → Option Value
  set : String → Value → Access φ Unit
  index : φ → Value → Except AccessError Value
  setIndex : Value → Value → Access φ Unit
  call : String → List Value → Access φ Value
  member? : φ → String → Option φ
  putMember : φ → String → φ → φ
  element? : φ → Value → Option φ
  putElement : φ → Value → φ → φ
  /-- A snapshot of the whole fact. -/
  toValue : φ → Value

/-! ## Keys and positions -/

def missingKey (key : String) : AccessError := .missingKey (Text.Quoted.shown key)

def textKey (key : Value) : Except AccessError String :=
  match key with
  | .text s => .ok s
  | other => .error (.typeMismatch "string key" other.typeName)

/-- A position in a list of some length. -/
def position (key : Value) (length : Nat) : Except AccessError Nat :=
  match key with
  | .int n =>
    if 0 ≤ n.toInt ∧ n.toInt < length then .ok n.toInt.toNat
    else .error (.outOfBounds n.toInt length)
  | other => .error (.typeMismatch "integer index" other.typeName)

/-! ## Arguments -/

/-- A method takes an exact number of arguments. -/
def expectArity (method : String) (args : List Value) (expected : Nat) : Except AccessError Unit :=
  if args.length = expected then .ok () else .error (.arity method expected args.length)

/-- The argument at a position. -/
def argument (args : List Value) (i : Nat) : Except AccessError Value :=
  match args[i]? with
  | some v => .ok v
  | none => .error (.custom ("missing argument at position " ++ toString i))

end Rulebook
