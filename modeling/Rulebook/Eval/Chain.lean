import Rulebook.Fact.Access
import Rulebook.Position

/-!
# Reading and writing through a chain of links

A chain leads from a fact or a value over members, elements and method calls. It navigates into the
parts of a fact as far as they can be navigated into, and goes on in a snapshot from there.
-/

namespace Rulebook

/-- A link whose key or arguments have been evaluated. -/
inductive Link where
  | member (name : String)
  | index (key : Value)
  | call (name : String) (args : List Value)

structure Step where
  link : Link
  span : Span

/-- A refused access, and the link that it was at. -/
structure StepFault where
  error : AccessError
  span : Span

namespace Chain

/-! ## Reading -/

/-- Follows one link from a plain value. -/
def follow (v : Value) (link : Link) : Except AccessError Value :=
  match link, v with
  | .member name, .map entries =>
    match Entries.get? entries name with
    | some v => .ok v
    | none => .error (.unknownMember "map" name)
  | .member name, v => .error (.unknownMember v.typeName name)
  | .index key, .map entries => do
    let k ← textKey key
    match Entries.get? entries k with
    | some v => return v
    | none => throw (missingKey k)
  | .index key, .list items => do
    let i ← position key items.length
    return items[i]?.getD .nil
  | .index _, v => .error (.notIndexable v.typeName)
  | .call name _, v => .error (.unknownMethod v.typeName name)

def readValue : List Step → Value → Except StepFault Value
  | [], v => .ok v
  | step :: rest, v =>
    match follow v step.link with
    | .ok v => readValue rest v
    | .error e => .error ⟨e, step.span⟩

variable {φ : Type} [FactOps φ]

/-- A member that is no field may be an accessor, a method without arguments. -/
def accessor (name : String) : Access φ Value := fun f =>
  match FactOps.call name [] f with
  | (.error (.unknownMethod ..), f) => (.error (.unknownMember (FactOps.typeName f) name), f)
  | other => other

/-- Follows one link from a fact to a value. -/
def leave (link : Link) : Access φ Value := fun f =>
  match link with
  | .member name =>
    match FactOps.get? f name with
    | some v => (.ok v, f)
    | none => accessor name f
  | .index key => (FactOps.index f key, f)
  | .call name args => FactOps.call name args f

/-- The part of a fact that a link leads to, if it can be navigated into, and how to put it back. -/
def part? (f : φ) (link : Link) : Option (φ × (φ → φ)) :=
  match link with
  | .member name => (FactOps.member? f name).map fun p => (p, FactOps.putMember f name)
  | .index key => (FactOps.element? f key).map fun p => (p, FactOps.putElement f key)
  | .call .. => none

/-- Reads through a fact. The last link is never navigated into. -/
def readFact : List Step → φ → Except StepFault Value × φ
  | [], f => (.ok (FactOps.toValue f), f)
  | step :: rest, f =>
    match (if rest.isEmpty then none else part? f step.link) with
    | some (part, put) =>
      let (result, part) := readFact rest part
      (result, put part)
    | none =>
      match leave step.link f with
      | (.ok v, f) => (readValue rest v, f)
      | (.error e, f) => (.error ⟨e, step.span⟩, f)

/-! ## Writing -/

/-- Why a link cannot be navigated into. -/
def blocked (f : φ) (link : Link) : AccessError :=
  match link with
  | .member name =>
    if (FactOps.get? f name).isSome then
      .custom ("field '" ++ name ++ "' of " ++ FactOps.typeName f
        ++ " cannot be navigated for assignment")
    else .unknownMember (FactOps.typeName f) name
  | .index key =>
    match FactOps.index f key with
    | .error e => e
    | .ok _ => .custom ("element " ++ key.shown ++ " of " ++ FactOps.typeName f
        ++ " cannot be navigated for assignment")
  | .call name _ => .custom ("cannot assign through method call '" ++ name ++ "'")

/-- Assigns to the place that the last link names. -/
def store (link : Link) (v : Value) : Access φ Unit :=
  match link with
  | .member name => FactOps.set name v
  | .index key => FactOps.setIndex key v
  | .call name _ => fun f =>
    (.error (.custom ("cannot assign to the result of '" ++ name ++ "'")), f)

/-- Navigates to the owner of the last link and assigns there. -/
def writeFact (v : Value) : List Step → φ → Except StepFault Unit × φ
  | [], f => (.error ⟨.custom "nothing to assign", {}⟩, f)
  | [step], f =>
    match store step.link v f with
    | (.ok (), f) => (.ok (), f)
    | (.error e, f) => (.error ⟨e, step.span⟩, f)
  | step :: rest, f =>
    match part? f step.link with
    | some (part, put) =>
      let (result, part) := writeFact v rest part
      (result, put part)
    | none => (.error ⟨blocked f step.link, step.span⟩, f)

end Chain

end Rulebook
