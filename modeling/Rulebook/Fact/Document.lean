import Rulebook.Fact.Access
import Rulebook.Json

/-!
# JSON documents as facts

Every part of a document is a document and can be navigated into. The fields of an object are its
entries, and new ones may be added; an array keeps its length.
-/

namespace Rulebook.Json

def field? : Json → String → Option Json
  | object entries, name => Entries.get? entries name
  | _, _ => none

/-- Adds or replaces an entry of an object. -/
def setField (j : Json) (name : String) (item : Json) : Except AccessError Json :=
  match j with
  | object entries => .ok (object (Entries.insert entries name item))
  | other => .error (.unknownMember other.typeName name)

/-- The item that a position of an array is known to hold. -/
def item (items : List Json) (key : Value) : Except AccessError Json := do
  let i ← position key items.length
  return items[i]?.getD null

def index (j : Json) (key : Value) : Except AccessError Json :=
  match j with
  | object entries => do
    let k ← textKey key
    match Entries.get? entries k with
    | some item => return item
    | none => throw (missingKey k)
  | array items => item items key
  | other => .error (.notIndexable other.typeName)

def setIndex (j : Json) (key : Value) (new : Json) : Except AccessError Json :=
  match j with
  | object entries => do
    let k ← textKey key
    return object (Entries.insert entries k new)
  | array items => do
    let i ← position key items.length
    return array (items.set i new)
  | other => .error (.notIndexable other.typeName)

/-! ## Navigation -/

/-- The place of an element to navigate into: a key that is present, or a position, which may also
be a whole float. -/
inductive Place where
  | key (k : String)
  | position (i : Nat)

def place? (j : Json) (key : Value) : Option Place :=
  match j with
  | object entries => do
    let k ← key.text?
    if Entries.contains entries k then some (.key k) else none
  | array items => do
    let n ← key.int?
    if 0 ≤ n.toInt ∧ n.toInt < items.length then some (.position n.toInt.toNat) else none
  | _ => none

def element? (j : Json) (key : Value) : Option Json := do
  match j, ← j.place? key with
  | object entries, .key k => Entries.get? entries k
  | array items, .position i => items[i]?
  | _, _ => none

def putElement (j : Json) (key : Value) (new : Json) : Json :=
  match j, j.place? key with
  | object entries, some (.key k) => object (Entries.insert entries k new)
  | array items, some (.position i) => array (items.set i new)
  | _, _ => j

end Rulebook.Json
