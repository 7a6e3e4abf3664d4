import Rulebook.Fact.Document
import Rulebook.Fact.HostType

/-!
# The facts that the library provides

A fact is a JSON document, a typed list or map, a record with typed fields, or a view of fixed
fields that cannot be assigned.
-/

namespace Rulebook

/-- A type together with an element of it. -/
abbrev Cell := (t : HostType) × t.Carrier

namespace Cell

def value (c : Cell) : Value := c.1.write c.2

/-- An element of the same type, read from a value. -/
def update (c : Cell) (v : Value) : Except AccessError Cell := (c.1.read v).map fun x => ⟨c.1, x⟩

end Cell

/-- The fields of a record, by name. -/
abbrev Fields := Entries Cell

/-- What the records of one kind have in common: their type's name, the fields that may be navigated
into, and their methods. -/
structure RecordType where
  name : String
  nested : List String := []
  call : String → List Value → Access Fields Value := fun method _ fields =>
    (.error (.unknownMethod name method), fields)

/-- The `parts` of a record can be navigated into but are no fields. -/
inductive Fact where
  | document (json : Json)
  | list (item : HostType) (items : List item.Carrier)
  | map (item : HostType) (entries : List (String × item.Carrier))
  | record (type : RecordType) (fields : List (String × Cell)) (parts : List (String × Fact))
  | view (type : String) (fields : List (String × Value))

namespace Fact

def typeName : Fact → String
  | document j => j.typeName
  | list .. => "list"
  | map .. => "map"
  | record type .. => type.name
  | view type _ => type

def get? : Fact → String → Option Value
  | document j, name => (j.field? name).map Json.toValue
  | record _ fields _, name => (Entries.get? fields name).map Cell.value
  | view _ fields, name => Entries.get? fields name
  | _, _ => none

def set (name : String) (v : Value) : Fact → Except AccessError Fact
  | document j => (j.setField name v.toJson).map document
  | record type fields parts =>
    match Entries.get? fields name with
    | some cell => do
      let cell ← cell.update v
      return record type (Entries.insert fields name cell) parts
    | none => .error (.unknownMember type.name name)
  | f =>
    if (f.get? name).isSome then .error (.readOnly f.typeName name)
    else .error (.unknownMember f.typeName name)

def index (f : Fact) (key : Value) : Except AccessError Value :=
  match f with
  | document j => (j.index key).map Json.toValue
  | list item items => do
    let i ← position key items.length
    return (items[i]?.map item.write).getD .nil
  | map item entries => do
    let k ← textKey key
    match Entries.get? entries k with
    | some x => return item.write x
    | none => throw (missingKey k)
  | other => .error (.notIndexable other.typeName)

def setIndex (key : Value) (v : Value) : Fact → Except AccessError Fact
  | document j => (j.setIndex key v.toJson).map document
  | list item items => do
    let i ← position key items.length
    let x ← item.read v
    return list item (items.set i x)
  | map item entries => do
    let k ← textKey key
    let x ← item.read v
    return map item (Entries.insert entries k x)
  | other => .error (.notIndexable other.typeName)

def call (method : String) (args : List Value) : Access Fact Value
  | record type fields parts =>
    let (result, fields) := type.call method args fields
    (result, record type fields parts)
  | other => (.error (.unknownMethod other.typeName method), other)

/-! ## Navigation -/

/-- Documents and containers can be navigated into where a field holds them. -/
def ofCell? : Cell → Option Fact
  | ⟨.json, j⟩ => some (document j)
  | ⟨.list item, items⟩ => some (list item items)
  | ⟨.map item, entries⟩ => some (map item entries)
  | _ => none

def toCell? : Fact → Option Cell
  | document j => some ⟨.json, j⟩
  | list item items => some ⟨.list item, items⟩
  | map item entries => some ⟨.map item, entries⟩
  | _ => none

def member? : Fact → String → Option Fact
  | document j, name => (j.field? name).map document
  | record type fields parts, name =>
    if name ∈ type.nested then (Entries.get? fields name).bind ofCell?
    else Entries.get? parts name
  | _, _ => none

def putMember (f : Fact) (name : String) (part : Fact) : Fact :=
  match f, part with
  | document (.object entries), document j => document (.object (Entries.insert entries name j))
  | record type fields parts, part =>
    if name ∈ type.nested then
      match part.toCell? with
      | some cell => record type (Entries.insert fields name cell) parts
      | none => f
    else record type fields (Entries.insert parts name part)
  | _, _ => f

def element? : Fact → Value → Option Fact
  | document j, key => (j.element? key).map document
  | _, _ => none

def putElement (f : Fact) (key : Value) (part : Fact) : Fact :=
  match f, part with
  | document j, document new => document (j.putElement key new)
  | _, _ => f

def toValue : Fact → Value
  | document j => j.toValue
  | list item items => (HostType.list item).write items
  | map item entries => (HostType.map item).write entries
  | record _ fields _ => .map (fields.map fun e => (e.1, e.2.value))
  | view .. => .nil

instance : FactOps Fact where
  typeName := typeName
  get? := get?
  set name v := .ofUpdate (set name v)
  index := index
  setIndex key v := .ofUpdate (setIndex key v)
  call := call
  member? := member?
  putMember := putMember
  element? := element?
  putElement := putElement
  toValue := toValue

end Fact

end Rulebook
