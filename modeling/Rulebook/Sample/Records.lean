import Rulebook.Fact.Provided

/-!
# Sample records

Records to try rules on: goods with a price, an arithmetic exercise, an account that takes deposits,
and a probe with a field of every type and methods that succeed or fail in every way.
-/

namespace Rulebook.Sample

/-- An argument read as a type. -/
def argumentAs (t : HostType) (args : List Value) (i : Nat) : Except AccessError t.Carrier := do
  t.read (← argument args i)

/-- The failure of the given name, and a custom one for any other name. -/
def failure (kind : String) : AccessError :=
  match kind with
  | "UnknownMember" => .unknownMember "T" "m"
  | "UnknownMethod" => .unknownMethod "T" "f"
  | "NotIndexable" => .notIndexable "T"
  | "MissingKey" => .missingKey "k"
  | "IndexOutOfBounds" => .outOfBounds (-7) 3
  | "TypeMismatch" => .typeMismatch "a" "b"
  | "OutOfRange" => .outOfRange "300" "u8"
  | "Arity" => .arity "f" 2 1
  | "ReadOnly" => .readOnly "T" "m"
  | other => .custom other

/-- Fails as the first argument says. -/
def raise (args : List Value) : Except AccessError Value := do
  let kind : String ← argumentAs .text args 0
  throw (failure kind)

/-! ## Building records -/

/-- Fields that start with the default of their type. -/
def fields (types : List (String × HostType)) : Fields :=
  Entries.ofList (types.map fun f => (f.1, ⟨f.2, f.2.default⟩))

/-- A method that leaves the fields as they are. -/
def reading (result : Except AccessError Value) : Access Fields Value := fun fs => (result, fs)

/-- A method that computes new fields together with its result. -/
def updating (method : Fields → Except AccessError (Value × Fields)) : Access Fields Value :=
  fun fs =>
    match method fs with
    | .ok (v, fs) => (.ok v, fs)
    | .error e => (.error e, fs)

def floatField (fs : Fields) (name : String) : Float :=
  match Entries.get? fs name with
  | some ⟨.double, x⟩ => x
  | _ => 0

def intField (fs : Fields) (name : String) : Int :=
  match Entries.get? fs name with
  | some ⟨.int _, n⟩ => n
  | _ => 0

def textField (fs : Fields) (name : String) : String :=
  match Entries.get? fs name with
  | some ⟨.text, s⟩ => s
  | _ => ""

/-! ## The records -/

def item : Fact :=
  .record { name := "Item" }
    (fields [("Name", .text), ("Price", .int .i64), ("Discount", .int .i64)]) []

def exercise : Fact :=
  .record { name := "Arith" }
    (fields [("Operation", .text), ("OperandA", .single), ("OperandB", .single),
      ("Result", .single)]) []

/-- Adds an amount to the balance. -/
def deposit (args : List Value) (fs : Fields) : Except AccessError (Value × Fields) := do
  expectArity "Deposit" args 1
  let amount : Float ← argumentAs .double args 0
  let balance := floatField fs "Balance" + amount
  return (.float balance, Entries.insert fs "Balance" ⟨.double, balance⟩)

def accountCall (method : String) (args : List Value) : Access Fields Value :=
  match method with
  | "Deposit" => updating (deposit args)
  | other => reading (.error (.unknownMethod "Account" other))

def account : Fact :=
  .record { name := "Account", nested := ["Limits"], call := accountCall }
    (fields [("Owner", .text), ("Balance", .double), ("Limits", .map (.int .i64))]) []

def sum (args : List Value) : Except AccessError Value := do
  expectArity "Sum" args 2
  let a : Int ← argumentAs (.int .i64) args 0
  let b : Int ← argumentAs (.int .i64) args 1
  return .int (Int64.ofInt (a + b))

def small (args : List Value) : Except AccessError Value := do
  let n : Int ← argumentAs (.int .u8) args 0
  return .int (Int64.ofInt n)

/-- Counts up, starting again at the least integer after the greatest. -/
def touch (args : List Value) (fs : Fields) : Except AccessError (Value × Fields) := do
  expectArity "Touch" args 0
  let n := Int64.ofInt (intField fs "I64" + 1)
  return (.int n, Entries.insert fs "I64" ⟨.int .i64, n.toInt⟩)

def size (args : List Value) (fs : Fields) : Except AccessError (Value × Fields) := do
  expectArity "Size" args 0
  return (.int (Int64.ofNat (textField fs "Text").utf8ByteSize), fs)

def probeCall (method : String) (args : List Value) : Access Fields Value :=
  match method with
  | "Echo" => reading (.ok (.list args))
  | "First" => reading (argument args 0)
  | "Sum" => reading (sum args)
  | "Small" => reading (small args)
  | "Touch" => updating (touch args)
  | "Text" => reading (.ok (.text "from accessor"))
  | "Size" => updating (size args)
  | "AsMap" => reading (.ok (.map [("a", .int 1), ("list", .list [.text "x", .nil])]))
  | "Raise" => reading (raise args)
  | "Broken" => reading (.error (.custom "Custom failure"))
  | other => reading (.error (.unknownMethod "Probe" other))

/-- Its child can be navigated into but is no field. -/
def probe : Fact :=
  .record
    { name := "Probe", nested := ["Ints", "Map", "Tree", "Json"], call := probeCall }
    (fields
      [("I8", .int .i8), ("I16", .int .i16), ("I32", .int .i32), ("I64", .int .i64),
        ("U8", .int .u8), ("U16", .int .u16), ("U32", .int .u32), ("U64", .int .u64),
        ("F32", .single), ("F64", .double), ("Flag", .bool), ("Text", .text),
        ("OptInt", .option (.int .i64)), ("OptText", .option .text), ("Ints", .list (.int .i64)),
        ("Words", .list .text), ("Map", .map (.int .i64)), ("Tree", .map .double),
        ("Json", .json), ("Any", .value)])
    [("Child", item)]

end Rulebook.Sample
