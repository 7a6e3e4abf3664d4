import Rulebook.Context
import Rulebook.Sample.Records

/-!
# Sample host functions

Their common state is the number of calls of `Count`.
-/

namespace Rulebook.Sample

abbrev Calls := Nat

def double (args : List Value) : Except AccessError Value := do
  expectArity "Double" args 1
  let n : Int ← argumentAs (.int .i64) args 0
  return .int (Int64.ofInt (2 * n))

def length (args : List Value) : Except AccessError Value := do
  expectArity "Len" args 1
  let s : String ← argumentAs .text args 0
  return .int (Int64.ofNat s.utf8ByteSize)

/-- Keys and values by turns, where the arguments from position `i` on are still to be read. -/
def entries (i : Nat) (found : Entries Value) :
    List Value → Except AccessError (Entries Value)
  | [] => .ok found
  | [key] => do
    let _ ← HostType.text.read key
    argument [] (i + 1) |>.map fun _ => found
  | key :: v :: rest => do
    let k : String ← HostType.text.read key
    entries (i + 2) (Entries.insert found k v) rest

/-- The function of a name; a name without a function of its own gives nil. -/
def function (name : String) : HostFunction Calls :=
  match name with
  | "Double" => fun args n => (double args, n)
  | "Len" => fun args n => (length args, n)
  | "Id" => fun args n => (argument args 0, n)
  | "List" => fun args n => (.ok (.list args), n)
  | "Map" => fun args n => ((entries 0 [] args).map .map, n)
  | "Count" => fun _ n => (.ok (.int (Int64.ofNat (n + 1))), n + 1)
  | "Nan" => fun _ n => (.ok (.float Number.nan), n)
  | "Inf" => fun _ n => (.ok (.float Number.infinity), n)
  | "Raise" => fun args n => (raise args, n)
  | _ => fun _ n => (.ok .nil, n)

end Rulebook.Sample
