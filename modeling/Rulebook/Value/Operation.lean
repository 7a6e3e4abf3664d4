import Rulebook.Expr
import Rulebook.Value

/-!
# Operators on values

Integer arithmetic is exact and fails when the result is out of range; a float among the operands
makes it float arithmetic, whose result must be finite. Numbers are compared across both kinds, text
by its code points, and anything may be compared with nil for equality.
-/

namespace Rulebook

/-- Why an operator has no result. -/
inductive OperatorFault where
  | notNumbers (op : ArithOp) (left right : String)
  | divisionByZero
  | moduloByZero
  | overflow (op : ArithOp) (left right : Int64)
  | notFinite (op : ArithOp) (left right : Float)
  | notWhole (left right : Value)
  | nilOrder (left right : String) (op : CompareOp)
  | unordered (left right : Float)
  | booleanOrder (op : CompareOp)
  | mismatch (left right : String) (op : CompareOp)
  | negationOverflow (n : Int64)
  | notNegatable (type : String)
  | notTruthValue (type : String)

namespace OperatorFault

def message : OperatorFault → String
  | notNumbers op l r =>
    "cannot apply " ++ op.name ++ " (" ++ op.symbol ++ ") to " ++ l ++ " and " ++ r
  | divisionByZero => "division by zero"
  | moduloByZero => "modulo by zero"
  | overflow op l r =>
    "integer overflow in " ++ op.name ++ ": " ++ toString l.toInt ++ " " ++ op.symbol ++ " "
      ++ toString r.toInt
  | notFinite op l r =>
    op.name ++ " produced a non-finite result: " ++ Number.floatText l ++ " " ++ op.symbol ++ " "
      ++ Number.floatText r
  | notWhole l r => "modulo requires whole-valued operands, found " ++ l.shown ++ " % " ++ r.shown
  | nilOrder l r op => "cannot order " ++ l ++ " and " ++ r ++ " with " ++ op.symbol
  | unordered l r => "cannot compare " ++ Number.floatText l ++ " and " ++ Number.floatText r
  | booleanOrder op => "cannot order booleans with " ++ op.symbol
  | mismatch l r op => "cannot compare " ++ l ++ " with " ++ r ++ " using " ++ op.symbol
  | negationOverflow n => "integer overflow negating " ++ toString n.toInt
  | notNegatable type => "cannot negate " ++ type
  | notTruthValue type => "'!' requires a boolean, found " ++ type

end OperatorFault

namespace Value

/-! ## Arithmetic -/

def inRange (op : ArithOp) (l r : Int64) (result : Int) : Except OperatorFault Value :=
  match Number.toInt64? result with
  | some n => .ok (int n)
  | none => .error (.overflow op l r)

/-- Division and remainder truncate toward zero. The least integer has no remainder by minus one,
as its quotient is out of range. -/
def intArith (op : ArithOp) (l r : Int64) : Except OperatorFault Value :=
  match op with
  | .add => inRange op l r (l.toInt + r.toInt)
  | .subtract => inRange op l r (l.toInt - r.toInt)
  | .multiply => inRange op l r (l.toInt * r.toInt)
  | .divide =>
    if r.toInt = 0 then .error .divisionByZero else inRange op l r (l.toInt.tdiv r.toInt)
  | .modulo =>
    if r.toInt = 0 then .error .moduloByZero
    else do
      let _ ← inRange op l r (l.toInt.tdiv r.toInt)
      inRange op l r (l.toInt.tmod r.toInt)

def finite (op : ArithOp) (l r result : Float) : Except OperatorFault Value :=
  if result.isFinite then .ok (float result) else .error (.notFinite op l r)

def isZero (x : Float) : Bool := Number.orderKey? x = some 0

def floatArith (op : ArithOp) (l r : Float) : Except OperatorFault Value :=
  match op with
  | .add => finite op l r (l + r)
  | .subtract => finite op l r (l - r)
  | .multiply => finite op l r (l * r)
  | .divide => if isZero r then .error .divisionByZero else finite op l r (l / r)
  | .modulo => .error (.notWhole (float l) (float r))

/-- `+` joins texts, and a text with anything. `%` needs whole numbers and gives an integer. -/
def arith (op : ArithOp) (l r : Value) : Except OperatorFault Value :=
  match op, l, r with
  | .add, text s, r => .ok (text (s ++ r.shown))
  | .add, l, text s => .ok (text (l.shown ++ s))
  | .modulo, l, r =>
    if l.isNumeric && r.isNumeric then
      match l.int?, r.int? with
      | some m, some n => intArith .modulo m n
      | _, _ => .error (.notWhole l r)
    else .error (.notNumbers .modulo l.typeName r.typeName)
  | op, int m, int n => intArith op m n
  | op, l, r =>
    match l.float?, r.float? with
    | some x, some y => floatArith op x y
    | _, _ => .error (.notNumbers op l.typeName r.typeName)

/-! ## Comparison -/

/-- Whether an operator accepts an order of its operands. -/
def accepts (op : CompareOp) (o : Ordering) : Bool :=
  match op with
  | .equal => o = .eq
  | .notEqual => o ≠ .eq
  | .greater => o = .gt
  | .less => o = .lt
  | .greaterEqual => o ≠ .lt
  | .lessEqual => o ≠ .gt

/-- The order of two values of which neither is nil. Truth values have one only for the sake of
equality. -/
def order (op : CompareOp) (l r : Value) : Except OperatorFault Ordering :=
  match l, r with
  | int m, int n => .ok (Ord.compare m.toInt n.toInt)
  | text s, text t => .ok (Ord.compare s t)
  | bool a, bool b => if op.isEquality then .ok (Ord.compare a b) else .error (.booleanOrder op)
  | l, r =>
    match l.float?, r.float? with
    | some x, some y =>
      match Number.compare? x y with
      | some o => .ok o
      | none => .error (.unordered x y)
    | _, _ => .error (.mismatch l.typeName r.typeName op)

/-- Nil equals itself only, and has no order. -/
def compareNil (op : CompareOp) (l r : Value) (equal : Bool) : Except OperatorFault Value :=
  match op with
  | .equal => .ok (bool equal)
  | .notEqual => .ok (bool !equal)
  | _ => .error (.nilOrder l.typeName r.typeName op)

def compare (op : CompareOp) (l r : Value) : Except OperatorFault Value :=
  match l, r with
  | nil, nil => compareNil op l r true
  | nil, _ | _, nil => compareNil op l r false
  | _, _ => (order op l r).map fun o => bool (accepts op o)

/-! ## Signs -/

def negate : Value → Except OperatorFault Value
  | int n =>
    match Number.toInt64? (-n.toInt) with
    | some m => .ok (int m)
    | none => .error (.negationOverflow n)
  | float x => .ok (float (-x))
  | other => .error (.notNegatable other.typeName)

def not : Value → Except OperatorFault Value
  | bool b => .ok (bool !b)
  | other => .error (.notTruthValue other.typeName)

def unary : UnaryOp → Value → Except OperatorFault Value
  | .negate => negate
  | .not => not

end Value

end Rulebook
