import Rulebook.Grammar.Parser
import Rulebook.Number.Integer

/-!
# The grammar of expressions

From the loosest to the tightest: `||`, `&&`, one comparison, `+` and `-`, `*` and `/` and `%`,
unary signs, and chains of links. The binary levels lean to the left, except that comparisons do not
chain.

Each parser is given the `room` that is left for nesting. An expression of its own takes one level
of it (for parentheses, keys and arguments), and so do a unary sign, every further operand of a
binary level until the level is finished, and every link of a chain until the chain is. Without room
for the next level the parser stops as too deep.
-/

namespace Rulebook.Grammar

open Rulebook.Grammar.Parser

/-- The tree of two operands, with the span that covers both. -/
abbrev Build := Expr → Expr → Expr

def covering (node : Expr → Expr → Span → Expr) : Build :=
  fun l r => node l r (l.span.cover r.span)

def orOp? (t : Token) : Option Build :=
  if t.isOperator .or then some (covering (Expr.logic .or)) else none

def andOp? (t : Token) : Option Build :=
  if t.isOperator .and then some (covering (Expr.logic .and)) else none

def addOp? (t : Token) : Option Build :=
  match t.kind with
  | .operator .plus => some (covering (Expr.arith .add))
  | .operator .minus => some (covering (Expr.arith .subtract))
  | _ => none

def multiplyOp? (t : Token) : Option Build :=
  match t.kind with
  | .operator .star => some (covering (Expr.arith .multiply))
  | .operator .slash => some (covering (Expr.arith .divide))
  | .operator .percent => some (covering (Expr.arith .modulo))
  | _ => none

def compareOp? (t : Token) : Option CompareOp :=
  match t.kind with
  | .operator .equal => some .equal
  | .operator .notEqual => some .notEqual
  | .operator .greater => some .greater
  | .operator .less => some .less
  | .operator .greaterEqual => some .greaterEqual
  | .operator .lessEqual => some .lessEqual
  | _ => none

def unaryOp? (t : Token) : Option UnaryOp :=
  match t.kind with
  | .operator .minus => some .negate
  | .operator .bang => some .not
  | _ => none

/-- Reads on behind a first operand, as long as an operator of the level follows. -/
def foldLeft (op? : Token → Option Build) :
    (room : Nat) → ((r : Nat) → r ≤ room → Parser Expr) → Expr → Parser Expr
  | room, operand, left => do
    match op? (← peek) with
    | none => return left
    | some build =>
      let _ ← next
      match room, operand with
      | 0, _ => throw .tooDeep
      | room + 1, operand =>
        let right ← operand room (Nat.le_succ _)
        foldLeft op? room (fun r h => operand r (Nat.le_succ_of_le h)) (build left right)

/-- Reads items up to the closing parenthesis, at least one, behind those already read, which are
kept in reverse. No more items are read than the list of tokens `bound` is long. -/
def separated (item : Parser Expr) : List Token → List Expr → Parser (List Expr × Span)
  | [], _ => expected .argumentEnd
  | _ :: bound, found => do
    let e ← item
    if (← nextIf (·.isMark .comma)).isSome then separated item bound (e :: found)
    else
      match ← nextIf (·.isMark .closeParen) with
      | some close => return ((e :: found).reverse, close.span)
      | none => expected .argumentEnd

/-- A sign before a numeric literal becomes part of it, unless the result is out of range. -/
def signed (op : UnaryOp) (operand : Expr) (span : Span) : Expr :=
  match op, operand with
  | .negate, .literal (.int n) _ =>
    match Number.toInt64? (-n.toInt) with
    | some m => .literal (.int m) span
    | none => .unary op operand span
  | .negate, .literal (.float x) _ => .literal (.float (-x)) span
  | _, _ => .unary op operand span

mutual

def expression (room : Nat) : Parser Expr :=
  match room with
  | 0 => throw .tooDeep
  | r + 1 => disjunction r
termination_by 10 * room

def disjunction (room : Nat) : Parser Expr := do
  foldLeft orOp? room (fun r _ => conjunction r) (← conjunction room)
termination_by 10 * room + 9

def conjunction (room : Nat) : Parser Expr := do
  foldLeft andOp? room (fun r _ => comparison r) (← comparison room)
termination_by 10 * room + 8

def comparison (room : Nat) : Parser Expr := do
  let left ← sum room
  match compareOp? (← peek) with
  | none => return left
  | some op =>
    let _ ← next
    let right ← sum room
    let t ← peek
    if (compareOp? t).isSome then refuse (.chainedComparison t.text op) t.span
    else return .compare op left right (left.span.cover right.span)
termination_by 10 * room + 7

def sum (room : Nat) : Parser Expr := do
  foldLeft addOp? room (fun r _ => product r) (← product room)
termination_by 10 * room + 6

def product (room : Nat) : Parser Expr := do
  foldLeft multiplyOp? room (fun r _ => unary r) (← unary room)
termination_by 10 * room + 5

def unary (room : Nat) : Parser Expr := do
  match unaryOp? (← peek) with
  | none => primary room
  | some op =>
    let sign ← next
    match room with
    | 0 => throw .tooDeep
    | r + 1 =>
      let operand ← unary r
      return signed op operand (sign.span.cover operand.span)
termination_by 10 * room + 4

def primary (room : Nat) : Parser Expr := do
  let t ← peek
  match t.kind with
  | .literal value =>
    let _ ← next
    return .literal value t.span
  | .identifier => chain room
  | .mark .openParen =>
    let _ ← next
    let inner ← expression room
    let close ← mark .closeParen
    return inner.withSpan (t.span.cover close.span)
  | _ => expected .expression
termination_by 10 * room + 3

/-- A name, with arguments if it is a call, and the links that follow it. -/
def chain (room : Nat) : Parser Expr := do
  let head ← next
  if (← peek).isMark .openParen then
    let (args, close) ← arguments room
    links room (.call head.text args (head.span.cover close))
  else links room (.ident head.text head.span)
termination_by 10 * room + 2

/-- The links of a chain behind `object`. Only a name may be called, so a link that ends in a key
is never followed by arguments. -/
def links (room : Nat) (object : Expr) : Parser Expr := do
  if (← nextIf (·.isMark .dot)).isSome then
    match room with
    | 0 => throw .tooDeep
    | r + 1 =>
      let t ← peek
      match t.name? with
      | none => expected .memberName
      | some name =>
        let _ ← next
        if (← peek).isMark .openParen then
          let (args, close) ← arguments r
          links r (.method object name args (object.span.cover close))
        else links r (.member object name (object.span.cover t.span))
  else if (← nextIf (·.isMark .openBracket)).isSome then
    match room with
    | 0 => throw .tooDeep
    | r + 1 =>
      let key ← expression r
      let close ← mark .closeBracket
      links r (.index object key (object.span.cover close.span))
  else return object
termination_by 10 * room + 1

/-- Arguments in parentheses, with the span of the closing one. -/
def arguments (room : Nat) : Parser (List Expr × Span) := do
  let _ ← mark .openParen
  match ← nextIf (·.isMark .closeParen) with
  | some close => return ([], close.span)
  | none => separated (expression room) (← get) []
termination_by 10 * room + 1

end

end Rulebook.Grammar
