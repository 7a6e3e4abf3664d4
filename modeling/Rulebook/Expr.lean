import Rulebook.Literal
import Rulebook.Position

/-!
# Expressions

Every expression carries the span of its source text. Parentheses leave no node of their own. A
member, index or method link reaches into what stands before it; a call has a bare name.
-/

namespace Rulebook

inductive UnaryOp where
  | negate
  | not
deriving DecidableEq, Repr

def UnaryOp.symbol : UnaryOp → String
  | .negate => "-"
  | .not => "!"

inductive ArithOp where
  | add
  | subtract
  | multiply
  | divide
  | modulo
deriving DecidableEq, Repr

def ArithOp.name : ArithOp → String
  | .add => "addition"
  | .subtract => "subtraction"
  | .multiply => "multiplication"
  | .divide => "division"
  | .modulo => "modulo"

def ArithOp.symbol : ArithOp → String
  | .add => "+"
  | .subtract => "-"
  | .multiply => "*"
  | .divide => "/"
  | .modulo => "%"

inductive CompareOp where
  | equal
  | notEqual
  | greater
  | less
  | greaterEqual
  | lessEqual
deriving DecidableEq, Repr

def CompareOp.symbol : CompareOp → String
  | .equal => "=="
  | .notEqual => "!="
  | .greater => ">"
  | .less => "<"
  | .greaterEqual => ">="
  | .lessEqual => "<="

def CompareOp.isEquality : CompareOp → Bool
  | .equal | .notEqual => true
  | _ => false

/-- Both need truth values, and neither looks at its right side when the left one decides. -/
inductive LogicOp where
  | and
  | or
deriving DecidableEq, Repr

def LogicOp.symbol : LogicOp → String
  | .and => "&&"
  | .or => "||"

inductive Expr where
  | literal (value : Literal) (span : Span)
  | ident (name : String) (span : Span)
  | unary (op : UnaryOp) (operand : Expr) (span : Span)
  | arith (op : ArithOp) (left right : Expr) (span : Span)
  | compare (op : CompareOp) (left right : Expr) (span : Span)
  | logic (op : LogicOp) (left right : Expr) (span : Span)
  | member (object : Expr) (name : String) (span : Span)
  | index (object key : Expr) (span : Span)
  | call (name : String) (args : List Expr) (span : Span)
  | method (receiver : Expr) (name : String) (args : List Expr) (span : Span)
deriving Inhabited

namespace Expr

def span : Expr → Span
  | literal _ s | ident _ s | unary _ _ s | arith _ _ _ s | compare _ _ _ s | logic _ _ _ s
  | member _ _ s | index _ _ s | call _ _ s | method _ _ _ s => s

/-- The same expression with another span, as when it stands in parentheses. -/
def withSpan (s : Span) : Expr → Expr
  | literal v _ => literal v s
  | ident n _ => ident n s
  | unary op e _ => unary op e s
  | arith op l r _ => arith op l r s
  | compare op l r _ => compare op l r s
  | logic op l r _ => logic op l r s
  | member o n _ => member o n s
  | index o k _ => index o k s
  | call n args _ => call n args s
  | method o n args _ => method o n args s

/-- The name that a chain of links starts with, if it starts with one. -/
def root? : Expr → Option String
  | ident name _ => some name
  | member object _ _ | index object _ _ => object.root?
  | method receiver _ _ _ => receiver.root?
  | _ => none

mutual

/-- An expression and all expressions in it, each before its parts. -/
def nodes : Expr → List Expr
  | e@(literal ..) | e@(ident ..) => [e]
  | e@(unary _ operand _) => e :: operand.nodes
  | e@(arith _ l r _) | e@(compare _ l r _) | e@(logic _ l r _) => e :: (l.nodes ++ r.nodes)
  | e@(member object _ _) => e :: object.nodes
  | e@(index object key _) => e :: (object.nodes ++ key.nodes)
  | e@(call _ args _) => e :: nodesOfAll args
  | e@(method receiver _ args _) => e :: (receiver.nodes ++ nodesOfAll args)

def nodesOfAll : List Expr → List Expr
  | [] => []
  | e :: es => e.nodes ++ nodesOfAll es

end

mutual

/-- Every binary operation stands in parentheses. -/
def shown : Expr → String
  | literal v _ => v.shown
  | ident name _ => name
  | unary op operand _ => op.symbol ++ operand.shown
  | arith op l r _ => "(" ++ l.shown ++ " " ++ op.symbol ++ " " ++ r.shown ++ ")"
  | compare op l r _ => "(" ++ l.shown ++ " " ++ op.symbol ++ " " ++ r.shown ++ ")"
  | logic op l r _ => "(" ++ l.shown ++ " " ++ op.symbol ++ " " ++ r.shown ++ ")"
  | member object name _ => object.shown ++ "." ++ name
  | index object key _ => object.shown ++ "[" ++ key.shown ++ "]"
  | call name args _ => name ++ "(" ++ ", ".intercalate (shownAll args) ++ ")"
  | method receiver name args _ =>
    receiver.shown ++ "." ++ name ++ "(" ++ ", ".intercalate (shownAll args) ++ ")"

def shownAll : List Expr → List String
  | [] => []
  | e :: es => e.shown :: shownAll es

end

end Expr

end Rulebook
