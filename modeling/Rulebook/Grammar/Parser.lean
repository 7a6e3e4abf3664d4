import Rulebook.Grammar.Fault

/-!
# Reading from a token list

A parser takes tokens from the front of a list and either gives a result or stops; in both cases
the tokens that it did not take are left. The `eof` token is never taken.
-/

namespace Rulebook.Grammar

/-- Why a parser gave no result: the nesting is too deep, or a token is not what the grammar
allows. -/
inductive Stop where
  | tooDeep
  | refused (fault : Fault) (span : Span) (rule : Option String)

abbrev Parser := ExceptT Stop (StateM (List Token))

namespace Parser

variable {α : Type}

def first : List Token → Token
  | [] => .eof {}
  | t :: _ => t

def rest : List Token → List Token
  | [] => []
  | t :: ts => if t.isEof then t :: ts else ts

/-- The next token, without taking it. -/
def peek : Parser Token := return first (← get)

/-- Takes the next token. -/
def next : Parser Token := do
  let t ← peek
  modify rest
  return t

def refuse (fault : Fault) (span : Span) : Parser α := throw (.refused fault span none)

/-- Stops at the next token. -/
def expected (what : Expected) : Parser α := do
  let t ← peek
  refuse (.expected what t) t.span

/-- Takes the next token if it passes a test. -/
def nextIf (p : Token → Bool) : Parser (Option Token) := do
  if p (← peek) then some <$> next else return none

def keyword (k : Keyword) : Parser Token := do
  match ← nextIf (·.isKeyword k) with
  | some t => return t
  | none => expected (.keyword k)

def mark (m : Mark) : Parser Token := do
  match ← nextIf (·.isMark m) with
  | some t => return t
  | none => expected (.mark m)

/-- Says of which rule the failures of a parser are. -/
def inRule (name : String) (p : Parser α) : Parser α :=
  tryCatch p fun
    | .refused fault span _ => throw (.refused fault span (some name))
    | .tooDeep => throw .tooDeep

end Parser

end Rulebook.Grammar
