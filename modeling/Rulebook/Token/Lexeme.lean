import Rulebook.Token

/-!
# The pieces of a rule text

A rule text is cut into pieces from left to right: runs of blanks, comments, and the written forms
of tokens. `Piece.first?` says what the piece at the front is and how many characters it takes
beyond its first. Of the forms that could begin there the first in this order wins: blank, comment,
float, integer, string, word, operator, mark; within a form the piece is as long as it can be.
-/

namespace Rulebook

/-- What a piece of text is, before any literal is decoded. -/
inductive Piece where
  | blank
  | comment
  | float
  | integer
  | string
  | word
  | operator (o : Operator)
  | mark (m : Mark)
deriving DecidableEq, Repr

namespace Piece

/-! ## Characters -/

def isBlank (c : Char) : Bool := c = ' ' || c = '\t' || c = '\r' || c = '\n'

def isNewline (c : Char) : Bool := c = '\n' || c = '\r'

/-- What a word begins with, and what a number must not be followed by. -/
def isWordStart (c : Char) : Bool := c.isAlpha || c = '_'

def isWordChar (c : Char) : Bool := c.isAlphanum || c = '_'

/-- How many characters at the front satisfy `p`. -/
def run (p : Char → Bool) (cs : List Char) : Nat := (cs.takeWhile p).length

/-! ## Comments and strings -/

/-- The length through the first `*/`, where `n` characters were passed already. -/
def blockEnd? (n : Nat) : List Char → Option Nat
  | [] => none
  | '*' :: '/' :: _ => some (n + 2)
  | _ :: cs => blockEnd? (n + 1) cs

/-- The length of the comment that a slash and `cs` begin, beyond the slash. A line comment ends
before its newline. -/
def comment? : List Char → Option Nat
  | '/' :: cs => some (1 + run (fun c => !isNewline c) cs)
  | '*' :: cs => blockEnd? 1 cs
  | _ => none

/-- The length through the closing quote, where `n` characters were passed already. A backslash
takes any character with it; a newline must not stand alone. -/
def stringEnd? (n : Nat) : List Char → Option Nat
  | [] => none
  | '"' :: _ => some (n + 1)
  | '\\' :: [] => none
  | '\\' :: _ :: cs => stringEnd? (n + 2) cs
  | c :: cs => if isNewline c then none else stringEnd? (n + 1) cs

/-! ## Numbers -/

/-- The length of an exponent: its mark, an optional sign and digits. -/
def exponent? : List Char → Option Nat
  | e :: cs =>
    if e = 'e' ∨ e = 'E' then
      let sign := match cs with
        | '+' :: _ | '-' :: _ => 1
        | _ => 0
      let digits := run Char.isDigit (cs.drop sign)
      if digits = 0 then none else some (1 + sign + digits)
    else none
  | [] => none

/-- A number ends where no word begins. -/
def endsNumber : List Char → Bool
  | [] => true
  | c :: _ => !isWordStart c

/-- The length of what makes a number a float: a point and digits with an optional exponent, or an
exponent alone. -/
def fraction? : List Char → Option Nat
  | '.' :: cs =>
    let digits := run Char.isDigit cs
    if digits = 0 then none
    else some (1 + digits + ((exponent? (cs.drop digits)).getD 0))
  | cs => exponent? cs

/-- The number that a digit and `cs` begin. -/
def number? (cs : List Char) : Option (Piece × Nat) :=
  let digits := run Char.isDigit cs
  let rest := cs.drop digits
  match fraction? rest with
  | some n =>
    if endsNumber (rest.drop n) then some (.float, digits + n)
    else if endsNumber rest then some (.integer, digits)
    else none
  | none => if endsNumber rest then some (.integer, digits) else none

/-! ## Operators -/

/-- The operator that `c` and the next character make, and how many further characters it takes. -/
def operator? (c : Char) (next : Option Char) : Option (Operator × Nat) :=
  match c, next with
  | '&', some '&' => some (.and, 1)
  | '|', some '|' => some (.or, 1)
  | '=', some '=' => some (.equal, 1)
  | '!', some '=' => some (.notEqual, 1)
  | '>', some '=' => some (.greaterEqual, 1)
  | '<', some '=' => some (.lessEqual, 1)
  | '>', _ => some (.greater, 0)
  | '<', _ => some (.less, 0)
  | '+', _ => some (.plus, 0)
  | '-', _ => some (.minus, 0)
  | '*', _ => some (.star, 0)
  | '/', _ => some (.slash, 0)
  | '%', _ => some (.percent, 0)
  | '!', _ => some (.bang, 0)
  | '=', _ => some (.assign, 0)
  | _, _ => none

/-! ## The piece at the front -/

/-- What `c` and `cs` begin with when it is neither a blank nor a comment. -/
def token? (c : Char) (cs : List Char) : Option (Piece × Nat) :=
  if c.isDigit then number? cs
  else if c = '"' then (stringEnd? 0 cs).map fun n => (.string, n)
  else if isWordStart c then some (.word, run isWordChar cs)
  else
    match operator? c cs.head? with
    | some (o, n) => some (.operator o, n)
    | none => (Mark.ofChar? c).map fun m => (.mark m, 0)

/-- The kind of the piece that `c` and `cs` begin with, and its length beyond `c`. -/
def first? (c : Char) (cs : List Char) : Option (Piece × Nat) :=
  if isBlank c then some (.blank, run isBlank cs)
  else
    match (if c = '/' then comment? cs else none) with
    | some n => some (.comment, n)
    | none => token? c cs

end Piece

/-- A piece with its text and the position where it starts. -/
structure Lexeme where
  piece : Piece
  text : List Char
  start : Position

namespace Lexeme

def span (l : Lexeme) : Span := .ofPositions l.start (l.start.after l.text)

/-- Cuts the text `cs` at position `p` into lexemes, behind those already found, which are kept in
reverse. Stops where no piece begins, with the position and the text from there on. -/
def cutFrom (p : Position) (found : List Lexeme) :
    List Char → Except (Position × Char × List Char) (List Lexeme)
  | [] => .ok found.reverse
  | c :: cs =>
    match Piece.first? c cs with
    | some (piece, n) =>
      let text := c :: cs.take n
      cutFrom (p.after text) (⟨piece, text, p⟩ :: found) (cs.drop n)
    | none => .error (p, c, cs)
termination_by cs => cs.length
decreasing_by simp only [List.length_cons, List.length_drop]; omega

def cut (text : List Char) : Except (Position × Char × List Char) (List Lexeme) :=
  cutFrom {} [] text

end Lexeme

end Rulebook
