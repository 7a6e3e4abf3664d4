import Rulebook.Number.Integer
import Rulebook.Token.Lexeme

/-!
# Reading tokens

`Token.scan` cuts a text into lexemes, drops blanks and comments and decodes the rest. A text that
cannot be cut is refused before any literal is decoded; of the literals the first bad one counts.
-/

namespace Rulebook.Token

/-- Why a text has no tokens. -/
inductive Fault where
  | unterminatedString
  | malformedNumber (text : String)
  | unrecognized (c : Char)
  | integerRange (text : String)
  | floatRange (text : String)
  | unknownEscape (c : Char)
  | unfinishedEscape
  | invalidUtf8 (offset : Nat)
deriving DecidableEq, Repr

def Fault.message : Fault → String
  | .unterminatedString => "unterminated string literal"
  | .malformedNumber text => "malformed numeric literal '" ++ text ++ "'"
  | .unrecognized c => "unrecognized character '" ++ c.toString ++ "'"
  | .integerRange text => "integer literal '" ++ text ++ "' is out of range"
  | .floatRange text => "float literal '" ++ text ++ "' is out of range"
  | .unknownEscape c => "unknown escape sequence '\\" ++ c.toString ++ "'"
  | .unfinishedEscape => "unterminated escape sequence"
  | .invalidUtf8 offset => "invalid UTF-8 at byte " ++ toString offset

/-- Why no piece begins with `c` and `cs`. -/
def badInput (c : Char) (cs : List Char) : Fault :=
  if c = '"' then .unterminatedString
  else if c.isDigit then
    .malformedNumber (String.ofList ((c :: cs).takeWhile fun c => Piece.isWordChar c || c = '.'))
  else .unrecognized c

/-- The kind of a word. The names of truth values and of nil are spelled exactly, keywords in any
case. -/
def wordKind (word : String) : Kind :=
  if word = "true" then .literal (.bool true)
  else if word = "false" then .literal (.bool false)
  else if word = "nil" then .literal .nil
  else
    match Keyword.ofText? (String.ofList (word.toList.map Char.toLower)) with
    | some k => .keyword k
    | none => .identifier

/-- The value of a string literal, its quotes included. -/
def stringValue (l : Lexeme) : Except (Fault × Span) String :=
  match Text.Quoted.decode (l.text.drop 1).dropLast with
  | .ok s => .ok (String.ofList s)
  | .error e =>
    let fault := match e.next with
      | some c => .unknownEscape c
      | none => .unfinishedEscape
    .error (fault, .point (l.start.after (l.text.take (1 + e.before))))

/-- The kind of token that a lexeme is; blanks and comments are none. -/
def kindOf? (l : Lexeme) : Except (Fault × Span) (Option Kind) :=
  let text := String.ofList l.text
  match l.piece with
  | .blank | .comment => .ok none
  | .integer =>
    match Number.readInt? l.text with
    | some n => .ok (some (.literal (.int n)))
    | none => .error (.integerRange text, l.span)
  | .float =>
    match Number.readDecimal? l.text with
    | some x => if x.isFinite then .ok (some (.literal (.float x)))
      else .error (.floatRange text, l.span)
    | none => .error (.malformedNumber text, l.span)
  | .string => (stringValue l).map fun s => some (.literal (.text s))
  | .word => .ok (some (wordKind text))
  | .operator o => .ok (some (.operator o))
  | .mark m => .ok (some (.mark m))

/-- The tokens of the lexemes, in order. -/
def ofLexemes (found : List Token) : List Lexeme → Except (Fault × Span) (List Token)
  | [] => .ok found.reverse
  | l :: ls => do
    match ← kindOf? l with
    | some kind => ofLexemes (⟨kind, String.ofList l.text, l.span⟩ :: found) ls
    | none => ofLexemes found ls

/-- The tokens of a text, ended by one `eof` token. -/
def scan (text : List Char) : Except (Fault × Span) (List Token) := do
  match Lexeme.cut text with
  | .error (p, c, cs) => throw (badInput c cs, .point p)
  | .ok lexemes =>
    let tokens ← ofLexemes [] lexemes
    return tokens ++ [eof (.point (({} : Position).after text))]

end Rulebook.Token
