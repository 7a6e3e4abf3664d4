import Rulebook.Literal
import Rulebook.Position

/-!
# Tokens

A token is a word, literal, operator or punctuation mark with its text and span; one `eof` token
stands at the end of every token list. Keywords are written in any case and may serve as member
names, so a token keeps its own spelling.
-/

namespace Rulebook

inductive Keyword where
  | rule
  | when
  | «then»
  | salience
deriving DecidableEq, Repr

def Keyword.text : Keyword → String
  | .rule => "rule"
  | .when => "when"
  | .«then» => "then"
  | .salience => "salience"

/-- The keyword that a word spells in lower case. -/
def Keyword.ofText? (word : String) : Option Keyword :=
  [Keyword.rule, .when, .«then», .salience].find? fun k => k.text = word

inductive Operator where
  | and
  | or
  | equal
  | notEqual
  | greaterEqual
  | lessEqual
  | greater
  | less
  | plus
  | minus
  | star
  | slash
  | percent
  | bang
  | assign
deriving DecidableEq, Repr

def Operator.text : Operator → String
  | .and => "&&"
  | .or => "||"
  | .equal => "=="
  | .notEqual => "!="
  | .greaterEqual => ">="
  | .lessEqual => "<="
  | .greater => ">"
  | .less => "<"
  | .plus => "+"
  | .minus => "-"
  | .star => "*"
  | .slash => "/"
  | .percent => "%"
  | .bang => "!"
  | .assign => "="

inductive Mark where
  | openBrace
  | closeBrace
  | openParen
  | closeParen
  | openBracket
  | closeBracket
  | semicolon
  | comma
  | dot
deriving DecidableEq, Repr

def Mark.char : Mark → Char
  | .openBrace => '{'
  | .closeBrace => '}'
  | .openParen => '('
  | .closeParen => ')'
  | .openBracket => '['
  | .closeBracket => ']'
  | .semicolon => ';'
  | .comma => ','
  | .dot => '.'

def Mark.all : List Mark :=
  [.openBrace, .closeBrace, .openParen, .closeParen, .openBracket, .closeBracket, .semicolon,
    .comma, .dot]

def Mark.ofChar? (c : Char) : Option Mark := all.find? fun m => m.char = c

def Mark.text (m : Mark) : String := m.char.toString

inductive Token.Kind where
  | identifier
  | keyword (k : Keyword)
  | literal (value : Literal)
  | operator (o : Operator)
  | mark (m : Mark)
  | eof

structure Token where
  kind : Token.Kind
  text : String
  span : Span

namespace Token

def eof (span : Span) : Token := ⟨.eof, "", span⟩

def isEof (t : Token) : Bool := t.kind matches .eof

def isKeyword (t : Token) (k : Keyword) : Bool :=
  match t.kind with
  | .keyword k' => k' = k
  | _ => false

def isMark (t : Token) (m : Mark) : Bool :=
  match t.kind with
  | .mark m' => m' = m
  | _ => false

def isOperator (t : Token) (o : Operator) : Bool :=
  match t.kind with
  | .operator o' => o' = o
  | _ => false

/-- The text of a token that may follow a dot. -/
def name? (t : Token) : Option String :=
  match t.kind with
  | .identifier | .keyword _ => some t.text
  | _ => none

/-- How a token is called in a message. -/
def shown (t : Token) : String :=
  match t.kind with
  | .eof => "end of input"
  | .identifier => "identifier `" ++ t.text ++ "`"
  | .keyword _ => "keyword `" ++ t.text ++ "`"
  | .literal _ => "literal `" ++ t.text ++ "`"
  | .operator _ | .mark _ => "`" ++ t.text ++ "`"

end Token

end Rulebook
