import Rulebook.Text.Printable

/-!
# Quoted text

`shown` is how a text is displayed between quotes: quote, backslash, newline, carriage return, tab
and NUL have two-character escapes, and a character that leaves no mark of its own is written by its
code point. `decode` reads the body of a string literal, which knows only the first five escapes and
takes every other character as it stands; `encode` writes a body that `decode` reads back.
-/

namespace Rulebook.Text.Quoted

/-! ## Display -/

/-- The lower-case hexadecimal digits of a number. -/
def hex (n : Nat) : String := String.ofList (Nat.toDigits 16 n)

/-- One character of a displayed text. -/
def shownChar (c : Char) : String :=
  if c = '"' then "\\\""
  else if c = '\\' then "\\\\"
  else if c = '\n' then "\\n"
  else if c = '\r' then "\\r"
  else if c = '\t' then "\\t"
  else if c.toNat = 0 then "\\0"
  else if extendsGrapheme c || !isPrintable c then "\\u\x7b" ++ hex c.toNat ++ "\x7d"
  else c.toString

def shown (s : String) : String :=
  s.toList.foldl (fun out c => out ++ shownChar c) "\"" ++ "\""

/-! ## The body of a literal -/

/-- The character that a backslash and `c` stand for. -/
def escaped? (c : Char) : Option Char :=
  if c = '"' then some '"'
  else if c = '\\' then some '\\'
  else if c = 'n' then some '\n'
  else if c = 't' then some '\t'
  else if c = 'r' then some '\r'
  else none

/-- A backslash that starts no escape: the characters before it, and the one after it if any. -/
structure BadEscape where
  before : Nat
  next : Option Char
deriving DecidableEq, Repr

/-- Reads on after `taken` characters, whose reversed meaning is `done`. -/
def decodeFrom (taken : Nat) (done : List Char) : List Char → Except BadEscape (List Char)
  | [] => .ok done.reverse
  | '\\' :: [] => .error ⟨taken, none⟩
  | '\\' :: c :: cs =>
    match escaped? c with
    | some d => decodeFrom (taken + 2) (d :: done) cs
    | none => .error ⟨taken, some c⟩
  | c :: cs => decodeFrom (taken + 1) (c :: done) cs

def decode (body : List Char) : Except BadEscape (List Char) := decodeFrom 0 [] body

/-- One character as it is written in a body. -/
def encodeChar (c : Char) : List Char :=
  if c = '"' then ['\\', '"']
  else if c = '\\' then ['\\', '\\']
  else if c = '\n' then ['\\', 'n']
  else if c = '\t' then ['\\', 't']
  else if c = '\r' then ['\\', 'r']
  else [c]

def encode (text : List Char) : List Char := text.flatMap encodeChar

theorem decodeFrom_encodeChar (c : Char) (rest done : List Char) (taken : Nat) :
    decodeFrom taken done (encodeChar c ++ rest) =
      decodeFrom (taken + (encodeChar c).length) (c :: done) rest := by
  unfold encodeChar
  split
  · subst c; simp [decodeFrom, escaped?]
  split
  · subst c; simp [decodeFrom, escaped?]
  split
  · subst c; simp [decodeFrom, escaped?]
  split
  · subst c; simp [decodeFrom, escaped?]
  split
  · subst c; simp [decodeFrom, escaped?]
  · next h _ _ _ => simp [decodeFrom, h]

theorem decodeFrom_encode (text rest done : List Char) (taken : Nat) :
    decodeFrom taken done (encode text ++ rest) =
      decodeFrom (taken + (encode text).length) (text.reverse ++ done) rest := by
  induction text generalizing taken done with
  | nil => simp [encode]
  | cons c cs ih =>
    have step : encode (c :: cs) = encodeChar c ++ encode cs := by simp [encode]
    rw [step, List.append_assoc, decodeFrom_encodeChar, ih, List.length_append]
    simp [Nat.add_assoc]

/-- Every text can be written as a body. -/
theorem decode_encode (text : List Char) : decode (encode text) = .ok text := by
  have := decodeFrom_encode text [] [] 0
  simpa [decode, decodeFrom] using this

end Rulebook.Text.Quoted
