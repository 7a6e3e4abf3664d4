import Rulebook.Json

/-!
# Reading JSON

A text is one document with blanks around it. A fault names the place, by its line and the bytes
before it on that line, where reading could not go on. Containers nest at most 127 deep. Of repeated
keys the last one counts. A decimal is computed from at most 64 bits of its digits by one product or
quotient with a power of ten, so its last digit may be off.
-/

namespace Rulebook.Json

inductive Complaint where
  | endInList
  | endInObject
  | endInString
  | endInValue
  | colon
  | listEnd
  | objectEnd
  | ident
  | value
  | escape
  | number
  | numberRange
  | controlCharacter
  | textKey
  | loneSurrogate
  | trailingComma
  | trailingCharacters
  | endOfHexEscape
  | nesting
deriving DecidableEq, Repr

def Complaint.text : Complaint → String
  | endInList => "EOF while parsing a list"
  | endInObject => "EOF while parsing an object"
  | endInString => "EOF while parsing a string"
  | endInValue => "EOF while parsing a value"
  | colon => "expected `:`"
  | listEnd => "expected `,` or `]`"
  | objectEnd => "expected `,` or `\x7d`"
  | ident => "expected ident"
  | value => "expected value"
  | escape => "invalid escape"
  | number => "invalid number"
  | numberRange => "number out of range"
  | controlCharacter => "control character (\\u0000-\\u001F) found while parsing a string"
  | textKey => "key must be a string"
  | loneSurrogate => "lone leading surrogate in hex escape"
  | trailingComma => "trailing comma"
  | trailingCharacters => "trailing characters"
  | endOfHexEscape => "unexpected end of hex escape"
  | nesting => "recursion limit exceeded"

/-- A complaint and the number of bytes before its place. -/
structure Fault where
  complaint : Complaint
  offset : Nat
deriving DecidableEq, Repr

/-- The text that is left, and the number of bytes before it. -/
structure Cursor where
  offset : Nat
  rest : List Char

abbrev Reader := ExceptT Fault (StateM Cursor)

namespace Reader

variable {α : Type}

def peek : Reader (Option Char) := return (← get).rest.head?

def next : Reader (Option Char) := do
  let c ← get
  match c.rest with
  | [] => return none
  | ch :: rest =>
    set (Cursor.mk (c.offset + ch.utf8Size) rest)
    return some ch

/-- Complains about what has been read. -/
def complain (complaint : Complaint) : Reader α := do throw ⟨complaint, (← get).offset⟩

/-- Complains about the next byte, if there is one. -/
def complainNext (complaint : Complaint) : Reader α := do
  let c ← get
  throw ⟨complaint, if c.rest.isEmpty then c.offset else c.offset + 1⟩

def isBlank (c : Char) : Bool := c = ' ' || c = '\n' || c = '\t' || c = '\r'

/-- Drops what satisfies `p`, and gives it. -/
def takeWhile (p : Char → Bool) : Reader (List Char) := do
  let c ← get
  let taken := c.rest.takeWhile p
  set (Cursor.mk (taken.foldl (fun n ch => n + ch.utf8Size) c.offset) (c.rest.dropWhile p))
  return taken

/-- The next character that is no blank, without taking it. -/
def peekToken : Reader (Option Char) := do
  let _ ← takeWhile isBlank
  peek

/-! ## Words -/

def word (value : Json) : List Char → Reader Json
  | [] => return value
  | expected :: rest => do
    match ← peek with
    | none => complain .endInValue
    | some c =>
      if c = expected then
        let _ ← next
        word value rest
      else complainNext .ident

/-! ## Numbers -/

/-- Digits from the front of `digits`, as long as the value fits in 64 bits; with the value and the
digits that are left. -/
def fitting (value : Nat) : List Char → Nat × List Char
  | [] => (value, [])
  | c :: cs =>
    let next := 10 * value + (c.toNat - '0'.toNat)
    if next < 0x10000000000000000 then fitting next cs else (value, c :: cs)

def powerOfTen (n : Nat) : Float := Float.ofScientific 1 false n

/-- Scales by powers of ten that are doubles, the greatest of them `10 ^ 308`. -/
def scale (x : Float) (exponent : Int) : (steps : Nat) → Option Float
  | 0 => some x
  | steps + 1 =>
    if exponent.natAbs ≤ 308 then
      if 0 ≤ exponent then
        let y := x * powerOfTen exponent.natAbs
        if y.isFinite then some y else none
      else some (x / powerOfTen exponent.natAbs)
    else if (Number.orderKey? x = some 0 : Bool) then some x
    else if 0 ≤ exponent then none
    else scale (x / powerOfTen 308) (exponent + 308) steps

/-- The float with these digits, which reaches zero after a few steps if it is that small. -/
def decimal (negative : Bool) (digits : Nat) (exponent : Int) : Reader Json := do
  match scale (Float.ofNat digits) exponent 8 with
  | none => complain .numberRange
  | some x => return .ofFloat (if negative then -x else x)

/-- Exponents beyond 31 bits are not computed. -/
def exponentBound : Nat := 0x80000000

/-- What follows the mark of an exponent. -/
def exponent (negative : Bool) (digits : Nat) (before : Int) : Reader Json := do
  let _ ← next
  let down ← match ← peek with
    | some '+' =>
      let _ ← next
      pure false
    | some '-' =>
      let _ ← next
      pure true
    | _ => pure false
  match ← peek with
  | none => complain .endInValue
  | some c =>
    if !c.isDigit then complainNext .number
    else
      let start := (← get).offset
      let power ← takeWhile Char.isDigit
      match beyond 0 0 power with
      | some n =>
        if digits ≠ 0 && !down then throw ⟨.numberRange, start + n⟩
        else return .ofFloat (if negative then -0.0 else 0.0)
      | none =>
        let power := Number.digitsValue power
        decimal negative digits (if down then before - power else before + power)
where
  /-- How many digits it takes to go beyond the bound. -/
  beyond (count value : Nat) : List Char → Option Nat
    | [] => none
    | c :: cs =>
      let next := 10 * value + (c.toNat - '0'.toNat)
      if next < exponentBound then beyond (count + 1) next cs else some (count + 1)

/-- What follows the digits of a float: an exponent, or nothing. -/
def floatEnd (negative : Bool) (digits : Nat) (power : Int) : Reader Json := do
  match ← peek with
  | some 'e' | some 'E' => exponent negative digits power
  | _ => decimal negative digits power

/-- What follows the point. Digits beyond 64 bits are dropped. -/
def fraction (negative : Bool) (digits : Nat) (power : Int) : Reader Json := do
  let _ ← next
  let places ← takeWhile Char.isDigit
  if places.isEmpty then
    if (← peek).isSome then complainNext .number else complain .endInValue
  else
    let (digits, left) := fitting digits places
    floatEnd negative digits (power - ((places.length - left.length : Nat) : Int))

/-- An integer in range, or a float if it has no place among them; minus zero is a float. -/
def integer (negative : Bool) (digits : Nat) : Json :=
  let float := Json.ofFloat (if negative then -(Float.ofNat digits) else Float.ofNat digits)
  if negative && digits = 0 then float else (Json.ofInt? (Number.signed negative digits)).getD float

/-- A number after its sign. -/
def number (negative : Bool) : Reader Json := do
  match ← peek with
  | none => complain .endInValue
  | some c =>
    if !c.isDigit then complainNext .number
    else
      let digits ← if c = '0' then (·.toList) <$> next else takeWhile Char.isDigit
      if c = '0' && ((← peek).any Char.isDigit) then complainNext .number
      else
        let (value, left) := fitting 0 digits
        let follows ← peek
        if follows = some '.' then fraction negative value left.length
        else if follows = some 'e' || follows = some 'E' then exponent negative value left.length
        else if left.isEmpty then return integer negative value
        else decimal negative value left.length

/-! ## Text -/

def hexValue? (c : Char) : Option Nat :=
  if c.isDigit then some (c.toNat - '0'.toNat)
  else if 'a' ≤ c ∧ c ≤ 'f' then some (c.toNat - 'a'.toNat + 10)
  else if 'A' ≤ c ∧ c ≤ 'F' then some (c.toNat - 'A'.toNat + 10)
  else none

/-- Four hexadecimal digits. -/
def hexEscape : Reader Nat := do
  let c ← get
  let size := (c.rest.take 4).foldl (fun n ch => n + ch.utf8Size) 0
  if size < 4 then throw ⟨.endInString, c.offset + size⟩
  else
    match (c.rest.take 4).mapM hexValue? with
    | some digits =>
      set (Cursor.mk (c.offset + 4) (c.rest.drop 4))
      return digits.foldl (fun n d => 16 * n + d) 0
    | none => throw ⟨.escape, c.offset + 4⟩

/-- Takes a character that a surrogate pair needs. -/
def pairChar (expected : Char) : Reader Unit := do
  match ← peek with
  | none => complain .endInString
  | some c =>
    if c = expected then
      let _ ← next
    else complainNext .endOfHexEscape

/-- The character of a numeric escape, or of a surrogate pair of them. -/
def unicodeEscape : Reader Char := do
  let n ← hexEscape
  if 0xDC00 ≤ n && n ≤ 0xDFFF then complain .loneSurrogate
  else if n < 0xD800 || 0xDBFF < n then return Char.ofNat n
  else
    pairChar '\\'
    pairChar 'u'
    let m ← hexEscape
    if m < 0xDC00 || 0xDFFF < m then complain .loneSurrogate
    else return Char.ofNat ((n - 0xD800) * 0x400 + (m - 0xDC00) + 0x10000)

/-- The character that a backslash and what follows it stand for. -/
def escapeChar : Reader Char := do
  match ← peek with
  | none => complain .endInString
  | some 'u' =>
    let _ ← next
    unicodeEscape
  | some c =>
    match simple? c with
    | some d =>
      let _ ← next
      return d
    | none => complainNext .escape
where
  simple? (c : Char) : Option Char :=
    [('"', '"'), ('\\', '\\'), ('/', '/'), ('b', '\x08'), ('f', '\x0c'), ('n', '\n'), ('r', '\r'),
      ('t', '\t')].lookup c

/-- The text up to the closing quote, behind the characters already read, which are kept in reverse.
No more characters are read than `bound` is long. -/
def textFrom (found : List Char) : (bound : List Char) → Reader String
  | [] => complain .endInString
  | _ :: bound => do
    match ← peek with
    | none => complain .endInString
    | some '"' =>
      let _ ← next
      return String.ofList found.reverse
    | some '\\' =>
      let _ ← next
      let c ← escapeChar
      textFrom (c :: found) bound
    | some c =>
      if c.toNat < 0x20 then complainNext .controlCharacter
      else
        let _ ← next
        textFrom (c :: found) bound

/-- A text after its opening quote. -/
def text : Reader String := do textFrom [] (← get).rest

/-! ## Containers -/

/-- Takes the comma between two items, which another item must follow. -/
def comma (closing : Char) (missing : Complaint) : Reader Unit := do
  match ← peek with
  | some ',' =>
    let _ ← next
    match ← peekToken with
    | none => complain .endInValue
    | some c => if c = closing then complainNext .trailingComma else return
  | _ => complainNext missing

/-- The items up to the closing bracket, behind those already read, which are kept in reverse. No
more items are read than `bound` is long. -/
def items (item : Reader Json) (found : List Json) : (bound : List Char) → Reader (List Json)
  | [] => complain .endInList
  | _ :: bound => do
    match ← peekToken with
    | none => complain .endInList
    | some ']' =>
      let _ ← next
      return found.reverse
    | some _ =>
      if !found.isEmpty then comma ']' .listEnd
      let j ← item
      items item (j :: found) bound

/-- A key with its colon. -/
def key : Reader String := do
  match ← peek with
  | some '"' =>
    let _ ← next
    let k ← text
    match ← peekToken with
    | some ':' =>
      let _ ← next
      return k
    | some _ => complainNext .colon
    | none => complain .endInObject
  | _ => complainNext .textKey

/-- The entries up to the closing brace, behind those already read, if any. No more entries are read
than `bound` is long. -/
def entries (item : Reader Json) (first : Bool) (found : Entries Json) :
    (bound : List Char) → Reader (Entries Json)
  | [] => complain .endInObject
  | _ :: bound => do
    match ← peekToken with
    | none => complain .endInObject
    | some '}' =>
      let _ ← next
      return found
    | some _ =>
      if !first then comma '}' .objectEnd
      let k ← key
      let j ← item
      entries item false (Entries.insert found k j) bound

/-- A document with blanks before it, where `inner?` reads what its containers hold; without it there
may be no containers. -/
def documentOver (inner? : Option (Reader Json)) : Reader Json := do
  match ← peekToken with
  | none => complain .endInValue
  | some 'n' =>
    let _ ← next
    word .null ['u', 'l', 'l']
  | some 't' =>
    let _ ← next
    word (.bool true) ['r', 'u', 'e']
  | some 'f' =>
    let _ ← next
    word (.bool false) ['a', 'l', 's', 'e']
  | some '-' =>
    let _ ← next
    number true
  | some '"' =>
    let _ ← next
    return .string (← text)
  | some '[' =>
    match inner? with
    | none => complainNext .nesting
    | some inner =>
      let _ ← next
      return .array (← items inner [] (← get).rest)
  | some '{' =>
    match inner? with
    | none => complainNext .nesting
    | some inner =>
      let _ ← next
      return .object (← entries inner true [] (← get).rest)
  | some c => if c.isDigit then number false else complainNext .value

/-- A document whose containers nest at most `room` deep. -/
def document : (room : Nat) → Reader Json
  | 0 => documentOver none
  | room + 1 => documentOver (some (document room))

/-- One document, with blanks around it. -/
def whole : Reader Json := do
  let j ← document 127
  match ← peekToken with
  | none => return j
  | some _ => complainNext .trailingCharacters

end Reader

/-- Line, from 1, and bytes before an offset on that line. -/
def lineAndColumn (text : List Char) (offset : Nat) : Nat × Nat := go 1 0 0 text
where
  go (line start here : Nat) : List Char → Nat × Nat
    | [] => (line, offset - start)
    | c :: cs =>
      if offset ≤ here then (line, offset - start)
      else
        let after := here + c.utf8Size
        if c = '\n' then go (line + 1) after after cs else go line start after cs

/-- The document that a text is, or what is wrong with it. -/
def ofText (text : String) : Except String Json :=
  match (Reader.whole.run.run ⟨0, text.toList⟩).1 with
  | .ok j => .ok j
  | .error f =>
    let (line, column) := lineAndColumn text.toList f.offset
    .error (f.complaint.text ++ " at line " ++ toString line ++ " column " ++ toString column)

end Rulebook.Json
