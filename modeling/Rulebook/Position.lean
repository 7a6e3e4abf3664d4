/-!
# Places in a text

A position counts the bytes before it and has a line and a column, both from 1. `Position.after`
carries a position over a piece of text, `Span.atOffset` scans a whole text for one offset, and a
`Tracker` answers many requests on one text by going on from the last one.
-/

namespace Rulebook

structure Position where
  offset : Nat := 0
  line : Nat := 1
  col : Nat := 1
deriving DecidableEq, Repr, Inhabited

namespace Position

/-- A newline starts the next line; every other character is one column. -/
def advance (p : Position) (c : Char) : Position :=
  if c = '\n' then ⟨p.offset + c.utf8Size, p.line + 1, 1⟩
  else ⟨p.offset + c.utf8Size, p.line, p.col + 1⟩

/-- The position after `text`, read from `p` on. -/
def after (p : Position) (text : List Char) : Position := text.foldl advance p

@[simp] theorem after_nil (p : Position) : p.after [] = p := rfl

@[simp] theorem after_cons (p : Position) (c : Char) (text : List Char) :
    p.after (c :: text) = (p.advance c).after text := rfl

theorem after_append (p : Position) (s t : List Char) : p.after (s ++ t) = (p.after s).after t :=
  List.foldl_append

/-- The first position at or beyond a byte offset, and the text from there on. -/
def seek (p : Position) (offset : Nat) : List Char → Position × List Char
  | [] => (p, [])
  | c :: cs => if offset ≤ p.offset then (p, c :: cs) else (p.advance c).seek offset cs

end Position

/-- A range of bytes with the line and column where it starts. -/
structure Span where
  start : Nat := 0
  stop : Nat := 0
  line : Nat := 0
  col : Nat := 0
deriving DecidableEq, Repr, Inhabited

namespace Span

/-- From the start of the first span to the end of the last. -/
def cover (s t : Span) : Span := { s with stop := max t.stop s.stop }

def ofPositions (start stop : Position) : Span := ⟨start.offset, stop.offset, start.line, start.col⟩

/-- The empty span at a position. -/
def point (p : Position) : Span := ofPositions p p

/-- The empty span at a byte offset, found by reading the text from its beginning. An offset inside
a character has the line and column that follow the character; one beyond the text stands for its
end. -/
def atOffset (text : List Char) (offset : Nat) : Span :=
  let offset := min offset (({} : Position).after text).offset
  let p := (({} : Position).seek offset text).1
  ⟨offset, offset, p.line, p.col⟩

/-- Line and column. -/
def text (s : Span) : String := toString s.line ++ ":" ++ toString s.col

end Span

/-! ## Many spans of one text -/

/-- Whether a byte offset lies between two characters, or at an end. -/
def isBoundary : List Char → Nat → Bool
  | _, 0 => true
  | [], _ + 1 => false
  | c :: cs, n + 1 => c.utf8Size ≤ n + 1 && isBoundary cs (n + 1 - c.utf8Size)

/-- The text, the position that was reached last, and the text from there on. -/
structure Tracker where
  text : List Char
  here : Position := {}
  rest : List Char := text

namespace Tracker

/-- The span of a range, and the tracker at its start. An earlier start begins again at the top. -/
def span (t : Tracker) (start stop : Nat) : Span × Tracker :=
  let (origin, rest) := if start < t.here.offset then (({} : Position), t.text) else (t.here, t.rest)
  let (p, rest) := origin.seek start rest
  (⟨start, stop, p.line, p.col⟩, { t with here := p, rest := rest })

/-- Refuses a range that is reversed or cuts a character. -/
def span? (t : Tracker) (start stop : Nat) : Option Span × Tracker :=
  if start ≤ stop && isBoundary t.text start && isBoundary t.text stop then
    let (s, t) := t.span start stop
    (some s, t)
  else (none, t)

end Tracker

end Rulebook
