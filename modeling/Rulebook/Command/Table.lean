import Rulebook.Text.Columns

/-!
# Tables with drawn borders

Every column is as wide as its widest line, with a blank on both sides. A cell may have several
lines; the others of its row are filled up with blanks.
-/

namespace Rulebook.Command

structure Cell where
  text : String
  alignRight : Bool := false

namespace Cell

def lines (c : Cell) : List String := (c.text.splitToList (· = '\n'))

def width (c : Cell) : Nat := (c.lines.map Text.columns).foldl max 0

end Cell

namespace Table

def fill (n : Nat) (c : Char) : String := String.ofList (List.replicate n c)

/-- A line of a cell, filled up to the width of its column. -/
def padded (width : Nat) (alignRight : Bool) (line : String) : String :=
  let blanks := fill (width - Text.columns line) ' '
  " " ++ (if alignRight then blanks ++ line else line ++ blanks) ++ " "

/-- One line of a row. -/
def rowLine (widths : List Nat) (cells : List Cell) (i : Nat) : String :=
  "│" ++ "┆".intercalate ((widths.zip cells).map fun (w, c) =>
    padded w c.alignRight (c.lines.getD i "")) ++ "│"

def rowLines (widths : List Nat) (cells : List Cell) : List String :=
  let height := (cells.map fun c => c.lines.length).foldl max 0
  (List.range height).map (rowLine widths cells)

/-- A border of the parts `left`, `middle` and `right`, with `line` between them. -/
def border (widths : List Nat) (left line middle right : Char) : String :=
  left.toString ++ middle.toString.intercalate (widths.map fun w => fill (w + 2) line)
    ++ right.toString

def separated (separator : String) : List (List String) → List String
  | [] => []
  | [row] => row
  | row :: rest => row ++ separator :: separated separator rest

/-- The lines of a table with at least one row below its headers. -/
def lines (headers : List String) (rows : List (List Cell)) : List String :=
  let head := headers.map fun h => { text := h : Cell }
  let widths := (head :: rows).foldl (fun ws row => (ws.zip row).map fun (w, c) => max w c.width)
    (headers.map fun _ => 0)
  border widths '┌' '─' '┬' '┐' :: rowLines widths head
    ++ border widths '╞' '═' '╪' '╡'
      :: separated (border widths '├' '╌' '┼' '┤') (rows.map (rowLines widths))
    ++ [border widths '└' '─' '┴' '┘']

def render (headers : List String) (rows : List (List Cell)) : String :=
  "\n".intercalate (lines headers rows)

end Table

end Rulebook.Command
