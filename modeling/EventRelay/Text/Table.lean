import EventRelay.Text.Columns
import EventRelay.Text.Split

/-!
# Tables

A table is drawn as a box with a line under its heading.  A column is as wide as its widest line; a
cell that holds line breaks takes several lines.  Cells are aligned to the left, with one space on
either side, and columns are one further space apart.
-/

namespace EventRelay.Text.Table

/-- The lines of a cell. -/
def cellLines (cell : String) : List String :=
  split '\n' cell

/-- The width of a cell: that of its widest line. -/
def cellWidth (cell : String) : Nat :=
  (cellLines cell).foldl (fun w line => max w (columns line)) 0

/-- The widths of the columns. -/
def widths (rows : List (List String)) : List Nat :=
  rows.foldl (fun ws row => (ws.zip row).map fun (w, cell) => max w (cellWidth cell))
    ((rows.headD []).map fun _ => 1)

/-- A text filled up with spaces to a width, and a space on either side. -/
def padTo (width : Nat) (line : String) : String :=
  " " ++ line.pushn ' ' (width - columns line) ++ " "

/-- One line across the table. -/
def acrossLine (ws : List Nat) (cells : List String) : String :=
  "│" ++ " ".intercalate ((ws.zip cells).map fun (w, cell) => padTo w cell) ++ "│"

/-- The lines of a row: as many as its tallest cell has. -/
def rowLines (ws : List Nat) (row : List String) : List String :=
  let height := row.foldl (fun h cell => max h (cellLines cell).length) 1
  (List.range height).map fun i => acrossLine ws (row.map fun cell => ((cellLines cell)[i]?).getD "")

/-- A rule between two corners, as wide as the rows. -/
def rule (ws : List Nat) (left : String) (middle : Char) (right : String) : String :=
  let inside := ws.foldl (fun total w => total + w + 2) 0 + (ws.length - 1)
  left ++ "".pushn middle inside ++ right

/-- Draws a table. -/
def render (heading : List String) (rows : List (List String)) : String :=
  let ws := widths (heading :: rows)
  "\n".intercalate ([rule ws "┌" '─' "┐"] ++ rowLines ws heading ++ [rule ws "╞" '═' "╡"] ++
    rows.flatMap (rowLines ws) ++ [rule ws "└" '─' "┘"])

end EventRelay.Text.Table
