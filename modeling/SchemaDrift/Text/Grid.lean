import SchemaDrift.Text.Pieces
import SchemaDrift.Text.Width

/-!
Tables of text in boxes: cells of one or more lines, columns as wide as their widest line.
-/

namespace SchemaDrift.Text.Grid

abbrev Cell := List String

def cell (s : String) : Cell := (pieces '\n' s.toList).map String.ofList

def cellWidth (c : Cell) : Nat := (c.map width).foldl max 0

/-- The wider of two columns, place by place. -/
def widest : List Nat → List Nat → List Nat
  | a :: as, b :: bs => max a b :: widest as bs
  | [], bs => bs
  | as, [] => as

def columnWidths (rows : List (List Cell)) : List Nat :=
  rows.foldl (fun ws r => widest ws (r.map cellWidth)) []

def repeated (n : Nat) (c : Char) : String := String.ofList (List.replicate n c)

/-- The characters of a line between rows: its ends, its filling and its crossings. -/
structure Rule where
  left : String
  fill : Char
  crossing : String
  right : String

def top : Rule := ⟨"╭", '─', "┬", "╮"⟩

def afterHeader : Rule := ⟨"╞", '═', "╪", "╡"⟩

def betweenRows : Rule := ⟨"├", '╌', "┼", "┤"⟩

def bottom : Rule := ⟨"╰", '─', "┴", "╯"⟩

def Rule.line (r : Rule) (widths : List Nat) : String :=
  r.left ++ String.intercalate r.crossing (widths.map (fun w => repeated (w + 2) r.fill)) ++ r.right

/-- A line of a cell, with a blank on each side and blanks up to the width of the column. -/
def padded (s : String) (w : Nat) : String := " " ++ s ++ repeated (w - width s) ' ' ++ " "

def rowLine (widths : List Nat) (line : List String) : String :=
  "│" ++ String.intercalate "┆" (List.zipWith padded line widths) ++ "│"

/-- The lines of a row. Its cells get as many lines as its longest cell has. -/
def rowLines (widths : List Nat) (row : List Cell) : List String :=
  let height := (row.map List.length).foldl max 0
  (List.range height).map (fun i => rowLine widths (row.map (fun c => c.getD i "")))

def lines (header : List String) (rows : List (List String)) : List String :=
  let header := header.map cell
  let rows := rows.map (·.map cell)
  let widths := columnWidths (header :: rows)
  let body := (rows.map (rowLines widths)).intersperse [betweenRows.line widths]
  [top.line widths] ++ rowLines widths header ++ [afterHeader.line widths] ++ body.flatten ++
    [bottom.line widths]

end SchemaDrift.Text.Grid
