/-
  Texts of a fixed length, and tables drawn with lines: a frame, columns as wide as their widest
  cell, and a line between rows.
-/
import SourceWeb.Text.Split
import SourceWeb.Text.Width

namespace SourceWeb

namespace Column

def left (size : Nat) (s : String) : String :=
  s ++ String.ofList (List.replicate (size - s.length) ' ')

end Column

open SourceWeb.Text

inductive Side
  | left
  | right
  deriving DecidableEq, Repr

/-- A table: the heads of its columns and the sides at which their cells stand, and the rows.  A
    cell may have several lines. -/
structure Table where
  heads : List String
  sides : List Side
  rows : List (List String)
  deriving DecidableEq, Repr

namespace Table

/-- The number of columns that a cell takes up: those of its widest line. -/
def cellWidth (cell : String) : Nat :=
  ((splitChar '\n' cell).map width).foldl max 0

def widths (t : Table) : List Nat :=
  t.rows.foldl (fun ws row => ws.zipWith max (row.map cellWidth)) (t.heads.map cellWidth)

/-- A horizontal line: its left end, what it is drawn with, its crossings and its right end. -/
def rule (widths : List Nat) (start dash cross stop : Char) : String :=
  let parts := widths.map fun w => String.ofList (List.replicate (w + 2) dash)
  start.toString ++ cross.toString.intercalate parts ++ stop.toString

def pad (side : Side) (size : Nat) (s : String) : String :=
  let gap := String.ofList (List.replicate (size - width s) ' ')
  match side with
  | .left => s ++ gap
  | .right => gap ++ s

/-- The lines of a row; cells with fewer lines than others end in empty ones. -/
def rowLines (widths : List Nat) (sides : List Side) (row : List String) : List String :=
  let cells := row.map (splitChar '\n')
  let height := (cells.map List.length).foldl max 0
  (List.range height).map fun i =>
    let parts := (cells.zip (sides.zip widths)).map fun (lines, side, size) =>
      " " ++ pad side size (lines.getD i "") ++ " "
    "│" ++ "┆".intercalate parts ++ "│"

def lines (t : Table) : List String :=
  let ws := t.widths
  let head := rowLines ws (t.heads.map fun _ => .left) t.heads
  let rows := t.rows.map (rowLines ws t.sides)
  let between := rule ws '├' '╌' '┼' '┤'
  [rule ws '┌' '─' '┬' '┐'] ++ head ++ [rule ws '╞' '═' '╪' '╡'] ++
    [between].intercalate rows ++ [rule ws '└' '─' '┴' '┘']

def render (t : Table) : String :=
  "\n".intercalate t.lines

end Table

end SourceWeb
