import Abacus.Calendar
import Abacus.History.Retention
import Abacus.Text.Basic
import Abacus.Text.Width

/-!
# Table — the history set out in columns

A column is as wide as its widest line.  A cell may have several lines, and then so has its row.
A blank stands on both sides of a cell, and the last column is not filled up.
-/

namespace Abacus.History

/-- The lines of a cell. -/
abbrev Cell := List (List Char)

/-- The cell that holds a text. -/
def Cell.ofText (text : String) : Cell :=
  Text.lines text.toList

/-- The width of the widest line. -/
def Cell.width (cell : Cell) : Nat :=
  (cell.map Text.width).foldl max 0

/-- How many lines a row takes, at least one. -/
def rowHeight (row : List Cell) : Nat :=
  (row.map List.length).foldl max 1

/-- A line, filled up to a width. -/
def filled (width : Nat) (line : List Char) : List Char :=
  line ++ List.replicate (width - Text.width line) ' '

/-- One line through all cells of a row. -/
def rowLine (index : Nat) : List (Cell × Nat) → List Char
  | [] => ['\n']
  | (cell, width) :: rest =>
      let line := cell[index]?.getD []
      let shown := if rest.isEmpty then line else filled width line
      ' ' :: shown ++ ' ' :: rowLine index rest

/-- All lines of a row, for columns of the given widths. -/
def rowText (widths : List Nat) (row : List Cell) : List Char :=
  (List.range (rowHeight row)).flatMap fun index => rowLine index (row.zip widths)

/-- The widths of the columns of some rows. -/
def columnWidths (rows : List (List Cell)) : List Nat :=
  rows.foldr (fun row widths => row.zipWith (fun cell width => max cell.width width) widths)
    [0, 0, 0, 0, 0]

/-- The titles of the columns. -/
def titles : List String :=
  ["ID", "Expression", "Result", "Mode", "Created"]

/-- The cells of a record. -/
def Record.cells (record : Record) : List String :=
  [String.ofList (Decimal.signedNumeral record.id), record.expression, record.result,
    record.mode.name, Calendar.timestamp record.createdAt]

/-- The records as a table under its titles. -/
def table (records : List Record) : String :=
  let rows := (titles :: records.map Record.cells).map fun row => row.map Cell.ofText
  let widths := columnWidths rows
  String.ofList (rows.flatMap (rowText widths))

end Abacus.History
