/-
# Tables

A table is shown as lines of text: the titles of the columns, a rule of hyphens, and
a line for every row. A column is as wide as its widest cell, counted in code points,
and two spaces stand between columns. No line but the rule keeps white space at its
end.
-/

import AgentKit.Text.Blank

namespace AgentKit

/-- A table. Every row has a cell for every title. -/
structure Table where
  titles : List String
  rows : List (List String)
  deriving DecidableEq, Repr

namespace Table

/-- Widen columns so that the cells of a row fit. -/
def widen : List Nat → List String → List Nat
  | [], _ => []
  | widths, [] => widths
  | width :: widths, cell :: cells => max width cell.length :: widen widths cells

/-- The widths of the columns. -/
def widths (table : Table) : List Nat :=
  table.rows.foldl widen (table.titles.map String.length)

/-- A cell with spaces up to the width of its column. -/
def pad (cell : String) (width : Nat) : String :=
  String.ofList (cell.toList ++ List.replicate (width - cell.length) ' ')

/-- The line of a row. -/
def line (widths : List Nat) (cells : List String) : String :=
  Text.trimmedEnd ("  ".intercalate (List.zipWith pad cells widths))

/-- The rule below the titles. -/
def rule (widths : List Nat) : String :=
  "  ".intercalate (widths.map fun width => String.ofList (List.replicate width '-'))

/-- The lines of a table. -/
def lines (table : Table) : List String :=
  line table.widths table.titles :: rule table.widths :: table.rows.map (line table.widths)

end Table

end AgentKit
