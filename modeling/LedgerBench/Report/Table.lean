import LedgerBench.Report.Basic
import LedgerBench.Text.Columns
import LedgerBench.Text.Lines

/-!
# Reports as tables

A table has one row for each metric under a row of titles. Cells are aligned to the left and filled
up to the widest cell of their column; a cell may have several lines. A report with a line that has
no width has no table.
-/

namespace LedgerBench.Report

/-- A line of a cell. -/
structure Line where
  /-- Its text. -/
  text : String
  /-- The columns that it takes. -/
  columns : Nat
deriving Repr, DecidableEq

namespace Line

/-- The line without text. -/
def blank : Line := ⟨"", 0⟩

/-- The line with the given text. -/
def ofText? (text : String) : Option Line := (Text.columns? text).map fun columns => ⟨text, columns⟩

/-- The lines of a cell. -/
def ofCell? (text : String) : Option (List Line) :=
  (Text.lines text.toList).mapM fun line => ofText? (String.ofList line)

/-- A line filled up with spaces to a number of columns. -/
def filled (width : Nat) (line : Line) : String :=
  line.text ++ String.ofList (List.replicate (width - line.columns) ' ')

/-- The columns that the widest of some lines takes. -/
def widest (lines : List Line) : Nat := lines.foldl (fun w line => max w line.columns) 0

end Line

/-- One row of a table: the lines of its two cells. -/
structure Row where
  /-- The lines of the left cell. -/
  name : List Line
  /-- The lines of the right cell. -/
  value : List Line
deriving Repr, DecidableEq

/-- The row with the given texts. -/
def Row.ofTexts? (name value : String) : Option Row := do
  return ⟨← Line.ofCell? name, ← Line.ofCell? value⟩

/-- The titles of the table. -/
def titles : Row := ⟨[⟨"metric", 6⟩], [⟨"value", 5⟩]⟩

/-- The rows below the titles, one for each metric. -/
def rows? (r : Report) : Option (List Row) :=
  r.entries.mapM fun e => Row.ofTexts? e.1 e.2.text

/-- The widths of the two columns of a table. -/
structure Widths where
  /-- The width of the left column. -/
  name : Nat
  /-- The width of the right column. -/
  value : Nat

/-- The widths that some rows need. -/
def Widths.ofRows (rows : List Row) : Widths :=
  ⟨Line.widest (rows.flatMap Row.name), Line.widest (rows.flatMap Row.value)⟩

/-- A horizontal line across a table. -/
def border (w : Widths) (c : Char) : String :=
  let bar (n : Nat) := String.ofList (List.replicate (n + 2) c)
  "+" ++ bar w.name ++ "+" ++ bar w.value ++ "+\n"

/-- The text of a row; the shorter of its cells ends in blank lines. -/
def Row.text (w : Widths) (r : Row) : String :=
  let height := max 1 (max r.name.length r.value.length)
  let cell (lines : List Line) (width i : Nat) := (lines.getD i .blank).filled width
  let line (i : Nat) := "| " ++ cell r.name w.name i ++ " | " ++ cell r.value w.value i ++ " |\n"
  String.join ((List.range height).map line)

/-- Rows under the titles: lines stand above, between and below the rows, and a double line stands
under the titles. -/
def layOut (rows : List Row) : String :=
  let w := Widths.ofRows (titles :: rows)
  let line := border w '-'
  line ++ titles.text w ++ border w '=' ++ line.intercalate (rows.map (Row.text w)) ++ line

/-- The report as a table. -/
def table? (r : Report) : Option String := r.rows?.map layOut

end LedgerBench.Report
