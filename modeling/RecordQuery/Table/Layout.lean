import RecordQuery.Table.Basic

/-! # Printed tables

A table is printed as JSON, which shows the rows alone, or as plain text, which shows the columns: a
line with their names, a rule, and one line for each row. A column is as wide as its longest cell,
its name included, where width counts characters; shorter cells are filled up with spaces. A string
is shown without quotes, and `null` as a missing value: by an empty cell.

The width that a text is filled up to is an integer of 16 bits, and printing panics where a column
is wider (`Table.fill?`). -/

namespace RecordQuery

namespace Table

/-- What a cell shows. -/
def cell (row : Row) (column : String) : List Char :=
  match Json.member? column row with
  | none | some .null => []
  | some (.string s) => s.toList
  | some v => v.compact.toList

/-- The number of characters that the longest cell of a column has. -/
def width (t : Table) (column : String) : Nat :=
  (t.rows.map fun row => (cell row column).length).foldl max column.length

/-- The greatest width that a text can be filled up to. -/
def greatestWidth : Nat := 65535

/-- A text filled up with spaces, if that is not too wide. -/
def fill? (width : Nat) (text : List Char) : Option (List Char) :=
  if width ≤ greatestWidth then some (text ++ List.replicate (width - text.length) ' ') else none

/-- Texts in one line, with a mark between them. -/
def line (mark : String) (texts : List (List Char)) : List Char :=
  List.intercalate mark.toList texts ++ ['\n']

/-- A line with a text for each column. -/
def fields? (t : Table) (text : String → List Char) : Option (List Char) :=
  (t.columns.mapM fun name => fill? (t.width name) (text name)).map (line " | ")

/-- The lines of a table. -/
def lines? (t : Table) : Option (List (List Char)) := do
  let names ← t.fields? String.toList
  let rule := line "-+-" (t.columns.map fun name => List.replicate (t.width name) '-')
  let rows ← t.rows.mapM fun row => t.fields? (cell row)
  return names :: rule :: rows

/-- A table as text. -/
def text? (t : Table) : Option String := t.lines?.map fun ls => String.ofList ls.flatten

end Table

/-- The ways to print a table. -/
inductive Format where
  | compact
  | indented
  | text

/-- A table in a format. -/
def Table.print? (t : Table) : Format → Option String
  | .compact => some t.json.compact
  | .indented => some t.json.pretty
  | .text => t.text?

end RecordQuery
