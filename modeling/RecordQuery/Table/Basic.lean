import RecordQuery.Json.Printer

/-! # Tables

The rows that a query yields, and the names of their columns. A row is the list of members of an
object; it may lack a column, and it may have members that are no column. -/

namespace RecordQuery

/-- The members of one row, in their order. -/
abbrev Row := List (String × Json)

/-- Rows and the names of their columns. -/
structure Table where
  columns : List String
  rows : List Row

namespace Table

/-- The number of rows. -/
def size (t : Table) : Nat := t.rows.length

/-- Whether there are no rows. -/
def isEmpty (t : Table) : Bool := t.rows.isEmpty

/-- The values of a column, `null` in the rows that lack it. -/
def column (t : Table) (name : String) : List Json :=
  t.rows.map fun row => (Json.member? name row).getD .null

/-- The rows as an array of objects. -/
def json (t : Table) : Json := .array (t.rows.map .object)

end Table

end RecordQuery
