import RecordQuery.Compile.Expr
import RecordQuery.Filter.Text
import RecordQuery.Plan.RowOrder
import RecordQuery.Plan.Slice
import RecordQuery.Query.Reader

/-! # Programs

A compiled query. Its stages keep the records that meet a condition, make a row of each, merge equal
rows, sort them, and keep some of them; each stage is there only if the query asks for it. Records
are no part of a program: it can be run on any of them.

A statement is compiled in a fixed order, and the first fault ends it: the result columns are laid
out, then the condition and the columns are compiled from left to right, then the ordering and the
limit. -/

namespace RecordQuery

/-- A compiled query. -/
structure Program where
  helpers : List Helper
  condition : Option Filter
  projection : Option (List (String × Filter))
  distinct : Bool
  order : Option RowOrder
  slice : Option Slice
  columns : Option (List String)
  parameters : List String

namespace Program

/-- The definitions in front of a program. -/
def prelude (p : Program) : String := Helper.prelude p.helpers

/-- A filter behind another one, if there is one. -/
def followedBy (f : Filter) : Option Filter → Filter
  | none => f
  | some g => .pipe f g

/-- The filter that keeps the records of a condition. -/
def selection (condition : Filter) : Filter := .call .select [condition]

/-- The filter of a whole program. -/
def filter (p : Program) : Filter :=
  let each := followedBy .elements (p.condition.map selection)
  let rows : Filter := .array (followedBy each (p.projection.map .object))
  let rows := followedBy rows (if p.distinct then some (Filter.apply .unique) else none)
  let rows := followedBy rows (p.order.map RowOrder.filter)
  followedBy rows (p.slice.map Slice.filter)

/-- The text of a program. -/
def text (p : Program) : String := p.prelude ++ p.filter.text

/-- Compiles the columns of a row. -/
def entries : List Column → Compile (List (String × Filter))
  | [] => return []
  | c :: cs => do
    let f ← Compile.expr c.expr
    return (c.label, f) :: (← entries cs)

/-- A plan as a step of compiling. -/
def planned {α : Type} (r : Except CompileError α) : Compile α := ofExcept (r.mapError .fault)

/-- Compiles a statement. -/
def compile (s : Statement) : Compile Program := do
  let projection ← planned (Projection.ofColumns s.columns)
  let condition ← match s.condition with
    | none => pure none
    | some e => some <$> Compile.expr e
  let row ← match projection with
    | .all => pure none
    | .columns cs => some <$> entries cs
  let order ← planned (RowOrder.ofTerms projection s.orderBy)
  let slice ← ofExcept (Slice.ofLimit s.limit)
  let names ← get
  return {
    helpers := names.neededHelpers, condition, projection := row, distinct := s.isDistinct, order,
    slice, columns := projection.labels, parameters := names.parameters }

/-- The program of a statement. -/
def ofStatement (s : Statement) : Except (Stop CompileError) Program :=
  match (compile s).run {} with
  | .ok p _ => .ok p
  | .error e _ => .error e

/-- The program of a query text. -/
def ofText (query : String) : Except (Stop CompileError) Program :=
  match Statement.ofText query with
  | .error e => .error (.fault (.grammar e))
  | .ok s => ofStatement s

/-- The warnings that compiling a statement gives, also where it fails behind the result columns. -/
def warnings (s : Statement) : List String :=
  match Projection.ofColumns s.columns, s.groupCondition with
  | .ok _, some _ => ["HAVING clause ignored: aggregation is not supported"]
  | _, _ => []

end Program

end RecordQuery
