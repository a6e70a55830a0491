import RecordQuery.Compile.Error
import RecordQuery.Query.Tree

/-! # Result columns

What the list behind `SELECT` makes of each record: the record itself, or a row of columns. A column
that is a string literal reads the field of that name. Without a label, a column is labelled by its
field, or by its text if it is computed. -/

namespace RecordQuery

/-- A result column: the field it reads or the text it is computed from, its key in every row, and
its expression. -/
structure Column where
  field : String
  label : String
  expr : Expr

/-- Whether a column reads a field unchanged. -/
def Column.isField (c : Column) : Bool :=
  match c.expr with
  | .column _ => true
  | _ => false

/-- What each record becomes. -/
inductive Projection where
  | all
  | columns (cs : List Column)

namespace Projection

/-- The items of a list at their first occurrence, behind the items of `done`. -/
def distinctFrom (done : List String) : List String → List String
  | [] => done
  | s :: rest => distinctFrom (if s ∈ done then done else done ++ [s]) rest

/-- The keys of every row, in their order, where the projection fixes them. -/
def labels : Projection → Option (List String)
  | all => none
  | columns cs => some (distinctFrom [] (cs.map Column.label))

/-- The column of an entry that is an expression. -/
def column (expr : Expr) (label : Option String) (text : String) : Column :=
  match expr with
  | .column ref => ⟨ref.column, label.getD ref.column, expr⟩
  | .literal (.string name) => ⟨name, label.getD name, .column (.bare name)⟩
  | _ => ⟨text, label.getD text, expr⟩

/-- The columns of entries none of which is a star. -/
def columnsOf : List ResultColumn → Except CompileError (List Column)
  | [] => .ok []
  | .star position :: _ => .error (.unsupported .starAmongColumns position)
  | .qualifiedStar table position :: _ => .error (.unsupported (.qualifiedStar table) position)
  | .expr e label text _ :: rest => (columnsOf rest).map (column e label text :: ·)

/-- The projection of a list behind `SELECT`. A star must stand alone. -/
def ofColumns : List ResultColumn → Except CompileError Projection
  | [.star _] => .ok .all
  | entries => (columnsOf entries).map .columns

end Projection

end RecordQuery
