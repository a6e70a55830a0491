import RecordQuery.Query.Operator

/-! # Query trees

What a query says, apart from spacing, parentheses and the letter case of keywords. Nodes that a
later message may point at keep the place where they start. -/

namespace RecordQuery

/-- A value written in a query. -/
inductive Literal where
  | number (n : Number)
  | string (s : String)
  | blob (digits : String)
  | boolean (b : Bool)
  | null
  | currentTime
  | currentDate
  | currentTimestamp
  deriving DecidableEq

/-- A reference to a field of the record; only the column name takes part in the look-up. -/
structure ColumnRef where
  database : Option String
  table : Option String
  column : String
  deriving DecidableEq

/-- A column without qualifiers. -/
def ColumnRef.bare (column : String) : ColumnRef := ⟨none, none, column⟩

/-- The word behind `SELECT`. -/
inductive SelectOption where
  | distinct | all
  deriving DecidableEq

/-- The direction of a sort. -/
inductive Direction where
  | ascending | descending
  deriving DecidableEq

/-- What `FROM` names; records are never looked up by it. -/
structure FromClause where
  database : Option String
  name : String
  label : Option String
  deriving DecidableEq

mutual

/-- An expression. `listed` is `IN` with a list in parentheses, `callStar` a call `f(*)`. -/
inductive Expr where
  | literal (value : Literal)
  | column (ref : ColumnRef)
  | parameter (p : Parameter) (position : Position)
  | unary (op : UnaryOp) (operand : Expr)
  | binary (op : BinaryOp) (left right : Expr)
  | between (negated : Bool) (value low high : Expr)
  | listed (negated : Bool) (value : Expr) (items : List Expr)
  | call (name : String) (args : List Expr) (position : Position)
  | callStar (name : String) (position : Position)
  | existsRow (subquery : Statement) (position : Position)

/-- One entry of the list behind `SELECT`. The text of an expression is that of its tokens. -/
inductive ResultColumn where
  | star (position : Position)
  | qualifiedStar (table : String) (position : Position)
  | expr (expr : Expr) (label : Option String) (text : String) (position : Position)

/-- An expression to sort by. -/
structure OrderingTerm where
  expr : Expr
  direction : Option Direction
  position : Position

/-- How many rows to keep, and how many to pass over before. -/
structure LimitClause where
  count : Expr
  offset : Option Expr
  position : Position

/-- A `SELECT` statement. -/
structure Statement where
  option : Option SelectOption
  columns : List ResultColumn
  source : Option FromClause
  condition : Option Expr
  groupCondition : Option Expr
  orderBy : List OrderingTerm
  limit : Option LimitClause

end

/-- The direction of a term; ascending where none is written. -/
def OrderingTerm.sense (t : OrderingTerm) : Direction := t.direction.getD .ascending

/-- Whether equal rows are to be merged. -/
def Statement.isDistinct (s : Statement) : Bool := s.option == some .distinct

end RecordQuery
