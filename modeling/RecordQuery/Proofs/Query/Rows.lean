import RecordQuery.Proofs.Query.Value

/-! # The rows of a statement

What a `SELECT` statement gives for an array of records, told on its tree (`Statement.rows?`): the
records that meet the condition, a row for each, equal rows merged, the rows sorted, and some of
them kept, in that order. -/

namespace RecordQuery

/-! ### What the clauses say -/

/-- The key of a result column and the expression behind it, unless it is a star. A text reads the
field of that name. -/
def ResultColumn.keyed? : ResultColumn → Option (String × Expr)
  | .expr (.column ref) label _ _ => some (label.getD ref.column, .column ref)
  | .expr (.literal (.string name)) label _ _ => some (label.getD name, .column (.bare name))
  | .expr e label text _ => some (label.getD text, e)
  | _ => none

/-- The key that a term of `ORDER BY` names, given the keys of the columns: it gives the key, or the
number of a column. -/
def OrderingTerm.key? (keys : List String) (t : OrderingTerm) : Option String :=
  match t.expr with
  | .column ref => some ref.column
  | .literal (.number (.integer n)) => keys[(n.toInt - 1).toNat]?
  | _ => none

/-- The integer that an operand of a limit writes out. -/
def Expr.integer? : Expr → Option Int
  | .literal (.number (.integer n)) => some n.toInt
  | .unary .negate (.literal (.number (.integer n))) => some (-n.toInt)
  | .unary .plus e => e.integer?
  | _ => none

namespace Statement

/-- The entries of each row; none under `SELECT *`. -/
def entries? (st : Statement) : Option (List (String × Expr)) :=
  st.columns.mapM ResultColumn.keyed?

/-- Whether the condition and the columns are made of expressions whose value is told. -/
def IsPlain (st : Statement) : Prop :=
  (∀ e ∈ st.condition, e.isPlain = true) ∧
    ∀ es ∈ st.entries?, ∀ entry ∈ es, entry.2.isPlain = true

instance (st : Statement) : Decidable st.IsPlain := inferInstanceAs (Decidable (_ ∧ _))

section

variable (ops : Operations) (σ : String → Json)

/-- The records on which a condition is true. -/
def kept? (condition : Expr) : List Json → Option (List Json)
  | [] => some []
  | x :: xs => do
    let a ← condition.value? ops σ x 0
    let rest ← kept? condition xs
    some (if a.truthy then x :: rest else rest)

/-- The values of the entries of a row on a record; `n` is the greatest number of a positional
parameter in front of them. -/
def members? (x : Json) : UInt32 → List (String × Expr) → Option (List (String × Json))
  | _, [] => some []
  | n, (key, e) :: rest => do
    let a ← e.value? ops σ x n
    let members ← members? x (e.counted n) rest
    some ((key, a) :: members)

/-- The row of a record. The last entry of a key is the one that counts. -/
def row? (n : UInt32) (entries : List (String × Expr)) (x : Json) : Option Json :=
  (members? ops σ x n entries).map Json.objectOf

/-- Rows in the order of the values of some keys. -/
def sorted? (keys : List String) (rows : List Json) : Option (List Json) := do
  let keyed ← rows.mapM fun y => (keys.mapM y.field?).map fun values => (values, y)
  some (Json.sortKeyed ops.le keyed)

/-- The rows as `ORDER BY` wants them. -/
def ordered? (st : Statement) (rows : List Json) : Option (List Json) :=
  match st.orderBy with
  | [] => some rows
  | t :: terms => do
    let keys ← (t :: terms).mapM (OrderingTerm.key? ((st.entries?.getD []).map Prod.fst))
    let rows ← sorted? ops keys rows
    some (match t.sense with
      | .ascending => rows
      | .descending => rows.reverse)

/-- The rows that a limit keeps: none of the first ones that the offset counts, and then as many as
the count says, all if it is negative. -/
def limited? (st : Statement) (rows : List Json) : Option (List Json) :=
  match st.limit with
  | none => some rows
  | some l => do
    let count ← l.count.integer?
    let offset ← match l.offset with
      | none => some 0
      | some e => e.integer?
    let rest := rows.drop offset.toNat
    some (if count < 0 then rest else rest.take count.toNat)

/-- **The rows of a statement** for some records, if no expression in it fails on one of them. -/
def rows? (st : Statement) (records : List Json) : Option (List Json) := do
  let n := st.condition.elim 0 (Expr.counted 0)
  let records ← match st.condition with
    | none => some records
    | some e => kept? ops σ e records
  let rows ← match st.entries? with
    | none => some records
    | some entries => records.mapM (row? ops σ n entries)
  let rows := if st.isDistinct then Json.unique ops.le rows else rows
  let rows ← ordered? ops st rows
  limited? st rows

end

end Statement

end RecordQuery
