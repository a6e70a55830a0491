import RecordQuery.Filter.Basic
import RecordQuery.Plan.Projection

/-! # Sorting rows

Rows are sorted behind the projection, so the terms of `ORDER BY` name keys of rows: a label or the
number of a column, or any key of the record under `SELECT *`. All terms share one direction. -/

namespace RecordQuery

/-- The keys to sort by, the most significant one first, and the direction. -/
structure RowOrder where
  keys : List String
  direction : Direction

namespace RowOrder

/-- The key that a term names. -/
def key (p : Projection) (t : OrderingTerm) : Except CompileError String :=
  match t.expr, p with
  | .column ref, .all => .ok ref.column
  | .column ref, .columns cs =>
    if cs.any (·.label == ref.column) then .ok ref.column
    else .error (.unknownOrderTerm ref.column t.position)
  | .literal (.number (.integer n)), .all =>
    .error (.unsupported (.orderPosition n) t.position)
  | .literal (.number (.integer n)), .columns cs =>
    if 0 < n.toInt then
      match cs[n.toInt.toNat - 1]? with
      | some c => .ok c.label
      | none => .error (.orderIndexOutOfRange n cs.length t.position)
    else .error (.orderIndexOutOfRange n cs.length t.position)
  | _, _ => .error (.unsupported .orderTerm t.position)

/-- The keys of terms that must have one direction, which is looked at before the key. -/
def keysOf (p : Projection) (direction : Direction) :
    List OrderingTerm → Except CompileError (List String)
  | [] => .ok []
  | t :: rest =>
    if t.sense = direction then do
      let k ← key p t
      return k :: (← keysOf p direction rest)
    else .error (.mixedDirections t.position)

/-- The ordering of terms; none where there is no term. -/
def ofTerms (p : Projection) (terms : List OrderingTerm) : Except CompileError (Option RowOrder) :=
  match terms.head? with
  | none => .ok none
  | some first => (keysOf p first.sense terms).map fun keys => some ⟨keys, first.sense⟩

/-- The filter that sorts an array of rows. -/
def filter (o : RowOrder) : Filter :=
  let sort : Filter := .call .sortBy [.sequence (o.keys.map .field)]
  match o.direction with
  | .ascending => sort
  | .descending => .pipe sort (Filter.apply .reverse)

end RowOrder

end RecordQuery
