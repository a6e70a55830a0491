import RecordQuery.Compile.Error
import RecordQuery.Filter.Basic
import RecordQuery.Query.Tree

/-! # Keeping some rows

A limit keeps rows by their places: from a first one on, and up to a last one. A negative count sets
no upper bound and a negative offset counts as zero; a limit that keeps every row is no slice. The
upper bound stops at the greatest integer of 64 bits. A minus sign in front of the least one panics.
-/

namespace RecordQuery

/-- The places of the rows to keep: from `first` on, and below `stop`. -/
structure Slice where
  first : Option Int64
  stop : Option Int64

namespace Slice

/-- How messages name an operand of a limit. -/
def describe : Expr → String
  | .literal (.number (.real d)) => (Number.real d).text
  | .literal (.number (.float x)) => (Number.float x).text
  | .literal (.string s) => "'" ++ s ++ "'"
  | .column ref => ref.column
  | .parameter _ _ => "bind parameter"
  | _ => "expression"

/-- The integer that an operand writes out: a literal behind any number of plus signs and at most
one minus sign, or else the operand as messages name it. -/
def integer : Expr → Except (Stop String) Int64
  | .literal (.number (.integer n)) => .ok n
  | .unary .negate (.literal (.number (.integer n))) =>
    if n = Int64.minValue then .error .panic else .ok (-n)
  | .unary .negate operand => .error (.fault (describe operand))
  | .unary .plus operand => integer operand
  | operand => .error (.fault (describe operand))

/-- The sum of two integers, but no more than the greatest one of 64 bits. -/
def addUpTo (m n : Int64) : Int64 :=
  if m.toInt + n.toInt ≤ Int64.maxValue.toInt then m + n else Int64.maxValue

/-- The places of the rows that a count and an offset that is not negative keep. -/
def ofCount (count offset : Int64) : Option Slice :=
  if count < 0 then
    if offset = 0 then none else some ⟨some offset, none⟩
  else if offset = 0 then some ⟨none, some count⟩
  else some ⟨some offset, some (addUpTo offset count)⟩

/-- An operand of a limit as an integer. -/
def operand (l : LimitClause) (e : Expr) : Except (Stop CompileError) Int64 :=
  (integer e).mapError (Stop.map fun what => .invalidLimit what l.position)

/-- The slice of a limit. -/
def ofLimit : Option LimitClause → Except (Stop CompileError) (Option Slice)
  | none => .ok none
  | some l => do
    let count ← operand l l.count
    let offset ← match l.offset with
      | none => .ok 0
      | some e => operand l e
    return ofCount count (max offset 0)

/-- The filter that keeps the rows of an array. -/
def filter (s : Slice) : Filter :=
  let bound (n : Int64) : Filter := .number (.integer n)
  .slice (s.first.map bound) (s.stop.map bound)

end Slice

end RecordQuery
