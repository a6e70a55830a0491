import RecordQuery.Compile.Names
import RecordQuery.Proofs.Jq.Evaluation
import RecordQuery.Query.Tree

/-! # The value of an expression

What an expression means, told on its tree alone: every operand is evaluated on the record
(`Expr.value?`). The operators of one and of two operands, the tests for a range and for membership
and the values of parameters are covered (`Expr.isPlain`); patterns and calls are not. A parameter
without a number takes the one behind the greatest number in front of it (`Expr.counted`). -/

namespace RecordQuery

/-- Whether an operator is arithmetic, a comparison, a test for membership, `AND` or `OR`. -/
def BinaryOp.isPlain : BinaryOp → Bool
  | concat | shiftLeft | shiftRight | bitAnd | bitOr | like | notLike | regexp | notRegexp => false
  | _ => true

mutual

/-- Whether an expression is made of integers, texts, truth values and null, columns, parameters,
and the operators and tests on them. -/
def Expr.isPlain : Expr → Bool
  | .literal (.number (.integer _)) | .literal (.string _) | .literal (.boolean _)
  | .literal .null => true
  | .column _ | .parameter _ _ => true
  | .unary op e => op != .bitNot && e.isPlain
  | .binary op l r => op.isPlain && l.isPlain && r.isPlain
  | .between _ value low high => value.isPlain && low.isPlain && high.isPlain
  | .listed _ value items => value.isPlain && arePlain items
  | _ => false

/-- Whether expressions are of that kind. -/
def arePlain : List Expr → Bool
  | [] => true
  | e :: es => e.isPlain && arePlain es

end

mutual

/-- The greatest number of a positional parameter behind an expression, given the one in front. -/
def Expr.counted (n : UInt32) : Expr → UInt32
  | .parameter .next _ => n + 1
  | .parameter (.numbered m) _ => max n m
  | .unary _ e => e.counted n
  | .binary _ l r => r.counted (l.counted n)
  | .between _ value low high => high.counted (low.counted (value.counted n))
  | .listed _ value items => countedAll (value.counted n) items
  | .call _ args _ => countedAll n args
  | _ => n

/-- The greatest number behind expressions. -/
def countedAll (n : UInt32) : List Expr → UInt32
  | [] => n
  | e :: es => countedAll (e.counted n) es

end

namespace Json

/-- Whether two values are both true, of which the second is asked for only if the first is. -/
def both (a b : Option Json) : Option Json :=
  a.bind fun a => if a.truthy then b.map fun b => .boolean b.truthy else some (.boolean false)

/-- Whether one of two values is true, of which the second is asked for only if the first is not. -/
def either (a b : Option Json) : Option Json :=
  a.bind fun a => if a.truthy then some (.boolean true) else b.map fun b => .boolean b.truthy

end Json

/-- What the operators of one operand do to a value. -/
def UnaryOp.apply? (ops : Operations) (a : Json) : UnaryOp → Option Json
  | negate => ops.negate a
  | plus => some a
  | bitNot => none
  | not => some (.boolean !a.truthy)
  | isNull => ops.operation .equal a .null
  | notNull => ops.operation .notEqual a .null

/-- The operator of values that an operator of two operands is, if it is one. -/
def BinaryOp.operator? : BinaryOp → Option Operator
  | multiply => some .multiply
  | divide => some .divide
  | modulo => some .modulo
  | add => some .add
  | subtract => some .subtract
  | less => some .less
  | lessEqual => some .lessEqual
  | greater => some .greater
  | greaterEqual => some .greaterEqual
  | equal | doubleEqual | is => some .equal
  | notEqual | lessGreater | isNot => some .notEqual
  | _ => none

section

variable (ops : Operations) (σ : String → Json) (x : Json)

/-- The value of a parameter; `n` is the greatest number in front of it. -/
def Parameter.value (n : UInt32) : Parameter → Json
  | next => σ (Compile.positionalName (n + 1))
  | numbered m => σ (Compile.positionalName m)
  | named _ name => σ name

mutual

/-- The value of an expression on a record, if no operator in it fails; `n` is the greatest number
of a positional parameter in front of it. -/
def Expr.value? (n : UInt32) : Expr → Option Json
  | .literal (.number (.integer k)) => some (.integer k.toInt)
  | .literal (.string s) => some (.string s)
  | .literal (.boolean b) => some (.boolean b)
  | .literal .null => some .null
  | .column ref => x.field? ref.column
  | .parameter p _ => some (p.value σ n)
  | .unary op e => (e.value? n).bind fun a => op.apply? ops a
  | .binary .and l r => Json.both (l.value? n) (r.value? (l.counted n))
  | .binary .or l r => Json.either (l.value? n) (r.value? (l.counted n))
  | .binary .membership l r => do
    let a ← l.value? n
    let b ← r.value? (l.counted n)
    let equal ← ops.operation .equal b a
    some (.boolean equal.truthy)
  | .binary .notMembership l r => do
    let a ← l.value? n
    let b ← r.value? (l.counted n)
    let equal ← ops.operation .equal b a
    some (.boolean !equal.truthy)
  | .binary op l r => do
    let op ← op.operator?
    let a ← l.value? n
    let b ← r.value? (l.counted n)
    ops.operation op a b
  | .between negated value low high => do
    let a ← value.value? n
    let m := value.counted n
    let b := low.value? m
    let c := high.value? (low.counted m)
    if negated then
      Json.either (b.bind (ops.operation .less a)) (c.bind (ops.operation .greater a))
    else
      Json.both (b.bind (ops.operation .greaterEqual a)) (c.bind (ops.operation .lessEqual a))
  | .listed negated value items => do
    let a ← value.value? n
    let found ← isOneOf? (value.counted n) a items
    some (.boolean (found != negated))
  | _ => none

/-- Whether a value equals that of one of some expressions; none is asked for behind the first that
does. -/
def isOneOf? (n : UInt32) (a : Json) : List Expr → Option Bool
  | [] => some false
  | e :: es => do
    let b ← e.value? n
    let equal ← ops.operation .equal b a
    if equal.truthy then some true else isOneOf? (e.counted n) a es

end

end

end RecordQuery
