import RecordQuery.Query.Cursor
import RecordQuery.Query.Tree

/-! # Reading expressions

One reader for all tiers. A tier reads an operand of the next tighter tier and then extends it, step
by step, by the operators of its own (`extend`); `step?` decides from the next two tokens whether
there is one more step. Every body is given the reader of nested expressions as an argument, `sub`,
so that `tierWithin` alone is recursive. Thirteen nested calls at most pass without a token being
read, which bounds the nesting by the tokens left (`expression`). -/

namespace RecordQuery.Parse

/-- The reader of a nested `SELECT` statement, given the reader of expressions. -/
abbrev SelectReader := Parse Expr → Parse Statement

/-- One more step of an expression: an operator and what stands behind it. -/
inductive Step where
  | binary (op : BinaryOp)
  | is
  | listed (negated : Bool)
  | between (negated : Bool)
  | nullTest (op : UnaryOp)

/-- The step that the next tokens make at a tier. `IN` belongs to the tier of lists where a
parenthesis follows, and to the comparisons where none does. -/
def step? (t : Tier) (c : Cursor) : Option Step :=
  let parenthesis := c.peek = .symbol .leftParen
  match t, c.token with
  | .membership, .keyword .IN => if parenthesis then some (.listed false) else none
  | .membership, .negated .membership => if parenthesis then some (.listed true) else none
  | .between, .keyword .BETWEEN => some (.between false)
  | .between, .negated .between => some (.between true)
  | .comparison, .keyword .IS => some .is
  | .comparison, .keyword .IN => if parenthesis then none else some (.binary .membership)
  | .comparison, .negated .membership =>
    if parenthesis then none else some (.binary .notMembership)
  | .nullTest, token => (UnaryOp.trailing? token).map .nullTest
  | t, token => (BinaryOp.ofToken? t token).map .binary

/-- Whether an expression is a string literal. -/
def isStringLiteral : Expr → Bool
  | .literal (.string _) => true
  | _ => false

/-- Takes one step from an operand on the left. -/
def takeStep (sub : Tier → Parse Expr) (t : Tier) (left : Expr) : Step → Parse Expr
  | .binary op => do
    advance
    let place := (← get).current.start
    let right ← sub t.tighter
    if (op = .like ∨ op = .notLike) ∧ !isStringLiteral right then fail .likePattern place
    return .binary op left right
  | .is => do
    advance
    if ← eat (.negated .null) then return .binary .isNot left (.literal .null)
    let op := if ← eatKeyword .NOT then BinaryOp.isNot else .is
    return .binary op left (← sub t.tighter)
  | .listed negated => do
    advance
    advance
    let items ← separated (sub .or)
    expect .rightParen
    return .listed negated left items
  | .between negated => do
    advance
    let low ← sub .comparison
    expectKeyword .AND
    let high ← sub .comparison
    return .between negated left low high
  | .nullTest op => do
    advance
    return .unary op left

/-- Takes steps as long as there are any, at most `n`. -/
def extend (sub : Tier → Parse Expr) (t : Tier) : Nat → Expr → Parse Expr
  | 0, left => return left
  | n + 1, left => do
    match step? t (← get) with
    | none => return left
    | some s => extend sub t n (← takeStep sub t left s)

/-- Reads an operand with the operators in front of it. A `NOT NULL` there is `NOT` before the
literal `NULL`. -/
def signed (sub : Tier → Parse Expr) : Parse Expr := do
  let c ← get
  if c.token = .negated .null then
    advance
    return .unary .not (.literal .null)
  match UnaryOp.leading? c.token with
  | some op =>
    advance
    return .unary op (← sub .sign)
  | none => sub .primary

/-- The literal that a token is. -/
def literal? : Token → Option Literal
  | .number n => some (.number n)
  | .string s => some (.string s)
  | .blob digits => some (.blob digits)
  | .keyword .TRUE => some (.boolean true)
  | .keyword .FALSE => some (.boolean false)
  | .keyword .NULL => some .null
  | .keyword .CURRENT_TIME => some .currentTime
  | .keyword .CURRENT_DATE => some .currentDate
  | .keyword .CURRENT_TIMESTAMP => some .currentTimestamp
  | _ => none

/-- Reads the further parts of a qualified name, at most `n`. -/
def furtherParts : Nat → Parse (List String)
  | 0 => return []
  | n + 1 => do
    let c ← get
    if c.token = .symbol .dot then
      if c.peek = .symbol .star then fail .starInExpression c.current.start
      advance
      let part ← name .columnName
      return part :: (← furtherParts n)
    return []

/-- Reads a column with up to two qualifiers. -/
def columnRef : Parse Expr := do
  let place := (← get).current.start
  let first ← name .columnName
  let further ← furtherParts (← get).later.length
  match further with
  | [] => return .column ⟨none, none, first⟩
  | [column] => return .column ⟨none, some first, column⟩
  | [table, column] => return .column ⟨some first, some table, column⟩
  | _ => fail .tooManyQualifiers place

/-- Reads a call, from its name on. -/
def call (sub : Tier → Parse Expr) : Parse Expr := do
  let place := (← get).current.start
  let function ← name .functionName
  advance
  if ← eat (.symbol .star) then
    expect .rightParen
    return .callStar function place
  let args ← if (← get).token = .symbol .rightParen then pure [] else separated (sub .or)
  expect .rightParen
  return .call function args place

/-- Reads an operand without operators: a literal, a parameter, a column, a call, a nested statement
behind `EXISTS`, or an expression in parentheses. -/
def primary (select : SelectReader) (sub : Tier → Parse Expr) : Parse Expr := do
  let c ← get
  let place := c.current.start
  match literal? c.token with
  | some value =>
    advance
    return .literal value
  | none =>
    match c.token with
    | .parameter p =>
      advance
      return .parameter p place
    | .symbol .leftParen =>
      advance
      let e ← sub .or
      expect .rightParen
      return e
    | .keyword .EXISTS =>
      advance
      expect .leftParen
      let subquery ← select (sub .or)
      expect .rightParen
      return .existsRow subquery place
    | .identifier _ | .quotedIdentifier _ =>
      if c.peek = .symbol .leftParen then call sub else columnRef
    | .keyword k => fail (.reservedInExpression k) place
    | _ => unexpected .expression

/-- Reads an expression of a tier. -/
def tierBody (select : SelectReader) (sub : Tier → Parse Expr) : Tier → Parse Expr
  | .primary => primary select sub
  | .sign => signed sub
  | t => do
    let left ← sub t.tighter
    extend sub t (← get).later.length left

/-- Reads an expression of a tier with at most `n` nested calls. -/
def tierWithin (select : SelectReader) : Nat → Tier → Parse Expr
  | 0, _ => do fail .tooDeep (← get).current.start
  | n + 1, t => tierBody select (tierWithin select n) t

end RecordQuery.Parse
