import RecordQuery.Query.Caption
import RecordQuery.Query.Expression
import RecordQuery.Token.Source

/-! # Reading statements

The clauses of a `SELECT` statement in their order, each given the reader of expressions. A query is
one statement, a semicolon if there is one, and the end of the input. -/

namespace RecordQuery

namespace Parse

/-- Reads one entry of the list behind `SELECT`. -/
def resultColumn (expr : Parse Expr) : Parse ResultColumn := do
  let c ← get
  let place := c.current.start
  if ← eat (.symbol .star) then return .star place
  if c.token.name?.isSome ∧ c.peek = .symbol .dot ∧
      (c.later[1]?.map Lexeme.token) = some (.symbol .star) then
    let table ← name .tableName
    advance
    advance
    return .qualifiedStar table place
  let e ← expr
  let text := Caption.ofTokens (c.upTo (← get))
  return .expr e (← label? .columnLabel) text place

/-- Reads what `FROM` names. -/
def fromClause : Parse FromClause := do
  let first ← name .sourceName
  if ← eat (.symbol .dot) then
    let second ← name .sourceName
    return ⟨some first, second, ← label? .sourceLabel⟩
  return ⟨none, first, ← label? .sourceLabel⟩

/-- Reads an expression to sort by. -/
def orderingTerm (expr : Parse Expr) : Parse OrderingTerm := do
  let place := (← get).current.start
  let e ← expr
  if ← eatKeyword .ASC then return ⟨e, some .ascending, place⟩
  if ← eatKeyword .DESC then return ⟨e, some .descending, place⟩
  return ⟨e, none, place⟩

/-- Reads a limit: a count, a count and an offset, or an offset before a comma and the count. -/
def limitClause (expr : Parse Expr) : Parse LimitClause := do
  let place := (← get).current.start
  expectKeyword .LIMIT
  let first ← expr
  if ← eatKeyword .OFFSET then return ⟨first, some (← expr), place⟩
  if ← eat (.symbol .comma) then return ⟨← expr, some first, place⟩
  return ⟨first, none, place⟩

/-- Reads a clause if its reserved word comes next. -/
def clause? {α : Type} (k : Keyword) (body : Parse α) : Parse (Option α) := do
  if ← eatKeyword k then return some (← body)
  return none

/-- Reads the word behind `SELECT`. -/
def selectOption : Parse (Option SelectOption) := do
  if ← eatKeyword .DISTINCT then return some .distinct
  if ← eatKeyword .ALL then return some .all
  return none

/-- Refuses the words that would start a clause or a statement that is not supported. -/
def refuseCompound : Parse Unit := do
  let c ← get
  match c.token with
  | .keyword .UNION => fail (.compound .UNION) c.current.start
  | .keyword .INTERSECT => fail (.compound .INTERSECT) c.current.start
  | .keyword .EXCEPT => fail (.compound .EXCEPT) c.current.start
  | .keyword .SELECT => fail .secondSelect c.current.start
  | _ => return

/-- Reads a statement. -/
def select (expr : Parse Expr) : Parse Statement := do
  expectKeyword .SELECT
  let option ← selectOption
  let columns ← separated (resultColumn expr)
  let source ← clause? .FROM fromClause
  let condition ← clause? .WHERE expr
  let c ← get
  if c.token = .keyword .GROUP then fail .groupBy c.current.start
  let groupCondition ← clause? .HAVING expr
  refuseCompound
  let orderBy ← clause? .ORDER do
    expectKeyword .BY
    separated (orderingTerm expr)
  let limit ← if (← get).token = .keyword .LIMIT then some <$> limitClause expr else pure none
  return ⟨option, columns, source, condition, groupCondition, orderBy.getD [], limit⟩

/-- The nested calls that suffice for the tokens left. -/
def depth (c : Cursor) : Nat := 13 * (c.later.length + 1)

/-- Reads an expression. -/
def expression : Parse Expr := do
  tierWithin select (depth (← get)) .or

/-- Reads an expression and the end of the input. -/
def wholeExpression : Parse Expr := do
  let e ← expression
  if (← get).token = .endOfInput then return e
  unexpected .endOfExpression

/-- Reads a query. -/
def query : Parse Statement := do
  let s ← select expression
  let _ ← eat (.symbol .semicolon)
  if (← get).token = .endOfInput then return s
  unexpected .endOfStatement

/-- What a reader gives from the start of a list of tokens. -/
def onTokens {α : Type} (p : Parse α) (ls : List Lexeme) : Except ParseError α :=
  match Cursor.ofTokens? ls with
  | none => .error ⟨.unexpected .expression .endOfInput, .start⟩
  | some c =>
    match p.run c with
    | .ok a _ => .ok a
    | .error e _ => .error e

/-- What a reader gives from the start of a text. -/
def onText {α : Type} (p : Parse α) (text : String) : Except ParseError α :=
  match tokenize text with
  | .error e => .error e.toParseError
  | .ok ls => p.onTokens ls

end Parse

/-- The statement that a query text holds. -/
def Statement.ofText (text : String) : Except ParseError Statement := Parse.query.onText text

/-- The expression that a text holds. -/
def Expr.ofText (text : String) : Except ParseError Expr := Parse.wholeExpression.onText text

end RecordQuery
