import RecordQuery.Proofs.Grammar.Spelling

/-! # Printing query trees

`Expr.tokens` and `Statement.tokens` print trees with as few parentheses as the grammar allows:
around an operand that is looser than its place, around one behind `IS` that begins with `NOT`, and
around one behind `IS NOT` that begins with `NULL` and is more than that. Places and captions are
not printed; `Expr.plain` is the tree without the places, and with captions as they are printed.

Not every tree can be printed. `Expr.Expressible` names the trees that can. -/

namespace RecordQuery

/-! ### Tokens of small parts -/

/-- The token of an operator of one operand. -/
def UnaryOp.token : UnaryOp → Token
  | negate => .symbol .minus
  | plus => .symbol .plus
  | bitNot => .symbol .tilde
  | not => .keyword .NOT
  | isNull => .keyword .ISNULL
  | notNull => .negated .null

/-- Whether an operator of one operand stands behind it. -/
def UnaryOp.isTrailing : UnaryOp → Bool
  | isNull | notNull => true
  | _ => false

/-- The tier of the outermost node of an expression. -/
def Expr.tier : Expr → Tier
  | .unary op _ => if op.isTrailing then .nullTest else .sign
  | .binary op _ _ => op.tier
  | .between .. => .between
  | .listed .. => .membership
  | _ => .primary

namespace Print

/-- A run of tokens in parentheses. -/
def parens (ts : List Token) : List Token :=
  .symbol .leftParen :: (ts ++ [.symbol .rightParen])

/-- A run of tokens, in parentheses where it has to be. -/
def parensIf (p : Bool) (ts : List Token) : List Token := if p then parens ts else ts

/-- An operand at a tier, given its own. -/
def operand (t own : Tier) (ts : List Token) : List Token := parensIf (own.rank < t.rank) ts

/-- Runs of tokens with commas between. -/
def commas : List (List Token) → List Token
  | [] => []
  | [ts] => ts
  | ts :: more => ts ++ .symbol .comma :: commas more

/-- An operator in front of an operand. -/
def leading (op : UnaryOp) (ts : List Token) : List Token :=
  if op = .not ∧ ts = [.keyword .NULL] then [.negated .null] else op.token :: ts

/-- What stands behind the left operand of an operator. -/
def behind (op : BinaryOp) (ts : List Token) : List Token :=
  match op with
  | .is => .keyword .IS ::
    parensIf (ts.head? = some (.keyword .NOT) ∨ ts.head? = some (.negated .null)) ts
  | .isNot =>
    if ts = [.keyword .NULL] then [.keyword .IS, .negated .null]
    else .keyword .IS :: .keyword .NOT :: parensIf (ts.head? = some (.keyword .NULL)) ts
  | op => op.token?.toList ++ ts

/-- A column with its qualifiers. -/
def column : ColumnRef → List Token
  | ⟨some d, some t, c⟩ => [.quotedIdentifier d, .symbol .dot, .quotedIdentifier t, .symbol .dot,
    .quotedIdentifier c]
  | ⟨_, some t, c⟩ => [.quotedIdentifier t, .symbol .dot, .quotedIdentifier c]
  | ⟨_, none, c⟩ => [.quotedIdentifier c]

/-- A label. -/
def label : Option String → List Token
  | none => []
  | some l => [.keyword .AS, .quotedIdentifier l]

/-- What a statement reads from. -/
def source : Option FromClause → List Token
  | none => []
  | some ⟨none, n, l⟩ => .keyword .FROM :: .quotedIdentifier n :: label l
  | some ⟨some d, n, l⟩ =>
    .keyword .FROM :: .quotedIdentifier d :: .symbol .dot :: .quotedIdentifier n :: label l

/-- The word behind `SELECT`. -/
def option : Option SelectOption → List Token
  | none => []
  | some .distinct => [.keyword .DISTINCT]
  | some .all => [.keyword .ALL]

/-- The direction of a sort. -/
def direction : Option Direction → List Token
  | none => []
  | some .ascending => [.keyword .ASC]
  | some .descending => [.keyword .DESC]

/-- The terms of `ORDER BY`. -/
def sorting (terms : List (List Token)) : List Token :=
  if terms = [] then [] else .keyword .ORDER :: .keyword .BY :: commas terms

end Print

/-! ### Tokens of trees -/

open Print Grammar

mutual

/-- The tokens of an expression. -/
def Expr.tokens : Expr → List Token
  | .literal v => [v.token]
  | .column ref => Print.column ref
  | .parameter p _ => [.parameter p]
  | .unary op e =>
    if op.isTrailing then operand .nullTest e.tier e.tokens ++ [op.token]
    else leading op (operand .sign e.tier e.tokens)
  | .binary op l r =>
    operand op.tier l.tier l.tokens ++ behind op (operand op.tier.tighter r.tier r.tokens)
  | .between negated v low high =>
    operand .between v.tier v.tokens ++ rangeToken negated ::
      (operand .comparison low.tier low.tokens ++ .keyword .AND ::
        operand .comparison high.tier high.tokens)
  | .listed negated v items =>
    operand .membership v.tier v.tokens ++ listToken negated :: parens (commas (exprTokens items))
  | .call name args _ => .quotedIdentifier name :: parens (commas (exprTokens args))
  | .callStar name _ => .quotedIdentifier name :: parens [.symbol .star]
  | .existsRow s _ => .keyword .EXISTS :: parens s.tokens

/-- The tokens of each of some expressions. -/
def exprTokens : List Expr → List (List Token)
  | [] => []
  | e :: es => e.tokens :: exprTokens es

/-- The tokens of each of some result columns. -/
def columnTokens : List ResultColumn → List (List Token)
  | [] => []
  | .star _ :: cs => [.symbol .star] :: columnTokens cs
  | .qualifiedStar table _ :: cs =>
    [.quotedIdentifier table, .symbol .dot, .symbol .star] :: columnTokens cs
  | .expr e label _ _ :: cs => (e.tokens ++ Print.label label) :: columnTokens cs

/-- The tokens of each of some expressions to sort by. -/
def termTokens : List OrderingTerm → List (List Token)
  | [] => []
  | ⟨e, direction, _⟩ :: ts => (e.tokens ++ Print.direction direction) :: termTokens ts

/-- The tokens of a condition, behind a token, if there is one. -/
def tokensBehind (k : Token) : Option Expr → List Token
  | none => []
  | some e => k :: e.tokens

/-- The tokens of a limit, if there is one. -/
def limitTokens : Option LimitClause → List Token
  | none => []
  | some ⟨count, offset, _⟩ =>
    .keyword .LIMIT :: (count.tokens ++ tokensBehind (.keyword .OFFSET) offset)

/-- The tokens of a statement. -/
def Statement.tokens : Statement → List Token
  | ⟨option, columns, source, condition, groupCondition, orderBy, limit⟩ =>
    .keyword .SELECT :: (Print.option option ++ (commas (columnTokens columns) ++
      (Print.source source ++ (tokensBehind (.keyword .WHERE) condition ++
        (tokensBehind (.keyword .HAVING) groupCondition ++
          (sorting (termTokens orderBy) ++ limitTokens limit))))))

end

/-! ### Trees without places -/

mutual

/-- An expression without the places, and with captions as they are printed. -/
def Expr.plain : Expr → Expr
  | .literal v => .literal v
  | .column ref => .column ref
  | .parameter p _ => .parameter p .start
  | .unary op e => .unary op e.plain
  | .binary op l r => .binary op l.plain r.plain
  | .between negated v low high => .between negated v.plain low.plain high.plain
  | .listed negated v items => .listed negated v.plain (plainExprs items)
  | .call name args _ => .call name (plainExprs args) .start
  | .callStar name _ => .callStar name .start
  | .existsRow s _ => .existsRow s.plain .start

/-- Expressions without the places. -/
def plainExprs : List Expr → List Expr
  | [] => []
  | e :: es => e.plain :: plainExprs es

/-- Result columns without the places. -/
def plainColumns : List ResultColumn → List ResultColumn
  | [] => []
  | .star _ :: cs => .star .start :: plainColumns cs
  | .qualifiedStar table _ :: cs => .qualifiedStar table .start :: plainColumns cs
  | .expr e label _ _ :: cs =>
    .expr e.plain label (Caption.ofTokens e.tokens) .start :: plainColumns cs

/-- Expressions to sort by without the places. -/
def plainTerms : List OrderingTerm → List OrderingTerm
  | [] => []
  | ⟨e, direction, _⟩ :: ts => ⟨e.plain, direction, .start⟩ :: plainTerms ts

/-- A condition without the places, if there is one. -/
def plainExpr? : Option Expr → Option Expr
  | none => none
  | some e => some e.plain

/-- A limit without the places, if there is one. -/
def plainLimit? : Option LimitClause → Option LimitClause
  | none => none
  | some ⟨count, offset, _⟩ => some ⟨count.plain, plainExpr? offset, .start⟩

/-- A statement without the places. -/
def Statement.plain : Statement → Statement
  | ⟨option, columns, source, condition, groupCondition, orderBy, limit⟩ =>
    ⟨option, plainColumns columns, source, plainExpr? condition, plainExpr? groupCondition,
      plainTerms orderBy, plainLimit? limit⟩

end

/-! ### Trees that can be printed -/

/-- What an operator asks of its right operand, given how that is printed at its place. -/
def BinaryOp.admits (op : BinaryOp) (right : Expr) (ts : List Token) : Prop :=
  match op with
  | .like | .notLike => Parse.isStringLiteral right = true
  | .membership | .notMembership => ts.head? ≠ some (.symbol .leftParen)
  | _ => True

mutual

/-- An expression that can be printed. A column has no database without a table, patterns of `LIKE`
are string literals, lists of items are not empty, and an operand behind `IN` that is no list is not
printed with a parenthesis first. -/
def Expr.Expressible : Expr → Prop
  | .literal _ | .parameter .. | .callStar .. => True
  | .column ref => ref.database.isSome = true → ref.table.isSome = true
  | .unary _ e => e.Expressible
  | .binary op l r => l.Expressible ∧ r.Expressible ∧
    op.admits r (operand op.tier.tighter r.tier r.tokens)
  | .between _ v low high => v.Expressible ∧ low.Expressible ∧ high.Expressible
  | .listed _ v items => v.Expressible ∧ items ≠ [] ∧ expressibleExprs items
  | .call _ args _ => expressibleExprs args
  | .existsRow s _ => s.Expressible

/-- Expressions that can be printed. -/
def expressibleExprs : List Expr → Prop
  | [] => True
  | e :: es => e.Expressible ∧ expressibleExprs es

/-- Result columns that can be printed. -/
def expressibleColumns : List ResultColumn → Prop
  | [] => True
  | .star _ :: cs | .qualifiedStar .. :: cs => expressibleColumns cs
  | .expr e _ _ _ :: cs => e.Expressible ∧ expressibleColumns cs

/-- Expressions to sort by that can be printed. -/
def expressibleTerms : List OrderingTerm → Prop
  | [] => True
  | ⟨e, _, _⟩ :: ts => e.Expressible ∧ expressibleTerms ts

/-- A condition that can be printed, if there is one. -/
def expressibleExpr? : Option Expr → Prop
  | none => True
  | some e => e.Expressible

/-- A limit that can be printed, if there is one. -/
def expressibleLimit? : Option LimitClause → Prop
  | none => True
  | some ⟨count, offset, _⟩ => count.Expressible ∧ expressibleExpr? offset

/-- A statement that can be printed: it has a column, and all its parts can be printed. -/
def Statement.Expressible : Statement → Prop
  | ⟨_, columns, _, condition, groupCondition, orderBy, limit⟩ =>
    columns ≠ [] ∧ expressibleColumns columns ∧ expressibleExpr? condition ∧
      expressibleExpr? groupCondition ∧ expressibleTerms orderBy ∧ expressibleLimit? limit

end

end RecordQuery
