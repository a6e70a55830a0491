import RecordQuery.Token.Basic

/-! # Operators and their tiers

A tier is one level of the grammar of expressions; `Tier.tighter` is the next level down. Operators
of one tier take operands of the next one, and those of two operands group to the left.
`BinaryOp.ofToken?` says which operator a token is at a tier. -/

namespace RecordQuery

/-- Operators of one operand: the first four stand in front of it, the others behind. -/
inductive UnaryOp where
  | negate | plus | bitNot | not | isNull | notNull
  deriving DecidableEq

/-- Operators of two operands; `membership` and `notMembership` are `IN` and `NOT IN` with an
operand that is no list in parentheses. -/
inductive BinaryOp where
  | concat | multiply | divide | modulo | add | subtract | shiftLeft | shiftRight | bitAnd | bitOr
  | less | lessEqual | greater | greaterEqual | equal | doubleEqual | notEqual | lessGreater
  | is | isNot | like | notLike | regexp | notRegexp | membership | notMembership | and | or
  deriving DecidableEq

/-- The spelling of an operator. -/
def BinaryOp.text : BinaryOp → String
  | concat => "||"
  | multiply => "*"
  | divide => "/"
  | modulo => "%"
  | add => "+"
  | subtract => "-"
  | shiftLeft => "<<"
  | shiftRight => ">>"
  | bitAnd => "&"
  | bitOr => "|"
  | less => "<"
  | lessEqual => "<="
  | greater => ">"
  | greaterEqual => ">="
  | equal => "="
  | doubleEqual => "=="
  | notEqual => "!="
  | lessGreater => "<>"
  | is => "IS"
  | isNot => "IS NOT"
  | like => "LIKE"
  | notLike => "NOT LIKE"
  | regexp => "REGEXP"
  | notRegexp => "NOT REGEXP"
  | membership => "IN"
  | notMembership => "NOT IN"
  | and => "AND"
  | or => "OR"

/-- The levels of the grammar of expressions, loosest first. `nullTest` holds `ISNULL` and `NOT
NULL` behind an operand, `sign` holds the operators in front of one. -/
inductive Tier where
  | or | and | membership | between | comparison | relational | bitwise | additive | multiplicative
  | concat | nullTest | sign | primary
  deriving DecidableEq

/-- The next tighter tier; the tightest one is its own. -/
def Tier.tighter : Tier → Tier
  | or => and
  | and => membership
  | membership => between
  | between => comparison
  | comparison => relational
  | relational => bitwise
  | bitwise => additive
  | additive => multiplicative
  | multiplicative => concat
  | concat => nullTest
  | nullTest => sign
  | sign => primary
  | primary => primary

/-- The operator of two operands that a token is at a tier, apart from `IS` and `IN`, which take
more than one token to tell. -/
def BinaryOp.ofToken? : Tier → Token → Option BinaryOp
  | .or, .keyword .OR => some or
  | .and, .keyword .AND => some and
  | .comparison, .symbol .equal => some equal
  | .comparison, .symbol .doubleEqual => some doubleEqual
  | .comparison, .symbol .notEqual => some notEqual
  | .comparison, .symbol .lessGreater => some lessGreater
  | .comparison, .keyword .LIKE => some like
  | .comparison, .negated .like => some notLike
  | .comparison, .keyword .REGEXP => some regexp
  | .comparison, .negated .regexp => some notRegexp
  | .relational, .symbol .less => some less
  | .relational, .symbol .lessEqual => some lessEqual
  | .relational, .symbol .greater => some greater
  | .relational, .symbol .greaterEqual => some greaterEqual
  | .bitwise, .symbol .shiftLeft => some shiftLeft
  | .bitwise, .symbol .shiftRight => some shiftRight
  | .bitwise, .symbol .ampersand => some bitAnd
  | .bitwise, .symbol .pipe => some bitOr
  | .additive, .symbol .plus => some add
  | .additive, .symbol .minus => some subtract
  | .multiplicative, .symbol .star => some multiply
  | .multiplicative, .symbol .slash => some divide
  | .multiplicative, .symbol .percent => some modulo
  | .concat, .symbol .concat => some concat
  | _, _ => none

/-- The operator that stands in front of its operand and is one token. -/
def UnaryOp.leading? : Token → Option UnaryOp
  | .symbol .minus => some negate
  | .symbol .plus => some plus
  | .symbol .tilde => some bitNot
  | .keyword .NOT => some not
  | _ => none

/-- The operator that stands behind its operand. -/
def UnaryOp.trailing? : Token → Option UnaryOp
  | .keyword .ISNULL => some isNull
  | .keyword .NOTNULL | .negated .null => some notNull
  | _ => none

end RecordQuery
