import RecordQuery.Token.Basic
import RecordQuery.Token.Fault

/-! # Faults of grammar

What can be wrong with the tokens of a query, and how messages say it. A fault of spelling is a
fault of the query as well. -/

namespace RecordQuery

/-- What a name stands for. -/
inductive NameRole where
  | tableName | columnLabel | sourceName | sourceLabel | functionName | columnName
  deriving DecidableEq

/-- How messages name the role of a name. -/
def NameRole.text : NameRole → String
  | tableName => "table name"
  | columnLabel => "column alias"
  | sourceName => "source name"
  | sourceLabel => "source alias"
  | functionName => "function name"
  | columnName => "column name"

/-- What the grammar wants at a place. -/
inductive Expected where
  | token (t : Token)
  | keyword (k : Keyword)
  | name (role : NameRole)
  | expression
  | endOfExpression
  | endOfStatement
  deriving DecidableEq

/-- How messages name what is wanted. -/
def Expected.text : Expected → String
  | token t => "'" ++ t.text ++ "'"
  | keyword k => k.text
  | name role => role.text
  | expression => "an expression"
  | endOfExpression => "end of expression"
  | endOfStatement => "end of statement"

/-- How messages name a token that is not wanted. -/
def Token.found : Token → String
  | .keyword k => "keyword " ++ k.text
  | .endOfInput => "end of input"
  | t => "'" ++ t.text ++ "'"

/-- The causes for which a text is no query. `tooDeep` marks the end of the bound on nested calls.
-/
inductive ParseFault where
  | spelling (fault : LexFault)
  | unexpected (expected : Expected) (found : Token)
  | reservedName (role : NameRole) (k : Keyword)
  | reservedInExpression (k : Keyword)
  | starInExpression
  | tooManyQualifiers
  | likePattern
  | groupBy
  | compound (k : Keyword)
  | secondSelect
  | tooDeep
  deriving DecidableEq

/-- What a message says about a fault. -/
def ParseFault.message : ParseFault → String
  | spelling fault => fault.message
  | unexpected expected found => "Expected " ++ expected.text ++ " but found " ++ found.found
  | reservedName role k =>
    "Expected " ++ role.text ++ " but found reserved keyword " ++ k.text ++
      " (quote it as \"" ++ k.text ++ "\")"
  | reservedInExpression k =>
    "Unexpected reserved keyword " ++ k.text ++ " in expression (quote identifiers as \"" ++
      k.text ++ "\")"
  | starInExpression => "'table.*' is only allowed as a result column"
  | tooManyQualifiers => "Column reference has more than two qualifiers"
  | likePattern => "LIKE pattern must be a string literal"
  | groupBy => "GROUP BY is not supported"
  | compound k => "Compound SELECT (" ++ k.text ++ ") is not supported"
  | secondSelect => "Only one SELECT statement is allowed per query"
  | tooDeep => "Query is nested too deeply"

/-- A fault and the place where it was found. -/
structure ParseError where
  fault : ParseFault
  position : Position
  deriving DecidableEq

/-- The message of a fault with its place. -/
def ParseError.message (e : ParseError) : String :=
  e.fault.message ++ " at " ++ e.position.describe

/-- A fault of spelling as a fault of the query. -/
def LexError.toParseError (e : LexError) : ParseError := ⟨.spelling e.fault, e.position⟩

end RecordQuery
