import RecordQuery.Query.Fault

/-! # Queries that cannot be compiled

The causes for which a query has no program, and how messages say them. A text that is no query is
one of them.

A run can also end without a word: arithmetic on integers of a fixed width panics where its result
leaves their range, and a panic ends the whole program (`Stop`). -/

namespace RecordQuery

/-- How a run ends that has no result: with a fault that it tells, or by a panic. -/
inductive Stop (ε : Type) where
  | fault (e : ε)
  | panic

/-- A stop with another fault. -/
def Stop.map {ε δ : Type} (f : ε → δ) : Stop ε → Stop δ
  | fault e => fault (f e)
  | panic => panic

/-- How many arguments a function takes. -/
structure Arity where
  least : Nat
  most : Option Nat

/-- Whether a function takes a number of arguments. -/
def Arity.admits (a : Arity) (n : Nat) : Bool := a.least ≤ n && a.most.all (n ≤ ·)

/-- How messages name a number of arguments. -/
def Arity.text (a : Arity) : String :=
  match a.most with
  | none => "at least " ++ toString a.least
  | some m => if m = a.least then toString m else toString a.least ++ " to " ++ toString m

/-- What the grammar accepts and no program can express. -/
inductive Construct where
  | existsSubquery
  | starCall (function : String)
  | unknownFunction (function : String)
  | wrongArity (function : String) (given : Nat) (wanted : Arity)
  | parameterName (sigil : Char) (name : String)
  | likePattern (operand : String)
  | starAmongColumns
  | qualifiedStar (table : String)
  | orderPosition (index : Int64)
  | orderTerm

/-- How messages name what cannot be expressed. -/
def Construct.text : Construct → String
  | existsSubquery => "EXISTS subqueries"
  | starCall function => "aggregate call " ++ function ++ "(*)"
  | unknownFunction function => "function '" ++ function ++ "'"
  | wrongArity function given wanted =>
    function ++ "() with " ++ toString given ++ " argument(s), expected " ++ wanted.text
  | parameterName sigil name => "parameter name '" ++ sigil.toString ++ name ++ "'"
  | likePattern operand => "LIKE pattern " ++ operand ++ " (expected a string literal)"
  | starAmongColumns => "'*' combined with other result columns"
  | qualifiedStar table => "qualified star '" ++ table ++ ".*'"
  | orderPosition index => "positional ORDER BY term " ++ toString index.toInt ++ " with 'SELECT *'"
  | orderTerm => "ORDER BY terms other than output column names or positions"

/-- The causes for which a query has no program. -/
inductive CompileError where
  | grammar (e : ParseError)
  | unsupported (construct : Construct) (position : Position)
  | unknownOrderTerm (term : String) (position : Position)
  | orderIndexOutOfRange (index : Int64) (columns : Nat) (position : Position)
  | mixedDirections (position : Position)
  | invalidLimit (operand : String) (position : Position)

namespace CompileError

/-- The place in the query that an error points at. -/
def position : CompileError → Position
  | grammar e => e.position
  | unsupported _ p | unknownOrderTerm _ p | orderIndexOutOfRange _ _ p | mixedDirections p
  | invalidLimit _ p => p

/-- What a message says, without the place. -/
def text : CompileError → String
  | grammar e => e.fault.message
  | unsupported construct _ => "Unsupported: " ++ construct.text
  | unknownOrderTerm term _ =>
    "ORDER BY term '" ++ term ++ "' does not match any output column alias"
  | orderIndexOutOfRange index columns _ =>
    "ORDER BY term " ++ toString index.toInt ++ " is out of range - should be between 1 and " ++
      toString columns
  | mixedDirections _ => "ORDER BY terms must all use the same direction (ASC or DESC)"
  | invalidLimit operand _ =>
    "LIMIT and OFFSET must be integer literals, found '" ++ operand ++ "'"

/-- The message of an error with its place. -/
def message : CompileError → String
  | grammar e => "Syntax error: " ++ e.message
  | e => e.text ++ " at " ++ e.position.describe

/-- The messages of the causes behind an error, the nearest one first. -/
def causes : CompileError → List String
  | grammar e => [e.message]
  | _ => []

end CompileError

end RecordQuery
