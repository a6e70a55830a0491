import RecordQuery.Compile.QueryFunction
import RecordQuery.Compile.Names
import RecordQuery.Query.Tree

/-! # Compiling expressions

An expression becomes a filter on one record. A filter of more than one node is a group, or a call
of its own, so it can stand anywhere. An operand that is used twice, or that other operands must not
see as their input, is first bound to a variable. Operands are compiled from left to right, and a
variable is given out behind the operands that are compiled for it.

In a pattern of `LIKE`, `%` stands for any run of characters, `_` for one character, and every other
character for itself. `likeRegex` writes a pattern as a regular expression that must match a whole
text. Which characters get a backslash is what the package `regex` documents of its `escape`. -/

namespace RecordQuery

/-! ### Patterns of `LIKE` -/

/-- The characters that have a meaning of their own in regular expressions. -/
def isRegexMeta (c : Char) : Bool := "\\.+*?()|[]\x7b\x7d^$#&-~".toList.contains c

/-- What a character of a pattern matches, as a regular expression. -/
def likeChar (c : Char) : List Char :=
  if c = '%' then ['.', '*', '?']
  else if c = '_' then ['.']
  else if isRegexMeta c then ['\\', c]
  else [c]

/-- The regular expression of a pattern, tied to both ends of the text. -/
def likeRegex (pattern : String) : String :=
  String.ofList ('^' :: pattern.toList.flatMap likeChar ++ ['$'])

namespace Compile

/-! ### Parts of expressions -/

/-- The flags of every match of a pattern. -/
def matchFlags : String := "i"

/-- The current time in a format. -/
def nowAs (format : String) : Filter :=
  .group (.pipe (Filter.apply .now) (.call .strftime [.string format]))

/-- The filter of a literal. -/
def literal : Literal → Filter
  | .number n => .number n
  | .string s => .string s
  | .blob digits => .string digits
  | .boolean b => .boolean b
  | .null => .null
  | .currentTime => nowAs "%H:%M:%S"
  | .currentDate => nowAs "%Y-%m-%d"
  | .currentTimestamp => nowAs "%Y-%m-%d %H:%M:%S"

/-- The filter of an operator of one operand. -/
def unary : UnaryOp → Filter → Filter
  | .negate, f => .group (.negate (.group f))
  | .plus, f => f
  | .bitNot, f => .group (.operation .subtract (.negate (.group f)) (Filter.digit 1))
  | .not, f => .group (.pipe f (Filter.apply .not))
  | .isNull, f => .group (.operation .equal f .null)
  | .notNull, f => .group (.operation .notEqual f .null)

/-- A filter, and its negation where one is wanted. -/
def negatedIf (negated : Bool) (f : Filter) : Filter :=
  if negated then .pipe f (Filter.apply .not) else f

/-- A filter with a value bound to a variable. -/
def binding (value : Filter) (v : Variable) (body : Filter) : Filter :=
  .group (.bind (.group value) v body)

/-- Whether a value matches a regular expression. A null value never matches, negated or not. -/
def patternTest (value pattern : Filter) (negated : Bool) : Compile Filter := do
  let v ← freshVariable
  let test := .call .test [pattern, .string matchFlags]
  return binding value v (.cond (.operation .equal (.variable v) .null) (.boolean false)
    (.otherwise (.group (.pipe (.variable v) (.pipe (Filter.apply .tostring)
      (negatedIf negated test))))))

/-- Whether a value is one of some items. -/
def membership (negated : Bool) (value : Filter) (items : List Filter) : Compile Filter := do
  let v ← freshVariable
  return binding value v (negatedIf negated
    (.call .any [.sequence items, .operation .equal .identity (.variable v)]))

/-- Whether a value lies between two others, the ends included. -/
def range (negated : Bool) (value low high : Filter) : Compile Filter := do
  let v ← freshVariable
  let x : Filter := .variable v
  return binding value v (.group (
    if negated then .operation .or (.operation .less x low) (.operation .greater x high)
    else .operation .and (.operation .greaterEqual x low) (.operation .lessEqual x high)))

/-- The texts of two values one after the other, and null if one of them is null. -/
def concat (f g : Filter) : Filter :=
  .group (.pipe (.array (.sequence [f, g]))
    (.cond (.call .any [.elements, .operation .equal .identity .null]) .null
      (.otherwise (.pipe (.call .map [Filter.apply .tostring]) (Filter.apply .add)))))

/-- A power of two. -/
def powerOfTwo (f : Filter) : Filter := .call .pow [Filter.digit 2, f]

/-- How messages name an operand, and its place if it has one. -/
def describe : Expr → String × Position
  | .column ref => ("column '" ++ ref.column ++ "'", .start)
  | .parameter p position => ("bind parameter " ++ p.text, position)
  | .call name _ position | .callStar name position => ("call to " ++ name ++ "()", position)
  | .existsRow _ position => ("EXISTS subquery", position)
  | .literal _ => ("non-string literal", .start)
  | _ => ("expression", .start)

/-- The pattern that an expression writes out, if it is a string literal. -/
def pattern? : Expr → Option String
  | .literal (.string s) => some s
  | _ => none

/-- What an operator does with its two operands once they are compiled. -/
inductive Rule where
  | operator (op : Operator)
  | joined (f : Filter → Filter → Filter)
  | helper (h : Helper)
  | like (negated : Bool)
  | regexp (negated : Bool)
  | member (negated : Bool)

/-- The rule of an operator of two operands. -/
def rule : BinaryOp → Rule
  | .multiply => .operator .multiply
  | .divide => .operator .divide
  | .modulo => .operator .modulo
  | .add => .operator .add
  | .subtract => .operator .subtract
  | .less => .operator .less
  | .lessEqual => .operator .lessEqual
  | .greater => .operator .greater
  | .greaterEqual => .operator .greaterEqual
  | .equal | .doubleEqual | .is => .operator .equal
  | .notEqual | .lessGreater | .isNot => .operator .notEqual
  | .and => .operator .and
  | .or => .operator .or
  | .concat => .joined concat
  | .shiftLeft => .joined fun f g => .group (.operation .multiply f (powerOfTwo g))
  | .shiftRight => .joined fun f g =>
    .group (.pipe (.group (.operation .divide f (powerOfTwo g))) (Filter.apply .floor))
  | .bitAnd => .helper .bitAnd
  | .bitOr => .helper .bitOr
  | .like => .like false
  | .notLike => .like true
  | .regexp => .regexp false
  | .notRegexp => .regexp true
  | .membership => .member false
  | .notMembership => .member true

/-- The function of a call, if it takes that many arguments. -/
def function (name : String) (given : Nat) (position : Position) : Compile QueryFunction := do
  match QueryFunction.ofName? name with
  | none => throw (.fault (.unsupported (.unknownFunction name) position))
  | some f =>
    if f.arity.admits given then return f
    throw (.fault (.unsupported (.wrongArity f.name given f.arity) position))

/-- The filter of a call, whose arguments are bound to variables one after another. -/
def callFilter (f : QueryFunction) (args : List (Filter × Variable)) : Filter :=
  .group (args.foldr (fun (value, v) body => .bind (.group value) v body)
    (f.body (args.map fun (_, v) => .variable v)))

mutual

/-- Compiles an expression. -/
def expr : Expr → Compile Filter
  | .literal value => return literal value
  | .column ref => return .field ref.column
  | .parameter p position => parameter p position
  | .unary op e => do return unary op (← expr e)
  | .binary op left right =>
    match rule op with
    | .operator o => do
      let f ← expr left
      let g ← expr right
      return .group (.operation o f g)
    | .joined join => do
      let f ← expr left
      let g ← expr right
      return join f g
    | .helper h => do
      need h
      let f ← expr left
      let g ← expr right
      return .helper h f g
    | .like negated =>
      match pattern? right with
      | some s => do patternTest (← expr left) (.string (likeRegex s)) negated
      | none => throw (.fault (.unsupported (.likePattern (describe right).1) (describe right).2))
    | .regexp negated =>
      match pattern? right with
      | some s => do patternTest (← expr left) (.string s) negated
      | none => do
        let value ← expr left
        let pattern ← expr right
        let v ← freshVariable
        return binding pattern v (← patternTest value (.variable v) negated)
    | .member negated => do
      let value ← expr left
      let item ← expr right
      membership negated value [item]
  | .between negated value low high => do
    let x ← expr value
    let f ← expr low
    let g ← expr high
    range negated x f g
  | .listed negated value items => do
    let x ← expr value
    membership negated x (← exprs items)
  | .call name args position => do
    let f ← function name args.length position
    return callFilter f (← arguments args)
  | .callStar name position => throw (.fault (.unsupported (.starCall name) position))
  | .existsRow _ position => throw (.fault (.unsupported .existsSubquery position))

/-- Compiles expressions from left to right. -/
def exprs : List Expr → Compile (List Filter)
  | [] => return []
  | e :: es => do
    let f ← expr e
    return f :: (← exprs es)

/-- Compiles the arguments of a call, and gives out a variable for each. -/
def arguments : List Expr → Compile (List (Filter × Variable))
  | [] => return []
  | e :: es => do
    let f ← expr e
    let v ← freshVariable
    return (f, v) :: (← arguments es)

end

end Compile

end RecordQuery
