import RecordQuery.Number.Literal

/-! # Filters

The part of the jq language that queries are compiled into, as a tree. A filter maps an input to a
run of outputs; `identity` gives its input. Parentheses are nodes of the tree (`group`), so its text
is written without any rule of precedence. -/

namespace RecordQuery

/-- A variable: one that the compiler binds, numbered; the one that holds the place of a found text;
and one that is bound from outside, by its name. -/
inductive Variable where
  | bound (n : Nat)
  | place
  | named (name : String)
  deriving DecidableEq

/-- What the names of numbered variables begin with. -/
def Variable.stem : String := "__mql_v"

/-- The name of a variable, without the dollar sign. -/
def Variable.name : Variable → String
  | bound n => stem ++ toString n
  | place => "__mql_i"
  | named name => name

/-- The functions that filters call. -/
inductive Builtin where
  | add | any | asciiDowncase | asciiUpcase | floor | index | length | map | not | now | pow
  | reverse | round | select | sortBy | strftime | sub | test | tostring | type | unique
  deriving DecidableEq

/-- The name of a function. -/
def Builtin.name : Builtin → String
  | add => "add"
  | any => "any"
  | asciiDowncase => "ascii_downcase"
  | asciiUpcase => "ascii_upcase"
  | floor => "floor"
  | index => "index"
  | length => "length"
  | map => "map"
  | not => "not"
  | now => "now"
  | pow => "pow"
  | reverse => "reverse"
  | round => "round"
  | select => "select"
  | sortBy => "sort_by"
  | strftime => "strftime"
  | sub => "sub"
  | test => "test"
  | tostring => "tostring"
  | type => "type"
  | unique => "unique"

/-- The functions that a program defines itself. -/
inductive Helper where
  | bitAnd | bitOr
  deriving DecidableEq

/-- The name of a defined function. -/
def Helper.name : Helper → String
  | bitAnd => "_mql_bitand"
  | bitOr => "_mql_bitor"

/-- Operators between two filters. -/
inductive Operator where
  | multiply | divide | modulo | add | subtract | less | lessEqual | greater | greaterEqual | equal
  | notEqual | and | or
  deriving DecidableEq

/-- The spelling of an operator. -/
def Operator.text : Operator → String
  | multiply => "*"
  | divide => "/"
  | modulo => "%"
  | add => "+"
  | subtract => "-"
  | less => "<"
  | lessEqual => "<="
  | greater => ">"
  | greaterEqual => ">="
  | equal => "=="
  | notEqual => "!="
  | and => "and"
  | or => "or"

mutual

/-- A filter. `elements` gives the items of an array, `first` its first item, `field` the value of a
key, `slice` a part of an array or text; `sequence` joins the outputs of filters. -/
inductive Filter where
  | identity
  | elements
  | first
  | field (name : String)
  | slice (low high : Option Filter)
  | number (n : Number)
  | string (s : String)
  | boolean (b : Bool)
  | null
  | variable (v : Variable)
  | group (f : Filter)
  | array (f : Filter)
  | object (entries : List (String × Filter))
  | sequence (fs : List Filter)
  | pipe (f g : Filter)
  | negate (f : Filter)
  | operation (op : Operator) (f g : Filter)
  | bind (value : Filter) (v : Variable) (body : Filter)
  | cond (test yes : Filter) (rest : Branch)
  | call (b : Builtin) (args : List Filter)
  | helper (h : Helper) (f g : Filter)

/-- What follows the first branch of a conditional. -/
inductive Branch where
  | otherwise (f : Filter)
  | elseIf (test yes : Filter) (rest : Branch)

end

namespace Filter

/-- A small number. -/
def digit (n : Nat) : Filter := .number (.integer (Int64.ofNat n))

/-- A call without arguments. -/
def apply (b : Builtin) : Filter := .call b []

/-- The body of a defined function, with its arguments in the variables `a` and `b`. It computes on
the binary digits of integers that are not negative, the lowest one first. -/
def definition : Helper → Filter
  | .bitAnd =>
    .cond (.operation .or (.operation .equal a (digit 0)) (.operation .equal b (digit 0))) (digit 0)
      (.otherwise (.operation .add (.group both) (higher .bitAnd)))
  | .bitOr =>
    .cond (.operation .equal a (digit 0)) b
      (.elseIf (.operation .equal b (digit 0)) a
        (.otherwise (.operation .add
          (.group (.group (.operation .subtract (.operation .add low.1 low.2) both)))
          (higher .bitOr))))
where
  a : Filter := .variable (.named "a")
  b : Filter := .variable (.named "b")
  low : Filter × Filter :=
    (.group (.operation .modulo a (digit 2)), .group (.operation .modulo b (digit 2)))
  both : Filter := .operation .multiply low.1 low.2
  half (f : Filter) : Filter :=
    .group (.pipe (.operation .divide f (digit 2)) (apply .floor))
  higher (h : Helper) : Filter := .operation .multiply (digit 2) (.helper h (half a) (half b))

end Filter

end RecordQuery
