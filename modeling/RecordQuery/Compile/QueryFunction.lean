import RecordQuery.Compile.Error
import RecordQuery.Filter.Basic

/-! # Functions of queries

The functions that a query can call, how many arguments each takes, and the filter that computes it
from variables that hold its arguments. Most of them give null for null. -/

namespace RecordQuery

/-- The functions that a query can call. -/
inductive QueryFunction where
  | lower | upper | length | abs | round | trim | ltrim | rtrim | coalesce | ifnull | nullif
  | substr | typeof | instr
  deriving DecidableEq

namespace QueryFunction

/-- The name of a function. -/
def name : QueryFunction → String
  | lower => "lower"
  | upper => "upper"
  | length => "length"
  | abs => "abs"
  | round => "round"
  | trim => "trim"
  | ltrim => "ltrim"
  | rtrim => "rtrim"
  | coalesce => "coalesce"
  | ifnull => "ifnull"
  | nullif => "nullif"
  | substr => "substr"
  | typeof => "typeof"
  | instr => "instr"

/-- All functions. -/
def all : List QueryFunction := [lower, upper, length, abs, round, trim, ltrim, rtrim, coalesce,
  ifnull, nullif, substr, typeof, instr]

/-- A name with its ASCII letters in lower case. -/
def fold (name : String) : String := String.ofList (name.toList.map Char.toLower)

/-- The function of a name, ASCII case aside. -/
def ofName? (name : String) : Option QueryFunction := all.find? fun f => f.name == fold name

/-- How many arguments a function takes. -/
def arity : QueryFunction → Arity
  | lower | upper | length | abs | trim | ltrim | rtrim | typeof => ⟨1, some 1⟩
  | round => ⟨1, some 2⟩
  | coalesce => ⟨2, none⟩
  | ifnull | nullif | instr => ⟨2, some 2⟩
  | substr => ⟨2, some 3⟩

/-! ### Bodies -/

open RecordQuery.Filter

/-- Whether the input is null. -/
def isNull : Filter := .operation .equal .identity .null

/-- Null for null, and else what a filter makes of a value. -/
def unlessNull (value f : Filter) : Filter := .pipe value (.cond isNull .null (.otherwise f))

/-- What a filter makes of the text of a value, and null for null. -/
def onText (value f : Filter) : Filter := unlessNull value (.pipe (apply .tostring) f)

/-- Removes what a regular expression matches. -/
def removing (regex : String) : Filter := .call .sub [.string regex, .string ""]

/-- The first value that is not null. -/
def firstPresent (values : List Filter) : Filter :=
  .pipe (.array (.pipe (.group (.sequence values))
    (.call .select [.operation .notEqual .identity .null]))) .first

/-- Rounds a value to a number of digits. -/
def roundTo (value digits : Filter) : Filter :=
  let scale := .call .pow [digit 10, digits]
  unlessNull value (.operation .divide
    (.group (.pipe (.operation .multiply .identity scale) (apply .round))) scale)

/-- The name of the kind of a value. -/
def kindName (value : Filter) : Filter :=
  let is (kind : String) : Filter := .operation .equal (apply .type) (.string kind)
  .pipe value (.cond isNull (.string "null") (.elseIf (is "number")
    (.group (.cond (.operation .equal .identity (apply .floor)) (.string "integer")
      (.otherwise (.string "real"))))
    (.elseIf (is "string") (.string "text") (.otherwise (apply .type)))))

/-- The place of a text in another one, counted from one, and zero where it does not occur. -/
def placeOf (value part : Filter) : Filter :=
  let i : Filter := .variable .place
  let found : Filter := .group (.pipe value (.pipe (apply .tostring)
    (.call .index [.pipe part (apply .tostring)])))
  .cond (.operation .or (.operation .equal value .null) (.operation .equal part .null)) .null
    (.otherwise (.bind found .place (.cond (.operation .equal i .null) (digit 0)
      (.otherwise (.operation .add i (digit 1))))))

/-- The filter that computes a function from its arguments; null for a number of arguments that the
function does not take. -/
def body : QueryFunction → List Filter → Filter
  | lower, [a] => onText a (apply .asciiDowncase)
  | upper, [a] => onText a (apply .asciiUpcase)
  | length, [a] => onText a (apply .length)
  | abs, [a] => .pipe a (.cond isNull .null (.elseIf (.operation .less .identity (digit 0))
      (.negate .identity) (.otherwise .identity)))
  | round, [a] => unlessNull a (apply .round)
  | round, [a, digits] => roundTo a digits
  | trim, [a] => onText a (.pipe (removing "^\\s+") (removing "\\s+$"))
  | ltrim, [a] => onText a (removing "^\\s+")
  | rtrim, [a] => onText a (removing "\\s+$")
  | coalesce, args => firstPresent args
  | ifnull, args => firstPresent args
  | nullif, [a, b] => .cond (.operation .equal a b) .null (.otherwise a)
  | substr, [a, start] =>
    onText a (.slice (some (.group (.operation .subtract start (digit 1)))) none)
  | substr, [a, start, count] =>
    let before : Filter := .operation .subtract start (digit 1)
    onText a (.slice (some (.group before)) (some (.group (.operation .add before count))))
  | typeof, [a] => kindName a
  | instr, [a, b] => placeOf a b
  | _, _ => .null

end QueryFunction

end RecordQuery
