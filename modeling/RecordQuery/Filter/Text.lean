import RecordQuery.Filter.Basic
import RecordQuery.Json.Quoted

/-! # The text of a filter

Every node writes its parts one after another. A text is written as JSON writes it, which never
yields a backslash in front of a parenthesis, so no text is read as more than a text. -/

namespace RecordQuery

namespace Filter

mutual

/-- The text of a filter. -/
def text : Filter → String
  | .identity => "."
  | .elements => ".[]"
  | .first => ".[0]"
  | .field name => ".[" ++ Json.quote name ++ "]"
  | .slice low high => ".[" ++ boundText low ++ ":" ++ boundText high ++ "]"
  | .number n => n.text
  | .string s => Json.quote s
  | .boolean b => if b then "true" else "false"
  | .null => "null"
  | .variable v => "$" ++ v.name
  | .group f => "(" ++ f.text ++ ")"
  | .array f => "[" ++ f.text ++ "]"
  | .object entries => "\x7b" ++ entriesText entries ++ "\x7d"
  | .sequence fs => joinedText ", " fs
  | .pipe f g => f.text ++ " | " ++ g.text
  | .negate f => "-" ++ f.text
  | .operation op f g => f.text ++ " " ++ op.text ++ " " ++ g.text
  | .bind value v body => value.text ++ " as $" ++ v.name ++ " | " ++ body.text
  | .cond test yes rest => "if " ++ test.text ++ " then " ++ yes.text ++ branchText rest ++ " end"
  | .call b [] => b.name
  | .call b (f :: fs) => b.name ++ "(" ++ joinedText "; " (f :: fs) ++ ")"
  | .helper h f g => h.name ++ "(" ++ f.text ++ "; " ++ g.text ++ ")"

/-- The text of a bound of a slice. -/
def boundText : Option Filter → String
  | none => ""
  | some f => f.text

/-- The texts of filters with a mark between. -/
def joinedText (mark : String) : List Filter → String
  | [] => ""
  | [f] => f.text
  | f :: fs => f.text ++ mark ++ joinedText mark fs

/-- The entries of an object, the values in parentheses. -/
def entriesText : List (String × Filter) → String
  | [] => ""
  | [(key, f)] => Json.quote key ++ ": (" ++ f.text ++ ")"
  | (key, f) :: rest => Json.quote key ++ ": (" ++ f.text ++ "), " ++ entriesText rest

/-- The text of the branches behind the first one. -/
def branchText : Branch → String
  | .otherwise f => " else " ++ f.text
  | .elseIf test yes rest => " elif " ++ test.text ++ " then " ++ yes.text ++ branchText rest

end

end Filter

/-- The text of the definition of a function. -/
def Helper.text (h : Helper) : String :=
  "def " ++ h.name ++ "($a; $b): " ++ (Filter.definition h).text ++ ";"

/-- The text of the definitions in front of a filter. -/
def Helper.prelude (hs : List Helper) : String := String.join (hs.map fun h => h.text ++ " ")

end RecordQuery
