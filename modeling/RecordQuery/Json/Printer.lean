import RecordQuery.Json.Value

/-! # Writing JSON

Compact text has no blanks at all. Indented text has one item or member a line, two more spaces for
each level, and writes an empty array or object as compact text does. These are the two layouts that
the package `serde_json` documents, with its notation of floating point numbers. -/

namespace RecordQuery.Json

/-- Floating point numbers are positional from `1e-5` to below `1e16`, a positive exponent has a
sign, and a tie goes to the even neighbour. -/
def floatStyle : FloatStyle := ⟨-5, 16, true, false⟩

mutual

/-- A value as compact text. -/
def compact : Json → String
  | .null => "null"
  | .boolean b => if b then "true" else "false"
  | .integer n => toString n
  | .float x => floatStyle.write x
  | .string s => quote s
  | .array items => "[" ++ compactItems items ++ "]"
  | .object members => "\x7b" ++ compactMembers members ++ "\x7d"

/-- Values as compact text with commas between. -/
def compactItems : List Json → String
  | [] => ""
  | [v] => v.compact
  | v :: rest => v.compact ++ "," ++ compactItems rest

/-- Members as compact text with commas between. -/
def compactMembers : List (String × Json) → String
  | [] => ""
  | [(k, v)] => quote k ++ ":" ++ v.compact
  | (k, v) :: rest => quote k ++ ":" ++ v.compact ++ "," ++ compactMembers rest

end

/-- A new line at a level of indentation. -/
def newLine (level : Nat) : String := "\n" ++ String.ofList (List.replicate (2 * level) ' ')

mutual

/-- A value as indented text, the lines behind the first one at `level` or deeper. -/
def indented (level : Nat) : Json → String
  | .array (v :: rest) => "[" ++ indentedItems level (v :: rest) ++ newLine level ++ "]"
  | .object (m :: rest) => "\x7b" ++ indentedMembers level (m :: rest) ++ newLine level ++ "\x7d"
  | v => v.compact

/-- Values on lines of their own. -/
def indentedItems (level : Nat) : List Json → String
  | [] => ""
  | [v] => newLine (level + 1) ++ v.indented (level + 1)
  | v :: rest => newLine (level + 1) ++ v.indented (level + 1) ++ "," ++ indentedItems level rest

/-- Members on lines of their own. -/
def indentedMembers (level : Nat) : List (String × Json) → String
  | [] => ""
  | [(k, v)] => newLine (level + 1) ++ quote k ++ ": " ++ v.indented (level + 1)
  | (k, v) :: rest =>
    newLine (level + 1) ++ quote k ++ ": " ++ v.indented (level + 1) ++ "," ++
      indentedMembers level rest

end

/-- A value as indented text. -/
def pretty (v : Json) : String := v.indented 0

end RecordQuery.Json
