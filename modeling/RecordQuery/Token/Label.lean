import RecordQuery.Text.Shown
import RecordQuery.Token.Basic

/-! # Labels of tokens

The label of a token names its kind and, in parentheses, shows what it holds. Unlike its spelling it
tells all tokens apart: an integer from a decimal of the same value, a bare name from a quoted one,
and a text from the characters around it. -/

namespace RecordQuery

/-- The label of a reserved word. -/
def Keyword.label : Keyword → String
  | ALL => "All"
  | AND => "And"
  | AS => "As"
  | ASC => "Asc"
  | BETWEEN => "Between"
  | BY => "By"
  | CURRENT_DATE => "CurrentDate"
  | CURRENT_TIME => "CurrentTime"
  | CURRENT_TIMESTAMP => "CurrentTimestamp"
  | DESC => "Desc"
  | DISTINCT => "Distinct"
  | ELSE => "Else"
  | EXCEPT => "Except"
  | EXISTS => "Exists"
  | FALSE => "False"
  | FROM => "From"
  | GROUP => "Group"
  | HAVING => "Having"
  | IN => "In"
  | INTERSECT => "Intersect"
  | IS => "Is"
  | ISNULL => "IsNull"
  | LIKE => "Like"
  | LIMIT => "Limit"
  | NOT => "Not"
  | NOTNULL => "NotNull"
  | NULL => "Null"
  | OFFSET => "Offset"
  | ON => "On"
  | OR => "Or"
  | ORDER => "Order"
  | REGEXP => "Regexp"
  | SELECT => "Select"
  | TRUE => "True"
  | UNION => "Union"
  | WHERE => "Where"

/-- The label of a symbol. -/
def Symbol.label : Symbol → String
  | concat => "Concat"
  | star => "Star"
  | slash => "Slash"
  | percent => "Percent"
  | plus => "Plus"
  | minus => "Minus"
  | shiftLeft => "ShiftLeft"
  | shiftRight => "ShiftRight"
  | ampersand => "Ampersand"
  | pipe => "Pipe"
  | tilde => "Tilde"
  | less => "Lt"
  | lessEqual => "LtEq"
  | greater => "Gt"
  | greaterEqual => "GtEq"
  | equal => "Eq"
  | doubleEqual => "EqEq"
  | notEqual => "NotEq"
  | lessGreater => "LtGt"
  | leftParen => "LParen"
  | rightParen => "RParen"
  | comma => "Comma"
  | dot => "Dot"
  | semicolon => "Semicolon"

/-- The label of an operator that begins with `NOT`. -/
def Negatable.label : Negatable → String
  | null => "NotNullOp"
  | between => "NotBetween"
  | membership => "NotIn"
  | like => "NotLike"
  | regexp => "NotRegexp"

/-- Floating point numbers from `1e-4` and below `1e16` are shown without an exponent. -/
def Number.shownStyle : FloatStyle := ⟨-4, 16, false, true⟩

namespace Token

/-- The name of a kind, and what is held in parentheses. -/
def tagged (kind content : String) : String := kind ++ "(" ++ content ++ ")"

/-- The label of a parameter. -/
def parameterLabel : Parameter → String
  | .next => tagged "Positional" "None"
  | .numbered n => tagged "Positional" (tagged "Some" (toString n.toNat))
  | .named sigil name => "Named \x7b prefix: " ++ String.ofList (showChars '\'' [sigil]) ++
      ", name: " ++ showText name ++ " \x7d"

/-- The label of a token. -/
def label : Token → String
  | number (.integer n) => tagged "Integer" (toString n.toInt)
  | number (.real d) => tagged "Real" d.text
  | number (.float x) => tagged "Float" (Number.shownStyle.write x)
  | string s => tagged "String" (showText s)
  | blob digits => tagged "Blob" (showText digits)
  | parameter p => tagged "Parameter" (parameterLabel p)
  | identifier name => tagged "Identifier" (showText name)
  | quotedIdentifier name => tagged "QuotedIdentifier" (showText name)
  | keyword k => tagged "Keyword" k.label
  | negated n => n.label
  | symbol s => s.label
  | endOfInput => "Eof"

example : (parameter (.named ':' "a\"b")).label =
    "Parameter(Named \x7b prefix: ':', name: \"a\\\"b\" \x7d)" := by decide

end Token

end RecordQuery
