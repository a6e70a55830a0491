import RecordQuery.Number.Literal
import RecordQuery.Text.Position
import RecordQuery.Token.Keyword

/-! # Tokens

The tokens of a query: numbers, quoted texts, parameters, names, reserved words, the operators that
begin with `NOT`, and symbols. `Token.text` is the canonical spelling of a token; two quotes stand
for one inside quotes of either kind. -/

namespace RecordQuery

/-- Operators and punctuation marks. -/
inductive Symbol where
  | concat | star | slash | percent | plus | minus | shiftLeft | shiftRight | ampersand | pipe
  | tilde | less | lessEqual | greater | greaterEqual | equal | doubleEqual | notEqual
  | lessGreater | leftParen | rightParen | comma | dot | semicolon
  deriving DecidableEq

/-- The spelling of a symbol. -/
def Symbol.text : Symbol → String
  | concat => "||"
  | star => "*"
  | slash => "/"
  | percent => "%"
  | plus => "+"
  | minus => "-"
  | shiftLeft => "<<"
  | shiftRight => ">>"
  | ampersand => "&"
  | pipe => "|"
  | tilde => "~"
  | less => "<"
  | lessEqual => "<="
  | greater => ">"
  | greaterEqual => ">="
  | equal => "="
  | doubleEqual => "=="
  | notEqual => "!="
  | lessGreater => "<>"
  | leftParen => "("
  | rightParen => ")"
  | comma => ","
  | dot => "."
  | semicolon => ";"

/-- A marker for a value bound from outside: the next number, a given number, or a name behind one
of `:`, `@` and `$`. -/
inductive Parameter where
  | next
  | numbered (n : UInt32)
  | named (sigil : Char) (name : String)
  deriving DecidableEq

/-- The spelling of a parameter. -/
def Parameter.text : Parameter → String
  | next => "?"
  | numbered n => "?" ++ toString n.toNat
  | named sigil name => sigil.toString ++ name

/-- A token of a query. -/
inductive Token where
  | number (n : Number)
  | string (s : String)
  | blob (digits : String)
  | parameter (p : Parameter)
  | identifier (name : String)
  | quotedIdentifier (name : String)
  | keyword (k : Keyword)
  | negated (n : Negatable)
  | symbol (s : Symbol)
  | endOfInput
  deriving DecidableEq

namespace Token

/-- A text between quotes, with every quote in it written twice. -/
def enclose (quote : Char) (s : String) : String :=
  String.ofList (quote :: s.toList.flatMap (fun c => if c = quote then [c, c] else [c]) ++ [quote])

/-- The canonical spelling of a token. -/
def text : Token → String
  | number n => n.text
  | string s => enclose '\'' s
  | blob digits => "x'" ++ digits ++ "'"
  | parameter p => p.text
  | identifier name => name
  | quotedIdentifier name => enclose '"' name
  | keyword k => k.text
  | negated n => "NOT " ++ n.keyword.text
  | symbol s => s.text
  | endOfInput => "end of input"

/-- The name that a bare or quoted identifier holds. -/
def name? : Token → Option String
  | identifier name | quotedIdentifier name => some name
  | _ => none

end Token

/-- A token with the place where it starts and the offset behind its last character. -/
structure Lexeme where
  token : Token
  start : Position
  stop : Nat
  deriving DecidableEq

end RecordQuery
