import RecordQuery.Token.Basic

/-! # The text of an expression

The canonical text of a run of tokens. It depends on the tokens alone, so spacing, comments and the
letter case of keywords never change it. Tokens are set apart by one space, except behind an opening
parenthesis, around a dot, in front of a closing parenthesis or a comma, between a bare name and the
parenthesis of its call, and behind a sign in front of an operand. A minus, plus or tilde is such a
sign where the token before it cannot end an operand (`Token.endsOperand`). -/

namespace RecordQuery

/-- Whether an operand can end with a token. -/
def Token.endsOperand : Token → Bool
  | .number _ | .string _ | .blob _ | .parameter _ | .identifier _ | .quotedIdentifier _ => true
  | .symbol .rightParen | .negated .null => true
  | .keyword .TRUE | .keyword .FALSE | .keyword .NULL | .keyword .NOTNULL | .keyword .ISNULL => true
  | .keyword .CURRENT_DATE | .keyword .CURRENT_TIME | .keyword .CURRENT_TIMESTAMP => true
  | _ => false

/-- Whether a token can stand in front of an operand as its sign. -/
def Token.canSign : Token → Bool
  | .symbol .minus | .symbol .plus | .symbol .tilde => true
  | _ => false

namespace Caption

/-- Whether a space stands between two tokens of which the first is no sign. -/
def spaced : Token → Token → Bool
  | _, .symbol .rightParen | _, .symbol .comma | _, .symbol .dot => false
  | .symbol .leftParen, _ | .symbol .dot, _ => false
  | .identifier _, .symbol .leftParen => false
  | _, _ => true

/-- The text of tokens behind another one, which is a sign or not. -/
def behind (before : Token) (sign : Bool) : List Token → String
  | [] => ""
  | t :: rest =>
    (if !sign && spaced before t then " " else "") ++ t.text ++
      behind t (t.canSign && !before.endsOperand) rest

/-- The text of a run of tokens. -/
def ofTokens : List Token → String
  | [] => ""
  | t :: rest => t.text ++ behind t t.canSign rest

end Caption

end RecordQuery
