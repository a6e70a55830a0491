import RecordQuery.Text.Position

/-! # Faults of spelling

What can be wrong with the text of a query before its grammar matters, and how messages say it. -/

namespace RecordQuery

/-- The things that stand between quotes. -/
inductive Enclosed where
  | stringLiteral | quotedIdentifier | blobLiteral
  deriving DecidableEq

/-- How messages name what stands between quotes. -/
def Enclosed.text : Enclosed → String
  | stringLiteral => "string literal"
  | quotedIdentifier => "quoted identifier"
  | blobLiteral => "blob literal"

/-- The causes for which a text has no tokens. -/
inductive LexFault where
  | unclosedComment
  | unclosed (what : Enclosed)
  | invalidBlob (content : String)
  | invalidParameterNumber (digits : String)
  | missingParameterName (sigil : Char)
  | loneExclamation
  | unexpectedCharacter (c : Char)
  | outOfRange (number : String)
  deriving DecidableEq

/-- What a message says about a fault. -/
def LexFault.message : LexFault → String
  | unclosedComment => "Unterminated block comment"
  | unclosed what => "Unterminated " ++ what.text
  | invalidBlob content => "Invalid blob literal x'" ++ content ++ "'"
  | invalidParameterNumber digits => "Invalid parameter number ?" ++ digits
  | missingParameterName sigil => "Expected parameter name after '" ++ sigil.toString ++ "'"
  | loneExclamation => "Unexpected '!' (did you mean '!=' or NOT?)"
  | unexpectedCharacter c => "Unexpected character '" ++ c.toString ++ "'"
  | outOfRange number => "Numeric literal out of range: " ++ number

/-- A fault and the place where it was found. -/
structure LexError where
  fault : LexFault
  position : Position
  deriving DecidableEq

/-- The message of a fault with its place. -/
def LexError.message (e : LexError) : String :=
  e.fault.message ++ " at " ++ e.position.describe

end RecordQuery
