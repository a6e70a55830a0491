import RecordQuery.Text.Character
import RecordQuery.Text.LowerCase
import RecordQuery.Text.Letter
import RecordQuery.Token.Basic
import RecordQuery.Token.Fault

/-! # Reading one token

Functions on the characters that are still unread. `skipTrivia` passes the blanks and comments in
front of a token; `scanToken` reads one token and gives what follows it. A fault found on the way is
kept with the count of characters between the start of the token and the place it is reported at,
and with what is left unread behind it. -/

namespace RecordQuery

-- Powers of natural numbers are those of the core library, whatever else is imported.
attribute [local instance (2000)] instPowNat

/-! ### Blanks and comments -/

/-- Where a reader of blanks stands: outside of comments, in a comment that ends with its line, or
in a comment that must be closed, together with the text from the start of that comment. -/
inductive Trivia where
  | outside
  | line
  | block (opening : List Char)

/-- Passes blanks and comments. A comment that is never closed gives the text from its start. -/
def skipTrivia : Trivia → List Char → Except (List Char) (List Char)
  | .block opening, [] => .error opening
  | _, [] => .ok []
  | .outside, c :: rest =>
    if isBlank c then skipTrivia .outside rest
    else match c, rest with
      | '-', '-' :: more => skipTrivia .line more
      | '/', '*' :: more => skipTrivia (.block (c :: rest)) more
      | _, _ => .ok (c :: rest)
  | .line, c :: rest => if c = '\n' then skipTrivia .outside rest else skipTrivia .line rest
  | .block opening, c :: rest =>
    match c, rest with
    | '*', '/' :: more => skipTrivia .outside more
    | _, rest => skipTrivia (.block opening) rest

/-! ### Parts of tokens -/

/-- Reads up to a closing quote: the content, and what follows the quote. Two quotes stand for one.
-/
def readEnclosed (quote : Char) : List Char → Option (List Char × List Char)
  | [] => none
  | c :: rest =>
    if c = quote then
      match rest with
      | [] => some ([], [])
      | d :: more =>
        if d = quote then (readEnclosed quote more).map fun (cs, rest) => (quote :: cs, rest)
        else some ([], d :: more)
    else (readEnclosed quote rest).map fun (cs, rest) => (c :: cs, rest)

/-- Splits off the digits at the start of a text. -/
def splitDigits (cs : List Char) : List Char × List Char :=
  (cs.takeWhile Char.isDigit, cs.dropWhile Char.isDigit)

/-- Splits off a point with digits behind it; the first part is empty where there is none. -/
def splitFraction : List Char → List Char × List Char
  | '.' :: rest => if (splitDigits rest).1.isEmpty then ([], '.' :: rest) else splitDigits rest
  | rest => ([], rest)

/-- Splits off an exponent: its letter, a sign if there is one, and at least one digit. -/
def splitExponent : List Char → Option (Option Char × List Char) × List Char
  | [] => (none, [])
  | c :: rest =>
    if c = 'e' ∨ c = 'E' then
      let (sign, digits) := match rest with
        | '+' :: more => (some '+', more)
        | '-' :: more => (some '-', more)
        | more => (none, more)
      if (splitDigits digits).1.isEmpty then (none, c :: rest)
      else (some (sign, (splitDigits digits).1), (splitDigits digits).2)
    else (none, c :: rest)

/-- Splits off a number. -/
def splitNumber (cs : List Char) : NumberLiteral × List Char :=
  let (whole, rest) := splitDigits cs
  let (fraction, rest) := splitFraction rest
  let (exponent, rest) := splitExponent rest
  (⟨whole, fraction, exponent⟩, rest)

/-- The symbol that a character starts, given the one behind it, and whether it takes both. -/
def symbolAt? (c : Char) (next : Option Char) : Option (Symbol × Bool) :=
  match c with
  | '(' => some (.leftParen, false)
  | ')' => some (.rightParen, false)
  | ',' => some (.comma, false)
  | ';' => some (.semicolon, false)
  | '*' => some (.star, false)
  | '/' => some (.slash, false)
  | '%' => some (.percent, false)
  | '+' => some (.plus, false)
  | '-' => some (.minus, false)
  | '&' => some (.ampersand, false)
  | '~' => some (.tilde, false)
  | '.' => if next.any Char.isDigit then none else some (.dot, false)
  | '|' => if next = some '|' then some (.concat, true) else some (.pipe, false)
  | '<' =>
    if next = some '<' then some (.shiftLeft, true)
    else if next = some '=' then some (.lessEqual, true)
    else if next = some '>' then some (.lessGreater, true)
    else some (.less, false)
  | '>' =>
    if next = some '>' then some (.shiftRight, true)
    else if next = some '=' then some (.greaterEqual, true)
    else some (.greater, false)
  | '=' => if next = some '=' then some (.doubleEqual, true) else some (.equal, false)
  | '!' => if next = some '=' then some (.notEqual, true) else none
  | _ => none

/-! ### Tokens -/

/-- A fault, and how many characters of its token stand before the place it is reported at. -/
structure Misread where
  fault : LexFault
  skipped : Nat

/-- The outcome of reading one token, and the characters left unread. -/
structure Scan where
  outcome : Except Misread Token
  rest : List Char

namespace Scan

/-- A token that was read. -/
def found (token : Token) (rest : List Char) : Scan := ⟨.ok token, rest⟩

/-- A fault reported at the start of its token. -/
def fail (fault : LexFault) (rest : List Char) : Scan := ⟨.error ⟨fault, 0⟩, rest⟩

/-- Text between quotes, of which the opening one stands behind `skipped` characters of its token.
-/
def enclosed (what : Enclosed) (quote : Char) (skipped : Nat) (body : List Char)
    (use : String → List Char → Scan) : Scan :=
  match readEnclosed quote body with
  | some (cs, rest) => use (String.ofList cs) rest
  | none => ⟨.error ⟨.unclosed what, skipped⟩, []⟩

/-- A number. -/
def number (cs : List Char) : Scan :=
  let (literal, rest) := splitNumber cs
  match literal.value? with
  | some n => found (.number n) rest
  | none => fail (.outOfRange literal.text) rest

/-- A word: a reserved one, or an identifier in lower case. -/
def word (cs : List Char) : Scan :=
  let letters := cs.takeWhile isWordChar
  let token := match Keyword.ofWord? letters with
    | some k => .keyword k
    | none => .identifier (lowerCase (String.ofList letters))
  found token (cs.dropWhile isWordChar)

/-- A blob, from the text behind its opening quote. -/
def blob (body : List Char) : Scan :=
  enclosed .blobLiteral '\'' 1 body fun content rest =>
    if content.isEmpty || !content.toList.all (fun c => (hexValue? c).isSome) then
      fail (.invalidBlob content) rest
    else found (.blob content) rest

/-- A numbered parameter, from the text behind its mark. -/
def numberedParameter (rest : List Char) : Scan :=
  let (digits, rest) := splitDigits rest
  let n := Decimal.natural digits
  if digits.isEmpty then found (.parameter .next) rest
  else if 0 < n ∧ n < 2 ^ (32 : Nat) then found (.parameter (.numbered (UInt32.ofNat n))) rest
  else fail (.invalidParameterNumber (String.ofList digits)) rest

/-- A named parameter, from the text behind its mark. -/
def namedParameter (sigil : Char) (rest : List Char) : Scan :=
  match rest with
  | [] => fail (.missingParameterName sigil) []
  | c :: body =>
    if c = '"' then
      enclosed .quotedIdentifier '"' 1 body fun name rest =>
        found (.parameter (.named sigil name)) rest
    else if isWordStart c then
      let name := lowerCase (String.ofList (rest.takeWhile isWordChar))
      found (.parameter (.named sigil name)) (rest.dropWhile isWordChar)
    else fail (.missingParameterName sigil) rest

end Scan

/-- Reads the token at the start of a text that starts with no blank and no comment. -/
def scanToken : List Char → Scan
  | [] => .found .endOfInput []
  | c :: rest =>
    match symbolAt? c rest.head? with
    | some (s, both) => .found (.symbol s) (if both then rest.drop 1 else rest)
    | none =>
      if c = '!' then .fail .loneExclamation (c :: rest)
      else if c = '\'' then .enclosed .stringLiteral c 0 rest fun s rest => .found (.string s) rest
      else if c = '"' then
        .enclosed .quotedIdentifier c 0 rest fun s rest => .found (.quotedIdentifier s) rest
      else if (c = 'x' ∨ c = 'X') ∧ rest.head? = some '\'' then .blob (rest.drop 1)
      else if c = '?' then .numberedParameter rest
      else if c = ':' ∨ c = '@' ∨ c = '$' then .namedParameter c rest
      else if c.isDigit ∨ c = '.' then .number (c :: rest)
      else if isWordStart c then .word (c :: rest)
      else .fail (.unexpectedCharacter c) (c :: rest)

end RecordQuery
