import RecordQuery.Text.Character

/-! # Quoted texts

Inside double quotes, the quote, the backslash and the characters below the space are written as
escapes; every other character stands for itself. `escape` chooses the short escape where there is
one. Reading accepts every escape of the format, and two escaped halves where a character needs
them, but no half that stands alone and no bare character below the space (`Quoted.readBody`).

Which escapes are written and which are read is documented of the package `serde_json`. -/

namespace RecordQuery.Json

namespace Quoted

/-- How a character is written between quotes. -/
def escapeChar (c : Char) : List Char :=
  if c = '"' then ['\\', '"']
  else if c = '\\' then ['\\', '\\']
  else if 0x20 ≤ c.toNat then [c]
  else if c = '\n' then ['\\', 'n']
  else if c = '\r' then ['\\', 'r']
  else if c = '\t' then ['\\', 't']
  else if c.toNat = 0x8 then ['\\', 'b']
  else if c.toNat = 0xc then ['\\', 'f']
  else ['\\', 'u', '0', '0', hexDigit (c.toNat / 16), hexDigit (c.toNat % 16)]

/-- How a text is written between quotes. -/
def escape (cs : List Char) : List Char := cs.flatMap escapeChar

/-- The place of a reader inside quotes: between characters, behind a backslash, in a code of four
digits (how many are owed, the value so far, and the first half if this is a second one), and at the
two characters that must follow a first half. -/
inductive State where
  | plain
  | escaped
  | code (owed value : Nat) (half : Option Nat)
  | backslash (half : Nat)
  | letter (half : Nat)

/-- The character of an escape of one letter. -/
def shortEscape? (c : Char) : Option Char :=
  match c with
  | '"' => some '"'
  | '\\' => some '\\'
  | '/' => some '/'
  | 'b' => some '\x08'
  | 'f' => some '\x0c'
  | 'n' => some '\n'
  | 'r' => some '\r'
  | 't' => some '\t'
  | _ => none

/-- What a finished code yields: a character, or the wait for its second half. -/
def finishCode (value : Nat) : Option Nat → Option (List Char × State)
  | none =>
    if 0xd800 ≤ value ∧ value < 0xdc00 then some ([], .backslash value)
    else if 0xdc00 ≤ value ∧ value < 0xe000 then none
    else some ([Char.ofNat value], .plain)
  | some half =>
    if 0xdc00 ≤ value ∧ value < 0xe000 then
      some ([Char.ofNat (0x10000 + (half - 0xd800) * 0x400 + (value - 0xdc00))], .plain)
    else none

/-- Reads one character inside quotes. -/
def step : State → Char → Option (List Char × State)
  | .plain, c =>
    if c = '\\' then some ([], .escaped)
    else if c.toNat < 0x20 then none
    else some ([c], .plain)
  | .escaped, c =>
    if c = 'u' then some ([], .code 4 0 none)
    else (shortEscape? c).map fun d => ([d], .plain)
  | .code owed value half, c => do
    let d ← hexValue? c
    if owed ≤ 1 then finishCode (value * 16 + d) half
    else some ([], .code (owed - 1) (value * 16 + d) half)
  | .backslash half, c => if c = '\\' then some ([], .letter half) else none
  | .letter half, c => if c = 'u' then some ([], .code 4 0 (some half)) else none

/-- Reads up to the closing quote: the characters denoted, and what follows the quote. -/
def readFrom : State → List Char → Option (List Char × List Char)
  | _, [] => none
  | state, c :: rest =>
    match state, c with
    | .plain, '"' => some ([], rest)
    | state, c => do
      let (shown, state) ← step state c
      let (cs, rest) ← readFrom state rest
      some (shown ++ cs, rest)

/-- Reads what follows an opening quote. -/
def readBody (cs : List Char) : Option (List Char × List Char) := readFrom .plain cs

end Quoted

/-- A text between quotes. -/
def quote (s : String) : String := String.ofList ('"' :: Quoted.escape s.toList ++ ['"'])

end RecordQuery.Json
