import RecordQuery.Query.Fault

/-! # Reading tokens

A `Cursor` stands at one token of a list that ends with the end of the input; it can move forward
only, and stays at the last token. A `Parse` reads from a cursor; where it fails, the cursor stays
at the place it had reached. -/

namespace RecordQuery

/-- The token to be read next, and those behind it. -/
structure Cursor where
  current : Lexeme
  later : List Lexeme

namespace Cursor

/-- The cursor at the first of a list of tokens. -/
def ofTokens? : List Lexeme → Option Cursor
  | [] => none
  | t :: rest => some ⟨t, rest⟩

/-- The token that is read next. -/
def token (c : Cursor) : Token := c.current.token

/-- The token behind that; at the last token, the last token itself. -/
def peek (c : Cursor) : Token := (c.later.headD c.current).token

/-- The cursor at the next token, if there is one. -/
def advance (c : Cursor) : Cursor :=
  match c.later with
  | [] => c
  | t :: rest => ⟨t, rest⟩

/-- The tokens from one cursor up to a later one. -/
def upTo (c : Cursor) (later : Cursor) : List Token :=
  ((c.current :: c.later).take (c.later.length - later.later.length)).map Lexeme.token

end Cursor

/-- A reader of tokens. -/
abbrev Parse := EStateM ParseError Cursor

namespace Parse

/-- Fails with a fault at a place. -/
def fail {α : Type} (fault : ParseFault) (position : Position) : Parse α := throw ⟨fault, position⟩

/-- Fails because the next token is not what the grammar wants. -/
def unexpected {α : Type} (expected : Expected) : Parse α := do
  let c ← get
  fail (.unexpected expected c.token) c.current.start

/-- Passes the next token. -/
def advance : Parse Unit := modify Cursor.advance

/-- Passes the next token if it is a given one. -/
def eat (t : Token) : Parse Bool := do
  if (← get).token = t then
    advance
    return true
  else
    return false

/-- Passes the next token if it is a given reserved word. -/
def eatKeyword (k : Keyword) : Parse Bool := eat (.keyword k)

/-- Passes a given symbol, or fails. -/
def expect (s : Symbol) : Parse Unit := do
  if ← eat (.symbol s) then return
  unexpected (.token (.symbol s))

/-- Passes a given reserved word, or fails. -/
def expectKeyword (k : Keyword) : Parse Unit := do
  if ← eatKeyword k then return
  unexpected (.keyword k)

/-- Reads a name, bare or quoted. -/
def name (role : NameRole) : Parse String := do
  let c ← get
  match c.token with
  | .identifier n | .quotedIdentifier n =>
    advance
    return n
  | .keyword k => fail (.reservedName role k) c.current.start
  | _ => unexpected (.name role)

/-- Reads a name behind `AS`, or a name that stands there without it. -/
def label? (role : NameRole) : Parse (Option String) := do
  if ← eatKeyword .AS then return some (← name role)
  if (← get).token.name?.isSome then return some (← name role)
  return none

/-- Reads items with commas between, at most `n + 1` of them. -/
def commaList {α : Type} (item : Parse α) : Nat → Parse (List α)
  | 0 => do return [← item]
  | n + 1 => do
    let first ← item
    if ← eat (.symbol .comma) then return first :: (← commaList item n)
    return [first]

/-- Reads items with commas between; the tokens left bound how many there can be. -/
def separated {α : Type} (item : Parse α) : Parse (List α) := do
  commaList item (← get).later.length

end Parse

end RecordQuery
