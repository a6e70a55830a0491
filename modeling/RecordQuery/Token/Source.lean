import RecordQuery.Token.Scan

/-! # The unread part of a query

A `Source` is what is left of a query text and the place where it begins. `Source.next` reads one
token with the blanks and comments in front of it; it leaves a source behind also when it fails. A
text of `n` characters has at most `n + 1` tokens, since only the end of the input is empty.

`Source.tokens` reads up to the end of the input. A `NOT` directly in front of one of the
`Negatable` keywords becomes one token with it, so that it belongs to that operator and not to what
follows. -/

namespace RecordQuery

/-- The characters left of a query, and the place of the first one. -/
structure Source where
  position : Position
  rest : List Char

namespace Source

/-- A whole query text. -/
def ofString (s : String) : Source := ⟨.start, s.toList⟩

/-- Moves to a later part of the text. -/
def moveTo (s : Source) (rest : List Char) : Source :=
  ⟨s.position.after (s.rest.take (s.rest.length - rest.length)), rest⟩

/-- Reads one token. -/
def next (s : Source) : Except LexError Lexeme × Source :=
  match skipTrivia .outside s.rest with
  | .error opening => (.error ⟨.unclosedComment, (s.moveTo opening).position⟩, s.moveTo [])
  | .ok rest =>
    let here := s.moveTo rest
    let scan := scanToken rest
    let behind := here.moveTo scan.rest
    match scan.outcome with
    | .ok token => (.ok ⟨token, here.position, behind.position.offset⟩, behind)
    | .error m => (.error ⟨m.fault, here.position.after (rest.take m.skipped)⟩, behind)

/-- The token that a `NOT` forms with the one behind it. -/
def fuse? (first second : Lexeme) : Option Lexeme :=
  match first.token, second.token with
  | .keyword .NOT, .keyword k =>
    (Negatable.ofKeyword? k).map fun n => ⟨.negated n, first.start, second.stop⟩
  | _, _ => none

/-- Adds a token to the ones before it, the last one first. -/
def push : List Lexeme → Lexeme → List Lexeme
  | [], t => [t]
  | last :: before, t =>
    match fuse? last t with
    | some both => both :: before
    | none => t :: last :: before

/-- Reads at most `n` tokens behind those of `done`, up to the end of the input. -/
def tokensWithin : Nat → List Lexeme → Source → Except LexError (List Lexeme) × Source
  | 0, done, s => (.ok done.reverse, s)
  | n + 1, done, s =>
    match s.next with
    | (.error e, s) => (.error e, s)
    | (.ok t, s) =>
      if t.token = .endOfInput then (.ok (push done t).reverse, s)
      else tokensWithin n (push done t) s

/-- Reads the tokens up to the end of the input. -/
def tokens (s : Source) : Except LexError (List Lexeme) × Source :=
  tokensWithin (s.rest.length + 1) [] s

end Source

/-- The tokens of a query text. -/
def tokenize (text : String) : Except LexError (List Lexeme) := (Source.ofString text).tokens.1

end RecordQuery
