import RecordQuery.Program.Basic
import RecordQuery.Token.Label

/-! # Stored programs

Programs are stored under the labels of the tokens of their query, so queries that differ in
spacing, comments or the letter case of keywords share an entry. Only programs are stored: a query
that fails is compiled anew each time. -/

namespace RecordQuery

/-- Programs by the keys of their queries; each key occurs once. -/
structure Cache where
  entries : List (String × Program)

namespace Cache

/-- A cache without programs. -/
def empty : Cache := ⟨[]⟩

/-- The key of a list of tokens. -/
def keyOf (ts : List Token) : String := " ".intercalate (ts.map Token.label)

/-- The key of a query text, if it has tokens. -/
def key? (query : String) : Option String :=
  match tokenize query with
  | .ok ls => some (keyOf (ls.map Lexeme.token))
  | .error _ => none

/-- The program stored under a key. -/
def get? (c : Cache) (key : String) : Option Program :=
  (c.entries.find? fun e => e.1 == key).map (·.2)

/-- Stores a program in the place of the one under the same key. -/
def insert (c : Cache) (key : String) (p : Program) : Cache :=
  ⟨(key, p) :: c.entries.filter fun e => e.1 != key⟩

/-- The number of programs stored. -/
def size (c : Cache) : Nat := c.entries.length

/-- The program of a query text: the one stored, or else a new one, which is stored. -/
def compile (c : Cache) (query : String) : Except (Stop CompileError) Program × Cache :=
  match key? query with
  | none => (Program.ofText query, c)
  | some key =>
    match c.get? key with
    | some p => (.ok p, c)
    | none =>
      match Program.ofText query with
      | .ok p => (.ok p, c.insert key p)
      | .error e => (.error e, c)

end Cache

end RecordQuery
