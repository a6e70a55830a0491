import RecordQuery.Compile.Error
import RecordQuery.Interpreter.Error
import RecordQuery.Interpreter.Run
import RecordQuery.Program.Cache

/-! # Engines

An engine answers queries: it compiles them, keeping their programs if it has a cache, and runs them
under the values bound to their parameters. Queries change the cache only. A query has no answer if
it cannot be compiled, or if its program yields no rows. -/

namespace RecordQuery

/-! ### Queries without an answer -/

/-- The causes for which a query has no answer. -/
inductive QueryError where
  | compile (e : CompileError)
  | execution (e : ExecutionError)

namespace QueryError

/-- The message of an error. -/
def message : QueryError → String
  | compile e => "Compile error: " ++ e.message
  | execution e => "Execution error: " ++ e.message

/-- The messages of the causes behind an error, the nearest one first. -/
def causes : QueryError → List String
  | compile e => e.message :: e.causes
  | execution e => e.message :: e.causes

end QueryError

/-! ### Engines -/

/-- The interpreter to start, the programs kept so far, and the values of the parameters. -/
structure Engine where
  binary : String
  cache : Option Cache
  bindings : Bindings

namespace Engine

/-- The interpreter to start where no other one is named. -/
def defaultBinary : String := "jq"

/-- The interpreter that a variable of the environment names. An empty one names none. -/
def binaryOf (chosen : Option String) : String :=
  match chosen with
  | none | some "" => defaultBinary
  | some binary => binary

/-- An engine that keeps no programs and has no values. -/
def ofBinary (binary : String) : Engine := ⟨binary, none, .empty⟩

/-- An engine that keeps programs, and has none yet. -/
def withCache (e : Engine) : Engine := { e with cache := some .empty }

/-- An engine with other values. -/
def withBindings (e : Engine) (b : Bindings) : Engine := { e with bindings := b }

/-- Gives a parameter a value. -/
def bind (e : Engine) (name : String) (value : Json) : Engine :=
  e.withBindings (e.bindings.bind name value)

/-- The program of a query, and the engine behind it. -/
def compile (e : Engine) (query : String) : Except (Stop CompileError) Program × Engine :=
  match e.cache with
  | none => (Program.ofText query, e)
  | some c =>
    let (p, c) := c.compile query
    (p, { e with cache := some c })

/-- The answer to a query on records, and the engine behind it. -/
def query (e : Engine) (query : String) (records : Records) :
    Exchange (Except (Stop QueryError) Table) × Engine :=
  match e.compile query with
  | (.error stop, e) => (.done (.error (stop.map .compile)), e)
  | (.ok p, e) =>
    ((p.run e.binary e.bindings records).map (·.mapError fun f => .fault (.execution f)), e)

end Engine

end RecordQuery
