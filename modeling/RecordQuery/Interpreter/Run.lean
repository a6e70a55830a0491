import RecordQuery.Interpreter.Basic
import RecordQuery.Interpreter.Bindings
import RecordQuery.Interpreter.Error
import RecordQuery.Json.Reader
import RecordQuery.Program.Basic
import RecordQuery.Table.Basic

/-! # Running a program

A program is handed to the interpreter as one argument, behind the values of the parameters it
names; the records are a file named by the last argument, or else the text that the interpreter
reads. The reply is a table if the interpreter has ended well and its output is an array of objects.
-/

namespace RecordQuery

/-- The arguments that hand over the values of parameters. The first name without a value is an
error. -/
def Bindings.arguments (b : Bindings) : List String → Except ExecutionError (List String)
  | [] => .ok []
  | name :: rest =>
    match b.value? name with
    | none => .error (.unbound name)
    | some v => (b.arguments rest).map (["--argjson", name, v.compact] ++ ·)

/-- The arguments behind the program. -/
def Records.arguments : Records → List String
  | .file path => [path]
  | .text _ => []

/-- What the interpreter can read. -/
def Records.input : Records → String
  | .file _ => ""
  | .text json => json

/-- The invocation that runs a program on records. -/
def Program.invocation (p : Program) (binary : String) (b : Bindings) (records : Records) :
    Except ExecutionError Invocation :=
  (b.arguments p.parameters).map fun values =>
    ⟨binary, ["-c"] ++ values ++ [p.text] ++ records.arguments, records.input⟩

/-- The rows of an array. The first item that is no object is an error. -/
def rowsOf : List Json → Except ExecutionError (List Row)
  | [] => .ok []
  | .object row :: rest => (rowsOf rest).map (row :: ·)
  | v :: _ => .error (.noObject v)

/-- The rows that an output holds. -/
def decodeRows (output : List UInt8) : Except ExecutionError (List Row) :=
  match (Utf8.strict? output).bind Json.read? with
  | none => .error .undecodable
  | some (.array items) => rowsOf items
  | some v => .error (.noArray v)

/-- The table of rows: where the program does not fix the columns, they are the keys of the first
row. -/
def Program.table (p : Program) (rows : List Row) : Table :=
  ⟨p.columns.getD ((rows.head?.map fun row => row.map (·.1)).getD []), rows⟩

/-- What a reply says about the rows. -/
def Program.result (p : Program) (binary : String) : Reply → Except ExecutionError Table
  | .notStarted reason => .error (.notStarted binary reason)
  | .finished code output diagnostics =>
    if code = 0 then (decodeRows output).map p.table
    else .error (.failed code (Utf8.lenient diagnostics))

/-- Runs a program on records. -/
def Program.run (p : Program) (binary : String) (b : Bindings) (records : Records) :
    Exchange (Except ExecutionError Table) :=
  match p.invocation binary b records with
  | .error e => .done (.error e)
  | .ok call => .ask call (p.result binary)

end RecordQuery
