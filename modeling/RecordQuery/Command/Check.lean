import RecordQuery.Command.Argument
import RecordQuery.Engine.Basic

/-! # Checking a query

A check compiles a query, and unless it is about syntax alone it runs the query on records. Values
of parameters are given as `NAME=JSON`: the name may have the mark it has in queries, and is written
in any letter case; what is no JSON text stands for itself as a string. A command that was
understood has no result if a value cannot be read, if there are no records, or if the query has no
answer. -/

namespace RecordQuery

/-! ### Commands that fail -/

/-- The causes for which a command has no result. -/
inductive CommandError where
  | query (e : QueryError)
  | invalidParameter (argument : String)
  | unreadableInput
  | noInput

namespace CommandError

/-- The message of an error. -/
def message : CommandError → String
  | query e => e.message
  | invalidParameter argument => "Invalid parameter '" ++ argument ++ "': expected NAME=JSON"
  | unreadableInput => "IO error: stream did not contain valid UTF-8"
  | noInput => "No input provided. Use --file, --input or pipe JSON to stdin."

end CommandError

/-! ### Parameters -/

/-- Whether a character can mark a named parameter. -/
def isSigil (c : Char) : Bool := c == ':' || c == '@' || c == '$'

/-- The name and the value that an argument binds. -/
def Bindings.entryOf (argument : String) : Except CommandError (String × Json) :=
  match splitAtEquals argument.toList with
  | (_, none) => .error (.invalidParameter argument)
  | (before, some value) =>
    let name := String.ofList ((trim before).toList.dropWhile isSigil)
    if name.isEmpty then .error (.invalidParameter argument)
    else .ok (lowerCase name, (Json.ofText? value).getD (.string value))

/-- The bindings of arguments. The first one that binds nothing is an error. -/
def Bindings.ofArguments (arguments : List String) : Except CommandError Bindings :=
  (arguments.mapM Bindings.entryOf).map Bindings.ofList

/-- What to check: a query, the records to run it on, the interpreter if it is not the usual one,
and the values of parameters. -/
structure Check where
  query : String
  records : Option Records
  syntaxOnly : Bool
  interpreter : Option String
  bindings : Bindings

/-- What a check finds. -/
inductive Finding where
  | valid
  | table (t : Table)

namespace Check

/-- The engine of a check, given the variable that names the usual interpreter. -/
def engine (c : Check) (chosen : Option String) : Engine :=
  (Engine.ofBinary (c.interpreter.getD (Engine.binaryOf chosen))).withBindings c.bindings

/-- Makes a check. Missing records are found out before the query is looked at. -/
def run (c : Check) (chosen : Option String) : Exchange (Except (Stop CommandError) Finding) :=
  let engine := c.engine chosen
  if c.syntaxOnly then
    match (engine.compile c.query).1 with
    | .ok _ => .done (.ok .valid)
    | .error stop => .done (.error (stop.map fun e => .query (.compile e)))
  else
    match c.records with
    | none => .done (.error (.fault .noInput))
    | some records => (engine.query c.query records).1.map fun
        | .ok t => .ok (.table t)
        | .error stop => .error (stop.map .query)

end Check

end RecordQuery
