import RecordQuery.Command.Check
import RecordQuery.Command.Request

/-! # Commands

What a run of the program prints, and with which code it ends: zero for a result, one for a request
that fails, two for arguments that are none; a run that panics has no end of its own. The
interpreter is asked only where a check has records and its query compiles. -/

namespace RecordQuery

/-- How a run ends: its code, and what it prints as its result and as its complaint. -/
structure Outcome where
  code : UInt8
  output : String
  diagnostics : String

namespace Outcome

/-- The end of a run that prints a result. -/
def success (output : String) : Outcome := ⟨0, output, ""⟩

/-- The end of a run that fails. -/
def failure (e : CommandError) : Outcome := ⟨1, "", e.message ++ "\n"⟩

/-- How the program is used. -/
def usage : String :=
  "Usage: mql compile QUERY\n" ++
  "       mql check QUERY [-f PATH | -i JSON] [-p | -t] [--syntax-only] [--jq PATH]\n" ++
  "                       [--param NAME=JSON]...\n"

/-- The end of a run whose arguments hold no request. -/
def ofUsage : Usage → Outcome
  | .help => success usage
  | .version => success "mql 0.1.0\n"
  | .misuse => ⟨2, "", usage⟩

/-- The end of a run that stops. -/
def ofStop : Stop CommandError → Option Outcome
  | .fault e => some (failure e)
  | .panic => none

/-- The end of a check. A table as text brings its own line ends. -/
def ofFinding (format : Format) : Except (Stop CommandError) Finding → Option Outcome
  | .error stop => ofStop stop
  | .ok .valid => some (success "Syntax is valid\n")
  | .ok (.table t) =>
    (t.print? format).map fun printed =>
      match format with
      | .text => success printed
      | _ => success (printed ++ "\n")

end Outcome

/-- Where a run takes place: the variable that names the interpreter, and the standard input, which
is not read at a terminal. -/
structure Surroundings where
  interpreter : Option String
  input : Option (List UInt8)

namespace CheckRequest

/-- Whether a check reads the standard input. -/
def readsInput (r : CheckRequest) : Bool := r.records.isNone && !r.syntaxOnly

/-- The records of a check. -/
def recordsFrom (r : CheckRequest) (input : Option (List UInt8)) :
    Except CommandError (Option Records) :=
  if r.readsInput then
    match input with
    | none => .ok none
    | some octets =>
      match Utf8.strict? octets with
      | some cs => .ok (some (.text (String.ofList cs)))
      | none => .error .unreadableInput
  else .ok r.records

/-- The check of a request. -/
def toCheck (r : CheckRequest) (input : Option (List UInt8)) : Except CommandError Check := do
  let records ← r.recordsFrom input
  let bindings ← Bindings.ofArguments r.parameters
  return ⟨r.query, records, r.syntaxOnly, r.interpreter, bindings⟩

end CheckRequest

namespace Request

/-- Whether a request reads the standard input. -/
def readsInput : Request → Bool
  | compile _ => false
  | check r => r.readsInput

/-- The text of the program of a query. -/
def programText (query : String) : Except (Stop CommandError) String :=
  match Program.ofText query with
  | .ok p => .ok p.text
  | .error stop => .error (stop.map fun e => .query (.compile e))

/-- Runs a request. -/
def run (r : Request) (s : Surroundings) : Exchange (Option Outcome) :=
  match r with
  | compile query =>
    match programText query with
    | .ok text => .done (some (.success (text ++ "\n")))
    | .error stop => .done (Outcome.ofStop stop)
  | check r =>
    match r.toCheck s.input with
    | .error e => .done (some (Outcome.failure e))
    | .ok c => (c.run s.interpreter).map (Outcome.ofFinding r.format)

end Request

/-- Runs a list of arguments. -/
def runArguments (args : List String) (s : Surroundings) : Exchange (Option Outcome) :=
  match Request.ofArguments args with
  | .error usage => .done (some (.ofUsage usage))
  | .ok r => r.run s

end RecordQuery
