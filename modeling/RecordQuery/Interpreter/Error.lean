import RecordQuery.Json.Value
import RecordQuery.Text.Character

/-! # Programs that yield no rows

The causes for which running a program has no table as its result, and how messages say them. -/

namespace RecordQuery

/-- The causes for which a program yields no rows. -/
inductive ExecutionError where
  | unbound (parameter : String)
  | notStarted (binary reason : String)
  | failed (code : UInt8) (diagnostics : String)
  | undecodable
  | noArray (output : Json)
  | noObject (item : Json)

namespace ExecutionError

/-- The message of an error. -/
def message : ExecutionError → String
  | unbound parameter => "No value bound for parameter '" ++ parameter ++ "'"
  | notStarted binary reason => "Could not start '" ++ binary ++ "': " ++ reason
  | failed code diagnostics =>
    "jq failed (exit status: " ++ toString code.toNat ++ "): " ++ trimEnd diagnostics
  | undecodable => "Could not decode jq output: it is not one JSON text"
  | noArray output => "Expected jq to produce an array of objects, found " ++ output.kind
  | noObject item =>
    "Expected jq to produce an array of objects, found an array containing " ++ item.kind

/-- The messages of the causes behind an error, the nearest one first. -/
def causes : ExecutionError → List String
  | notStarted _ reason => [reason]
  | _ => []

end ExecutionError

end RecordQuery
