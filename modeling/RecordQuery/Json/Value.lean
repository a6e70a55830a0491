import RecordQuery.Json.Quoted
import RecordQuery.Number.Shortest

/-! # JSON values

Records, parameter values and results are JSON values. The members of an object keep the order in
which their keys were first seen; a repeated key keeps its place and takes the last value
(`Json.setMember`). A number is an integer or a floating point number. Both are documented of the
package `serde_json`, the former of its feature `preserve_order`. -/

namespace RecordQuery

/-- A JSON value. -/
inductive Json where
  | null
  | boolean (b : Bool)
  | integer (n : Int)
  | float (x : Binary64)
  | string (s : String)
  | array (items : List Json)
  | object (members : List (String × Json))

namespace Json

/-- Gives a key a value, in the place of its first value if it had one. -/
def setMember (key : String) (value : Json) : List (String × Json) → List (String × Json)
  | [] => [(key, value)]
  | (k, v) :: rest => if k = key then (k, value) :: rest else (k, v) :: setMember key value rest

/-- The object of a run of members. -/
def objectOf (members : List (String × Json)) : Json :=
  .object (members.foldl (fun done (k, v) => setMember k v done) [])

/-- The value of a key. -/
def member? (key : String) (members : List (String × Json)) : Option Json :=
  (members.find? (·.1 == key)).map (·.2)

/-- The kind of a value as messages name it. -/
def kind : Json → String
  | .null => "null"
  | .boolean _ => "a boolean"
  | .integer _ | .float _ => "a number"
  | .string _ => "a string"
  | .array _ => "an array"
  | .object _ => "an object"

end Json

end RecordQuery
