import RecordQuery.Command.Basic

/-! # The program

Reads the arguments, and the standard input if the request wants it, and prints the outcome. No
process can be started from here, so an invocation is answered as one that could not be. -/

namespace RecordQuery

/-- The variable that names the interpreter. -/
def interpreterVariable : String := "MQL_JQ"

/-- The octets of a stream. -/
partial def readOctets (stream : IO.FS.Stream) (done : ByteArray) : IO ByteArray := do
  let chunk ← stream.read 65536
  if chunk.isEmpty then return done else readOctets stream (done ++ chunk)

/-- The standard input, which is not read at a terminal. -/
def standardInput : IO (Option (List UInt8)) := do
  let stream ← IO.getStdin
  if ← stream.isTty then return none
  return some (← readOctets stream .empty).toList

/-- The reply to every invocation. -/
def noInterpreter : Interpreter := fun _ => .notStarted "starting a process is not supported"

end RecordQuery

open RecordQuery in
/-- Runs the program. -/
def main (args : List String) : IO UInt32 := do
  let wanted := (Request.ofArguments args).toOption.any Request.readsInput
  let input ← if wanted then standardInput else pure none
  let chosen ← IO.getEnv interpreterVariable
  match (runArguments args ⟨chosen, input⟩).answer noInterpreter with
  | some outcome =>
    IO.print outcome.output
    IO.eprint outcome.diagnostics
    return outcome.code.toUInt32
  | none =>
    IO.eprintln "panicked"
    return 101
