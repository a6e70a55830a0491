import RecordQuery.Text.Utf8

/-! # Interpreters

A program runs in another process, the interpreter: it is started with a list of arguments and a
text to read, and ends with an exit code and two runs of octets, or it cannot be started. What is
asked of an interpreter and what its reply means are values here: an `Exchange` ends at once, or it
names one invocation and says what each reply to it leads to. So nothing can be started twice, and
whoever holds an exchange decides how the reply is obtained. -/

namespace RecordQuery

/-- Where the records come from. -/
inductive Records where
  | file (path : String)
  | text (json : String)

/-- The start of an interpreter: the arguments behind its name, and the text it can read. -/
structure Invocation where
  binary : String
  arguments : List String
  input : String

/-- What becomes of an invocation. -/
inductive Reply where
  | notStarted (reason : String)
  | finished (code : UInt8) (output diagnostics : List UInt8)

/-- What an interpreter does with each invocation. -/
abbrev Interpreter := Invocation → Reply

/-- An answer that takes at most one invocation. -/
inductive Exchange (α : Type) where
  | done (answer : α)
  | ask (call : Invocation) (next : Reply → α)

namespace Exchange

variable {α β : Type}

/-- The answer under an interpreter. -/
def answer (interpreter : Interpreter) : Exchange α → α
  | done a => a
  | ask call next => next (interpreter call)

/-- The invocation of an exchange, if there is one. -/
def call? : Exchange α → Option Invocation
  | done _ => none
  | ask call _ => some call

/-- An exchange with another answer. -/
def map (f : α → β) : Exchange α → Exchange β
  | done a => done (f a)
  | ask call next => ask call fun r => f (next r)

@[simp] theorem answer_map (f : α → β) (interpreter : Interpreter) (e : Exchange α) :
    (e.map f).answer interpreter = f (e.answer interpreter) := by
  cases e <;> rfl

@[simp] theorem call?_map (f : α → β) (e : Exchange α) : (e.map f).call? = e.call? := by
  cases e <;> rfl

end Exchange

end RecordQuery
