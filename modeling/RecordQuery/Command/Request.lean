import RecordQuery.Command.Argument
import RecordQuery.Interpreter.Basic
import RecordQuery.Table.Layout

/-! # Requests

What the arguments of a run ask for: the program of a query, or a check. Arguments are judged from
left to right, and the first that asks for help or does not fit decides; what is missing and what
excludes each other is found out at the end. Apart from parameters nothing can be given twice, and a
path cannot be empty. So the package `clap` judges the arguments that are declared to it. -/

namespace RecordQuery

/-- Why arguments hold no request. -/
inductive Usage where
  | help
  | version
  | misuse

/-- What to check and how to print it. Without records, they are the standard input. -/
structure CheckRequest where
  query : String
  records : Option Records
  syntaxOnly : Bool
  interpreter : Option String
  parameters : List String
  format : Format

/-- What a run is asked for. -/
inductive Request where
  | compile (query : String)
  | check (request : CheckRequest)

/-- What the arguments behind the name of a request have given so far. -/
structure Given where
  query : Option String
  file : Option String
  input : Option String
  interpreter : Option String
  indented : Bool
  text : Bool
  syntaxOnly : Bool
  parameters : List String

namespace Given

/-- Nothing given. -/
def nothing : Given := ⟨none, none, none, none, false, false, false, []⟩

/-- A value for what has none. -/
def value (old : Option String) (s : String) : Except Usage (Option String) :=
  if old.isSome then .error .misuse else .ok (some s)

/-- A path for what has none. -/
def path (old : Option String) (s : String) : Except Usage (Option String) :=
  if s.isEmpty then .error .misuse else value old s

/-- A switch that is off, turned on. -/
def turnOn (old : Bool) : Except Usage Bool := if old then .error .misuse else .ok true

/-- Takes in what one more argument says. -/
def add (g : Given) : Item → Except Usage Given
  | .unreadable => .error .misuse
  | .switch .help => .error .help
  | .switch .version => .error .version
  | .switch .indented => (turnOn g.indented).map ({ g with indented := · })
  | .switch .text => (turnOn g.text).map ({ g with text := · })
  | .switch .syntaxOnly => (turnOn g.syntaxOnly).map ({ g with syntaxOnly := · })
  | .operand s => (value g.query s).map ({ g with query := · })
  | .setting .file s => (path g.file s).map ({ g with file := · })
  | .setting .input s => (value g.input s).map ({ g with input := · })
  | .setting .interpreter s => (path g.interpreter s).map ({ g with interpreter := · })
  | .setting .parameter s => .ok { g with parameters := g.parameters ++ [s] }

/-- What arguments give. -/
def ofArguments (names : ArgumentNames) (args : List String) : Except Usage Given :=
  (names.items args).foldlM add nothing

/-- The records given, of which there is one kind at most. -/
def records (g : Given) : Except Usage (Option Records) :=
  match g.file, g.input with
  | some _, some _ => .error .misuse
  | some path, none => .ok (some (.file path))
  | none, some json => .ok (some (.text json))
  | none, none => .ok none

/-- The format given, of which there is one at most. -/
def format (g : Given) : Except Usage Format :=
  match g.indented, g.text with
  | true, true => .error .misuse
  | true, false => .ok .indented
  | false, true => .ok .text
  | false, false => .ok .compact

/-- The query given. -/
def theQuery (g : Given) : Except Usage String :=
  match g.query with
  | none => .error .misuse
  | some query => .ok query

end Given

namespace Request

/-- The names that stand for help. -/
def helpNames : ArgumentNames where
  long name := if name = "help" then some (.switch .help) else none
  short c := if c = 'h' then some (.switch .help) else none

/-- The names in front of a request. -/
def outerNames : ArgumentNames where
  long name := if name = "version" then some (.switch .version) else helpNames.long name
  short c := if c = 'V' then some (.switch .version) else helpNames.short c

/-- The names behind `check`. -/
def checkNames : ArgumentNames where
  long
    | "file" => some (.setting .file)
    | "input" => some (.setting .input)
    | "jq" => some (.setting .interpreter)
    | "param" => some (.setting .parameter)
    | "pretty" => some (.switch .indented)
    | "table" => some (.switch .text)
    | "syntax-only" => some (.switch .syntaxOnly)
    | name => helpNames.long name
  short
    | 'f' => some (.setting .file)
    | 'i' => some (.setting .input)
    | 'p' => some (.switch .indented)
    | 't' => some (.switch .text)
    | c => helpNames.short c

/-- The request of the arguments behind `compile`. -/
def ofCompileArguments (args : List String) : Except Usage Request := do
  let g ← Given.ofArguments helpNames args
  return .compile (← g.theQuery)

/-- The request of the arguments behind `check`. -/
def ofCheckArguments (args : List String) : Except Usage Request := do
  let g ← Given.ofArguments checkNames args
  return .check {
    query := ← g.theQuery, records := ← g.records, syntaxOnly := g.syntaxOnly,
    interpreter := g.interpreter, parameters := g.parameters, format := ← g.format }

/-- Whether there is help on a topic. -/
def isTopic : List String → Bool
  | [] => true
  | [name] => name == "compile" || name == "check" || name == "help"
  | _ => false

/-- The request of a list of arguments. -/
def ofArguments : List String → Except Usage Request
  | [] => .error .misuse
  | "compile" :: args => ofCompileArguments args
  | "check" :: args => ofCheckArguments args
  | "help" :: topic => .error (if isTopic topic then .help else .misuse)
  | arg :: _ =>
    match Given.ofArguments outerNames [arg] with
    | .error usage => .error usage
    | .ok _ => .error .misuse

end Request

end RecordQuery
