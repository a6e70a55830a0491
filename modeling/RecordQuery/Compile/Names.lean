import RecordQuery.Compile.Error
import RecordQuery.Filter.Basic
import RecordQuery.Token.Basic

/-! # Names given out while compiling

All expressions of a query are compiled one after another and share one `Names`: how many variables
have been bound, the greatest number of a positional parameter, the parameters met so far in the
order of their first use, and the defined functions needed so far. What an expression has given out
before it fails stays given out.

A positional parameter has a number of 32 bits. One that takes the number behind the greatest so far
panics where there is none (`Compile.parameterName`), and gives out nothing. -/

namespace RecordQuery

/-- The names given out so far. -/
structure Names where
  bindings : Nat := 0
  positional : UInt32 := 0
  parameters : List String := []
  helpers : List Helper := []

/-- The defined functions needed so far, in the order in which they are defined. -/
def Names.neededHelpers (s : Names) : List Helper :=
  [Helper.bitAnd, Helper.bitOr].filter (· ∈ s.helpers)

/-- A step of compiling. -/
abbrev Compile := EStateM (Stop CompileError) Names

namespace Compile

/-- Gives out a variable that was not given out before. -/
def freshVariable : Compile Variable := do
  modify fun s => { s with bindings := s.bindings + 1 }
  return .bound (← get).bindings

/-- Notes the need for a defined function. -/
def need (h : Helper) : Compile Unit :=
  modify fun s => { s with helpers := if h ∈ s.helpers then s.helpers else s.helpers ++ [h] }

/-- Notes the use of a parameter. -/
def use (name : String) : Compile Unit :=
  modify fun s =>
    { s with parameters := if name ∈ s.parameters then s.parameters else s.parameters ++ [name] }

/-- Whether a text can be the name of a variable in a filter. -/
def isVariableName (name : String) : Bool :=
  match name.toList with
  | [] => false
  | c :: rest =>
    (c.isAlpha || c == '_') && rest.all fun c => c.isAlphanum || c == '_'

/-- Whether a name could be that of a variable that the compiler binds. -/
def isReserved (name : String) : Bool := Variable.stem.toList.isPrefixOf name.toList

/-- The greatest number that a positional parameter can have. -/
def greatestNumber : UInt32 := 4294967295

/-- The name of a positional parameter. -/
def positionalName (n : UInt32) : String := "p" ++ toString n.toNat

/-- The name of a parameter. A parameter without a number takes the one behind the greatest so far,
if there is one. -/
def parameterName (p : Parameter) (position : Position) : Compile String :=
  match p with
  | .next => do
    let s ← get
    if s.positional = greatestNumber then throw .panic
    else
      set { s with positional := s.positional + 1 }
      return positionalName (s.positional + 1)
  | .numbered n => do
    modify fun s => { s with positional := max s.positional n }
    return positionalName n
  | .named sigil name => do
    if !isVariableName name || isReserved name then
      throw (.fault (.unsupported (.parameterName sigil name) position))
    return name

/-- The variable of a parameter. -/
def parameter (p : Parameter) (position : Position) : Compile Filter := do
  let name ← parameterName p position
  use name
  return .variable (.named name)

end Compile

end RecordQuery
