/-! # Arguments

How a list of arguments is taken apart. Two dashes begin a long name, which may carry a value behind
an equals sign; one dash begins a run of short names, the last of which may carry a value; two
dashes alone make all that follows an operand. A setting without a value of its own takes the next
argument, which must be an operand. A single dash and the empty argument are operands. These are the
conventions that the package `clap` documents of the arguments it reads. -/

namespace RecordQuery

/-- What an argument says by being there. -/
inductive Switch where
  | help
  | version
  | indented
  | text
  | syntaxOnly

/-- What an argument gives a value to. -/
inductive Setting where
  | file
  | input
  | interpreter
  | parameter

/-- What a name of an argument stands for. -/
inductive ArgumentName where
  | switch (s : Switch)
  | setting (s : Setting)

/-- The names that arguments may have. -/
structure ArgumentNames where
  long : String → Option ArgumentName
  short : Char → Option ArgumentName

/-- The forms of an argument. -/
inductive ArgumentForm where
  | operand (text : String)
  | long (name : String) (value : Option String)
  | short (letters : List Char)
  | terminator

/-- What stands in front of the first equals sign, and what stands behind it if there is one. -/
def splitAtEquals (cs : List Char) : String × Option String :=
  let value := match cs.dropWhile (· != '=') with
    | [] => none
    | _ :: value => some (String.ofList value)
  (String.ofList (cs.takeWhile (· != '=')), value)

/-- The form of an argument. -/
def ArgumentForm.ofString (s : String) : ArgumentForm :=
  match s.toList with
  | ['-', '-'] => .terminator
  | '-' :: '-' :: cs => .long (splitAtEquals cs).1 (splitAtEquals cs).2
  | '-' :: c :: cs => .short (c :: cs)
  | _ => .operand s

/-- What arguments say, one thing at a time. Nothing behind an unreadable one counts. -/
inductive Item where
  | switch (s : Switch)
  | setting (s : Setting) (value : String)
  | operand (text : String)
  | unreadable

namespace ArgumentNames

/-- What a run of short names says, and the setting at its end that wants a value. -/
def runItems (names : ArgumentNames) : List Char → List Item × Option Setting
  | [] => ([], none)
  | c :: rest =>
    match names.short c, rest with
    | none, _ => ([.unreadable], none)
    | some (.switch s), _ =>
      let (items, wanting) := names.runItems rest
      (.switch s :: items, wanting)
    | some (.setting s), [] => ([], some s)
    | some (.setting s), '=' :: value => ([.setting s (String.ofList value)], none)
    | some (.setting s), value => ([.setting s (String.ofList value)], none)

/-- What a long name says, and the setting that wants a value. -/
def longItems (names : ArgumentNames) (name : String) (value : Option String) :
    List Item × Option Setting :=
  match names.long name, value with
  | some (.switch s), none => ([.switch s], none)
  | some (.setting s), some value => ([.setting s value], none)
  | some (.setting s), none => ([], some s)
  | _, _ => ([.unreadable], none)

/-- What arguments say, where the one in front of them may have left a setting that wants a value.
-/
def itemsFrom (names : ArgumentNames) : Option Setting → List String → List Item
  | none, [] => []
  | some _, [] => [.unreadable]
  | wanting, arg :: rest =>
    match wanting, ArgumentForm.ofString arg with
    | some s, .operand value => .setting s value :: names.itemsFrom none rest
    | some _, _ => [.unreadable]
    | none, .operand text => .operand text :: names.itemsFrom none rest
    | none, .terminator => rest.map .operand
    | none, .long name value =>
      let (items, wanting) := names.longItems name value
      items ++ names.itemsFrom wanting rest
    | none, .short letters =>
      let (items, wanting) := names.runItems letters
      items ++ names.itemsFrom wanting rest

/-- What arguments say. -/
def items (names : ArgumentNames) (args : List String) : List Item := names.itemsFrom none args

end ArgumentNames

end RecordQuery
