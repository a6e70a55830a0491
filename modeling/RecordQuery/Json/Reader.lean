import RecordQuery.Json.Number

/-! # Reading JSON

A text holds one value, with blanks around every part of it, and nothing else. Arrays and objects
may be nested 127 deep. What is a value, and how deep it may be nested, is documented of the package
`serde_json`.

Each nested call of the readers has read at least every second time a character, which bounds their
count by twice the length of the text. -/

namespace RecordQuery.Json

/-- Whether a character may stand between the parts of a value. -/
def isSpace (c : Char) : Bool := c == ' ' || c == '\n' || c == '\t' || c == '\r'

/-- A text from its first character that is no space. -/
def skipSpace (cs : List Char) : List Char := cs.dropWhile isSpace

/-- The rest of a text that begins with a word. -/
def skipWord? : List Char → List Char → Option (List Char)
  | [], rest => some rest
  | w :: word, c :: rest => if w = c then skipWord? word rest else none
  | _ :: _, [] => none

/-- The deepest nesting of arrays and objects. -/
def maxDepth : Nat := 127

mutual

/-- The value at the start of a text, and what follows it. -/
def readValue : Nat → Nat → List Char → Option (Json × List Char)
  | 0, _, _ => none
  | fuel + 1, depth, cs =>
    match skipSpace cs with
    | [] => none
    | c :: rest =>
      match c with
      | 'n' => (skipWord? ['u', 'l', 'l'] rest).map (.null, ·)
      | 't' => (skipWord? ['r', 'u', 'e'] rest).map (.boolean true, ·)
      | 'f' => (skipWord? ['a', 'l', 's', 'e'] rest).map (.boolean false, ·)
      | '"' => (Quoted.readBody rest).map fun (s, rest) => (.string (String.ofList s), rest)
      | '[' =>
        if depth = 0 then none
        else match skipSpace rest with
          | ']' :: rest => some (.array [], rest)
          | rest => (readItems fuel (depth - 1) rest).map fun (items, rest) => (.array items, rest)
      | '\x7b' =>
        if depth = 0 then none
        else match skipSpace rest with
          | '\x7d' :: rest => some (.object [], rest)
          | rest => (readMembers fuel (depth - 1) rest).map fun (ms, rest) => (objectOf ms, rest)
      | c => Number.read? (c :: rest)

/-- The items up to the end of an array, and what follows it. -/
def readItems : Nat → Nat → List Char → Option (List Json × List Char)
  | 0, _, _ => none
  | fuel + 1, depth, cs => do
    let (v, rest) ← readValue fuel depth cs
    match skipSpace rest with
    | ',' :: rest => (readItems fuel depth rest).map fun (items, rest) => (v :: items, rest)
    | ']' :: rest => some ([v], rest)
    | _ => none

/-- The members up to the end of an object, and what follows it. -/
def readMembers : Nat → Nat → List Char → Option (List (String × Json) × List Char)
  | 0, _, _ => none
  | fuel + 1, depth, cs =>
    match skipSpace cs with
    | '"' :: rest => do
      let (key, rest) ← Quoted.readBody rest
      match skipSpace rest with
      | ':' :: rest =>
        let (v, rest) ← readValue fuel depth rest
        let m := (String.ofList key, v)
        match skipSpace rest with
        | ',' :: rest => (readMembers fuel depth rest).map fun (ms, rest) => (m :: ms, rest)
        | '\x7d' :: rest => some ([m], rest)
        | _ => none
      | _ => none
    | _ => none

end

/-- The value that a text holds. -/
def read? (cs : List Char) : Option Json :=
  match readValue (2 * cs.length + 2) maxDepth cs with
  | some (v, rest) => if (skipSpace rest).isEmpty then some v else none
  | none => none

/-- The value that a string holds. -/
def ofText? (s : String) : Option Json := read? s.toList

end RecordQuery.Json
