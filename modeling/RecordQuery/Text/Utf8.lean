/-! # Octets as characters

Reading octets as UTF-8, one octet at a time. Between characters nothing is pending; behind a
leading octet, `Pending` holds how many octets are still owed, which values the next one may have
(the first owed octet is narrower behind `E0`, `ED`, `F0` and `F4`), and the value read so far. An
octet that does not fit ends the pending character as broken and is read anew. `decode` yields one
entry for each character and `none` for each broken one: the strict reading wants no `none`, the
lenient one shows each as the replacement character. -/

namespace RecordQuery.Utf8

/-- A character whose last octets are still owed. -/
structure Pending where
  owed : Nat
  least : Nat
  greatest : Nat
  value : Nat

/-- What an octet read between characters starts, where it can start anything. -/
def lead (b : Nat) : Option Pending :=
  if 0xc2 ≤ b ∧ b ≤ 0xdf then some ⟨1, 0x80, 0xbf, b % 0x20⟩
  else if b = 0xe0 then some ⟨2, 0xa0, 0xbf, 0⟩
  else if b = 0xed then some ⟨2, 0x80, 0x9f, 0xd⟩
  else if 0xe1 ≤ b ∧ b ≤ 0xef then some ⟨2, 0x80, 0xbf, b % 0x10⟩
  else if b = 0xf0 then some ⟨3, 0x90, 0xbf, 0⟩
  else if 0xf1 ≤ b ∧ b ≤ 0xf3 then some ⟨3, 0x80, 0xbf, b % 8⟩
  else if b = 0xf4 then some ⟨3, 0x80, 0x8f, 4⟩
  else none

/-- Reads an octet between characters: the entries it completes, and what it leaves pending. -/
def readLead (b : Nat) : List (Option Char) × Option Pending :=
  if b < 0x80 then ([some (Char.ofNat b)], none)
  else match lead b with
    | some p => ([], some p)
    | none => ([none], none)

/-- Reads an octet inside a character. -/
def readOwed (p : Pending) (b : Nat) : List (Option Char) × Option Pending :=
  if p.least ≤ b ∧ b ≤ p.greatest then
    let value := p.value * 0x40 + b % 0x40
    if p.owed = 1 then ([some (Char.ofNat value)], none)
    else ([], some ⟨p.owed - 1, 0x80, 0xbf, value⟩)
  else
    let (entries, pending) := readLead b
    (none :: entries, pending)

/-- The entries of the octets that follow, given what is pending. -/
def decodeFrom : Option Pending → List UInt8 → List (Option Char)
  | none, [] => []
  | some _, [] => [none]
  | none, b :: rest =>
    let (entries, pending) := readLead b.toNat
    entries ++ decodeFrom pending rest
  | some p, b :: rest =>
    let (entries, pending) := readOwed p b.toNat
    entries ++ decodeFrom pending rest

/-- The characters of a run of octets, with `none` for each broken one. -/
def decode (octets : List UInt8) : List (Option Char) := decodeFrom none octets

/-- The characters of octets that hold no broken one. -/
def strict? (octets : List UInt8) : Option (List Char) := (decode octets).mapM id

/-- The text of octets, each broken character shown as the replacement character. -/
def lenient (octets : List UInt8) : String :=
  String.ofList ((decode octets).map (·.getD '\ufffd'))

example : decode [0x61, 0xe2, 0x82, 0xac, 0xe2, 0x82, 0x62, 0xff] =
    [some 'a', some '€', none, some 'b', none] := by decide

end RecordQuery.Utf8
