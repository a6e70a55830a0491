/-! # Characters

A property of characters is kept as the list of the closed ranges of code points that have it, in
increasing order. `CharSet.contains` walks the ranges and stops at the first one that begins beyond
the character.

Blank characters have the property `White_Space`: there are twenty-five of them, six in ASCII.
Blanks separate tokens, and they are trimmed from the ends of parameter names and of interpreter
messages. Hexadecimal digits are written in lower case and read in either case. -/

namespace RecordQuery

/-! ### Sets of characters -/

/-- A set of characters as increasing closed ranges of code points. -/
structure CharSet where
  ranges : List (Nat × Nat)

namespace CharSet

/-- Whether a code point lies in one of the ranges. -/
def covers : List (Nat × Nat) → Nat → Bool
  | [], _ => false
  | (low, high) :: rest, n => low ≤ n && (n ≤ high || covers rest n)

/-- Whether a character belongs to the set. -/
def contains (s : CharSet) (c : Char) : Bool := covers s.ranges c.toNat

end CharSet

/-! ### Blank characters -/

/-- The characters with the property `White_Space`. -/
def blanks : CharSet := ⟨[(0x9, 0xd), (0x20, 0x20), (0x85, 0x85), (0xa0, 0xa0), (0x1680, 0x1680),
  (0x2000, 0x200a), (0x2028, 0x2029), (0x202f, 0x202f), (0x205f, 0x205f), (0x3000, 0x3000)]⟩

/-- Whether a character is blank. -/
def isBlank (c : Char) : Bool := blanks.contains c

/-- A text without the blanks at its end. -/
def trimEnd (s : String) : String :=
  String.ofList (s.toList.reverse.dropWhile isBlank).reverse

/-- A text without the blanks at either end. -/
def trim (s : String) : String := trimEnd (String.ofList (s.toList.dropWhile isBlank))

example : isBlank ' ' ∧ isBlank '\n' ∧ isBlank '\u3000' ∧ ¬ isBlank '\u200b' := by decide

/-! ### Hexadecimal digits -/

/-- The hexadecimal digit of a number below sixteen. -/
def hexDigit (n : Nat) : Char := if n < 10 then Char.ofNat (0x30 + n) else Char.ofNat (0x57 + n)

/-- The value of a hexadecimal digit. -/
def hexValue? (c : Char) : Option Nat :=
  if c.isDigit then some (c.toNat - 0x30)
  else if 'a' ≤ c ∧ c ≤ 'f' then some (c.toNat - 0x57)
  else if 'A' ≤ c ∧ c ≤ 'F' then some (c.toNat - 0x37)
  else none

theorem hexValue?_hexDigit : ∀ n < 16, hexValue? (hexDigit n) = some n := by decide

end RecordQuery
