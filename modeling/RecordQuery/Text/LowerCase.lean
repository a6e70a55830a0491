import RecordQuery.Text.CaseRun
import RecordQuery.Text.Cased
import RecordQuery.Text.CaseIgnorable

/-! # Lower case

The full lower-case form of a text. One character has two images (the dotted capital I), and one
depends on its surroundings: a sigma that ends a word becomes `ς`, any other becomes `σ`. A sigma
ends a word when, past the characters that case rules skip, a cased character stands before it and
none stands behind it. -/

namespace RecordQuery

/-- The image of a code point under the first run that reaches it, or the code point itself. -/
def lowerCode : List CaseRun → Nat → Nat
  | [], n => n
  | r :: rest, n => if n < r.first then n else (r.image? n).getD (lowerCode rest n)

/-- The lower-case form of a character that stands alone. -/
def lowerChar (c : Char) : List Char :=
  if c = '\u0130' then ['i', '\u0307'] else [Char.ofNat (lowerCode caseRuns c.toNat)]

/-- Whether a cased character comes next, past the characters that case rules skip. -/
def casedNext (cs : List Char) : Bool :=
  (cs.dropWhile caseIgnorable.contains).head?.any cased.contains

/-- The lower-case form of the second list, where `before` holds the characters in front of it, the
nearest one first. -/
def lowerFrom (before : List Char) : List Char → List Char
  | [] => []
  | c :: rest =>
    (if c = 'Σ' then [if casedNext before && !casedNext rest then 'ς' else 'σ'] else lowerChar c) ++
      lowerFrom (c :: before) rest

/-- The lower-case form of a text. -/
def lowerCase (s : String) : String := String.ofList (lowerFrom [] s.toList)

example : lowerFrom [] ['Ο', 'Δ', 'Ο', 'Σ'] = ['ο', 'δ', 'ο', 'ς'] := by decide

example : lowerFrom [] ['Σ', 'A', '\u0130', '\u1e9e'] = ['σ', 'a', 'i', '\u0307', 'ß'] := by decide

end RecordQuery
