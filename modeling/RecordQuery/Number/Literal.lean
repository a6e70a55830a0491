import RecordQuery.Number.Decimal
import RecordQuery.Number.Shortest

/-! # Numbers in a query

A number literal is a run of digits, possibly a point with digits behind it, and possibly an
exponent. Without point and exponent it is an integer if it fits 64 bits with sign; otherwise it is
a decimal if it fits one; otherwise it is the nearest floating point number, and a literal beyond
all of these has no value (`NumberLiteral.value?`). -/

namespace RecordQuery

-- Powers of natural numbers are those of the core library, whatever else is imported.
attribute [local instance (2000)] instPowNat

/-- A number as a query holds it. -/
inductive Number where
  | integer (n : Int64)
  | real (d : Decimal)
  | float (x : Binary64)
  deriving DecidableEq

namespace Number

/-- Floating point numbers are written with an exponent always, and a tie goes up. -/
def floatStyle : FloatStyle := ⟨0, 0, false, true⟩

/-- The text of a number, in queries as in filters. -/
def text : Number → String
  | .integer n => toString n.toInt
  | .real d => d.text
  | .float x => floatStyle.write x

end Number

/-- The parts of a number literal. The fraction is empty where no point was written; the exponent
holds its sign, if one was written, and its digits. -/
structure NumberLiteral where
  whole : List Char
  fraction : List Char
  exponent : Option (Option Char × List Char)

namespace NumberLiteral

/-- The parts as messages show them. -/
def text (l : NumberLiteral) : String :=
  let whole := if l.whole.isEmpty then ['0'] else l.whole
  let fraction := if l.fraction.isEmpty then [] else '.' :: l.fraction
  let exponent := match l.exponent with
    | none => []
    | some (sign, ds) => 'e' :: sign.toList ++ ds
  String.ofList (whole ++ fraction ++ exponent)

/-- The power of ten that the exponent denotes. -/
def tens? (l : NumberLiteral) : Option Int :=
  l.exponent.map fun (sign, ds) =>
    if sign = some '-' then -(Decimal.natural ds : Int) else Decimal.natural ds

/-- The literal as an integer of 64 bits with sign. -/
def integer? (l : NumberLiteral) : Option Int64 :=
  if l.fraction.isEmpty ∧ l.exponent.isNone ∧ Decimal.natural l.whole < 2 ^ (63 : Nat) then
    some (Int64.ofNat (Decimal.natural l.whole))
  else none

/-- The literal as the nearest floating point number. -/
def float? (l : NumberLiteral) : Option Binary64 :=
  Binary64.ofTens? (Decimal.natural (l.whole ++ l.fraction))
    (l.tens?.getD 0 - l.fraction.length)

/-- The number that a literal denotes: exact while it fits, else the nearest floating point number.
-/
def value? (l : NumberLiteral) : Option Number :=
  match l.integer? with
  | some n => some (.integer n)
  | none =>
    match Decimal.read? l.whole l.fraction l.tens? with
    | some d => some (.real d)
    | none => l.float?.map .float

end NumberLiteral

end RecordQuery
