/-! # Exact decimals

A decimal is an integer coefficient of at most 96 bits over a power of ten of at most 28. Reading
digits keeps every digit of the whole part, and fails where they do not fit. Digits behind the point
are kept while they fit; the first one that does not rounds the coefficient, a half away from zero,
and the others are dropped (`Decimal.addFraction`, `Decimal.roundBy`). An exponent moves the point
without changing a digit, and fails where the scale or the coefficient would leave their bounds
(`Decimal.shift`).

The bounds, the rounding and the failures are those that the package `rust_decimal` documents of its
decimals (`from_str`, `from_scientific` and `normalize`). -/

namespace RecordQuery

-- Powers of natural numbers are those of the core library, whatever else is imported.
attribute [local instance (2000)] instPowNat

/-- An integer over a power of ten. -/
structure Decimal where
  coefficient : Int
  scale : Nat
  coefficient_lt : coefficient.natAbs < 2 ^ (96 : Nat)
  scale_le : scale ≤ 28
  deriving DecidableEq

namespace Decimal

/-- The decimal of a coefficient and a scale within bounds. -/
def ofParts? (coefficient : Int) (scale : Nat) : Option Decimal :=
  if h : coefficient.natAbs < 2 ^ (96 : Nat) ∧ scale ≤ 28 then some ⟨coefficient, scale, h.1, h.2⟩
  else none

/-- The value of a decimal digit. -/
def digit (c : Char) : Nat := c.toNat - '0'.toNat

/-- The value of a run of digits. -/
def natural (ds : List Char) : Nat := ds.foldl (fun n c => n * 10 + digit c) 0

/-- Rounds a coefficient by the first digit that did not fit. A coefficient that outgrows its bound
gives up its last digit as well. -/
def roundBy (n scale d : Nat) : Option (Nat × Nat) :=
  if d < 5 then some (n, scale)
  else if n + 1 < 2 ^ (96 : Nat) then some (n + 1, scale)
  else if scale = 0 then none
  else some ((n + 5) / 10, scale - 1)

/-- Takes in the digits behind the point while they fit. -/
def addFraction (n scale : Nat) : List Char → Option (Nat × Nat)
  | [] => some (n, scale)
  | c :: rest =>
    if scale < 28 ∧ n * 10 + digit c < 2 ^ (96 : Nat) then
      addFraction (n * 10 + digit c) (scale + 1) rest
    else roundBy n scale (digit c)

/-- Reads the digits on both sides of a point into a coefficient and a scale. -/
def readDigits (whole fraction : List Char) : Option (Nat × Nat) :=
  if natural whole < 2 ^ (96 : Nat) then addFraction (natural whole) 0 fraction else none

/-- Multiplies by a power of ten. -/
def shift (n scale : Nat) (tens : Int) : Option (Nat × Nat) :=
  if tens < 0 then
    if -tens ≤ 28 ∧ scale - tens ≤ 28 then some (n, (scale - tens).toNat) else none
  else if tens ≤ scale then some (n, (scale - tens).toNat)
  else if tens ≤ 28 ∧ n * 10 ^ (tens - scale).toNat < 2 ^ (96 : Nat) then
    some (n * 10 ^ (tens - scale).toNat, 0)
  else none

/-- Removes the zeros at the end of the part behind the point. -/
def stripZeros (n : Nat) : Nat → Nat × Nat
  | 0 => (n, 0)
  | scale + 1 => if n % 10 = 0 then stripZeros (n / 10) scale else (n, scale + 1)

/-- The decimal that digits on both sides of a point and a power of ten denote, without zeros at the
end of its part behind the point. -/
def read? (whole fraction : List Char) (tens : Option Int) : Option Decimal := do
  let (n, scale) ← readDigits whole fraction
  let (n, scale) ← match tens with
    | none => some (n, scale)
    | some t => shift n scale t
  let (n, scale) := stripZeros n scale
  ofParts? n scale

/-- Reads a decimal as `text` writes it, zeros at its end included. -/
def ofText? (s : String) : Option Decimal := do
  let (negative, cs) := match s.toList with
    | '-' :: cs => (true, cs)
    | '+' :: cs => (false, cs)
    | cs => (false, cs)
  let whole := cs.takeWhile Char.isDigit
  let fraction ← match cs.dropWhile Char.isDigit with
    | [] => some []
    | '.' :: rest => if rest.all Char.isDigit then some rest else none
    | _ => none
  if whole.isEmpty && fraction.isEmpty then none
  else
    let (n, scale) ← readDigits whole fraction
    ofParts? (if negative then -(n : Int) else n) scale

/-- The digits of a decimal with as many behind the point as its scale says. -/
def text (d : Decimal) : String :=
  let ds := Nat.toDigits 10 d.coefficient.natAbs
  let ds := List.replicate (d.scale + 1 - ds.length) '0' ++ ds
  let body := if d.scale = 0 then ds
    else ds.take (ds.length - d.scale) ++ '.' :: ds.drop (ds.length - d.scale)
  String.ofList (if d.coefficient < 0 then '-' :: body else body)

end Decimal

end RecordQuery
