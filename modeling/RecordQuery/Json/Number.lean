import RecordQuery.Json.Value
import RecordQuery.Number.Decimal

/-! # Reading JSON numbers

A number without point and exponent is an integer if it lies between `-2 ^ 63` and `2 ^ 64 - 1`,
except negative zero. Every other number becomes a floating point number in three steps, each
rounded by itself: digits are gathered into a significand below `2 ^ 64`, the significand is taken
to the nearest floating point number, and that is multiplied or divided by the nearest one to a
power of ten. Digits of the whole part that do not fit count as powers of ten; digits behind the
point are dropped from the first one that does not fit. Division goes by at most `1e308` at a time.
A result beyond the finite numbers is an error.

This is the reading of numbers in the package `serde_json` without its feature `float_roundtrip`:
the number that comes out need not be the nearest one. -/

namespace RecordQuery.Json.Number

-- Powers of natural numbers are those of the core library, whatever else is imported.
attribute [local instance (2000)] instPowNat

/-- Takes digits into a significand while it stays below `2 ^ 64`; the second part holds the digits
from the first one that does not fit. -/
def gather (n : Nat) : List Char → Nat × List Char
  | [] => (n, [])
  | c :: rest =>
    if n * 10 + Decimal.digit c < 2 ^ (64 : Nat) then gather (n * 10 + Decimal.digit c) rest
    else (n, c :: rest)

/-- The greatest exponent of ten that one step multiplies or divides by. -/
def maxTens : Nat := 308

/-- Divides by a power of ten in one step. -/
def divideTens (x : Binary64) (tens : Nat) : Option Binary64 :=
  (Binary64.ofTens? 1 tens).bind x.div?

/-- Divides by the greatest power of ten a number of times, or until zero is reached. -/
def divideMax (x : Binary64) : Nat → Option Binary64
  | 0 => some x
  | n + 1 => if x.isZero then some x else (divideTens x maxTens).bind (divideMax · n)

/-- Multiplies or divides by a power of ten. -/
def scaleTens (x : Binary64) (tens : Int) : Option Binary64 :=
  if tens < 0 then
    let n := (-tens).toNat
    let steps := (n - 1) / maxTens
    (divideMax x steps).bind (divideTens · (n - steps * maxTens))
  else if tens ≤ maxTens then (Binary64.ofTens? 1 tens).bind x.mul?
  else if x.isZero then some x
  else none

/-- The floating point number of a sign, a significand and a power of ten. -/
def float? (negative : Bool) (significand : Nat) (tens : Int) : Option Json := do
  let x ← Binary64.ofRatio? significand 1
  let y ← scaleTens x tens
  some (.float (if negative then y.negate else y))

/-- The number of a sign, a significand and a power of ten without point and exponent. -/
def whole? (negative : Bool) (significand : Nat) (tens : Nat) : Option Json :=
  if 0 < tens then float? negative significand tens
  else if !negative then some (.integer significand)
  else if 0 < significand ∧ significand ≤ 2 ^ (63 : Nat) then some (.integer (-significand))
  else float? true significand 0

/-- The exponent at the start of a text, if one is written, and what follows it. -/
def exponent? : List Char → Option (Option Int × List Char)
  | c :: rest =>
    if c = 'e' ∨ c = 'E' then
      let (negative, rest) := match rest with
        | '+' :: rest => (false, rest)
        | '-' :: rest => (true, rest)
        | rest => (false, rest)
      let ds := rest.takeWhile Char.isDigit
      if ds.isEmpty then none
      else
        let e : Int := Decimal.natural ds
        some (some (if negative then -e else e), rest.dropWhile Char.isDigit)
    else some (none, c :: rest)
  | [] => some (none, [])

/-- The digits behind a point at the start of a text, if one is written, and what follows them. -/
def fraction? : List Char → Option (Option (List Char) × List Char)
  | '.' :: rest =>
    let ds := rest.takeWhile Char.isDigit
    if ds.isEmpty then none else some (some ds, rest.dropWhile Char.isDigit)
  | rest => some (none, rest)

/-- The number at the start of a text, and what follows it. -/
def read? (cs : List Char) : Option (Json × List Char) := do
  let (negative, cs) := match cs with
    | '-' :: cs => (true, cs)
    | cs => (false, cs)
  let whole := cs.takeWhile Char.isDigit
  if whole.isEmpty ∨ (whole.head? = some '0' ∧ 1 < whole.length) then none
  else
    let (n, left) := gather 0 whole
    let (fraction, rest) ← fraction? (cs.dropWhile Char.isDigit)
    let (tens, rest) ← exponent? rest
    match fraction, tens with
    | none, none => (whole? negative n left.length).map (·, rest)
    | none, some e => (float? negative n (left.length + e)).map (·, rest)
    | some ds, tens =>
      let (m, dropped) := gather n ds
      let taken : Int := ds.length - dropped.length
      (float? negative m (left.length - taken + tens.getD 0)).map (·, rest)

end RecordQuery.Json.Number
