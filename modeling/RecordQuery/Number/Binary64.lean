/-! # Binary floating point numbers of 64 bits

A finite number is a sign, a mantissa below `2 ^ 53` and an exponent of at least `-1074`; its value
is the mantissa times two to the exponent. The numbers built here are in canonical form: the
mantissa has 53 bits unless the exponent is the least one. Every operation takes the exact quotient
of two natural numbers to the nearest number, a half to the even mantissa, and fails where that
number is beyond the greatest finite one. -/

namespace RecordQuery

-- Powers of natural numbers are those of the core library, whatever else is imported.
attribute [local instance (2000)] instPowNat

/-- A finite binary floating point number of 64 bits. -/
structure Binary64 where
  negative : Bool
  mantissa : Nat
  exponent : Int
  deriving DecidableEq

namespace Binary64

/-- Positive zero. -/
def zero : Binary64 := ⟨false, 0, -1074⟩

/-- Whether a number is a zero of either sign. -/
def isZero (x : Binary64) : Bool := x.mantissa == 0

/-- The number with the other sign. -/
def negate (x : Binary64) : Binary64 := { x with negative := !x.negative }

/-- The quotient taken to the nearest natural number, a half to the even one. -/
def roundQuotient (num den : Nat) : Nat :=
  let q := num / den
  let r := num % den
  if 2 * r < den ∨ (2 * r = den ∧ q % 2 = 0) then q else q + 1

/-- The least exponent at which a positive quotient has a mantissa of at most 53 bits. -/
def exponentOf (num den : Nat) : Int :=
  let guess : Int := (num.log2 : Int) - den.log2 - 52
  let full := 2 ^ (52 : Nat) * den * 2 ^ guess.toNat ≤ num * 2 ^ (-guess).toNat
  max (if full then guess else guess - 1) (-1074)

/-- The number nearest to a quotient. -/
def ofRatio? (num den : Nat) : Option Binary64 :=
  if num = 0 then some zero
  else
    let e := exponentOf num den
    let m := roundQuotient (num * 2 ^ (-e).toNat) (den * 2 ^ e.toNat)
    let x : Binary64 := if m = 2 ^ (53 : Nat) then ⟨false, 2 ^ (52 : Nat), e + 1⟩ else ⟨false, m, e⟩
    if x.exponent ≤ 971 then some x else none

/-- The number nearest to a natural number times a power of two. -/
def ofScaled? (m : Nat) (e : Int) : Option Binary64 :=
  ofRatio? (m * 2 ^ e.toNat) (2 ^ (-e).toNat)

/-- The number nearest to a product. -/
def mul? (x y : Binary64) : Option Binary64 :=
  (ofScaled? (x.mantissa * y.mantissa) (x.exponent + y.exponent)).map fun z =>
    { z with negative := x.negative != y.negative }

/-- The number nearest to a quotient of numbers, the second one not zero. -/
def div? (x y : Binary64) : Option Binary64 :=
  let e := x.exponent - y.exponent
  (ofRatio? (x.mantissa * 2 ^ e.toNat) (y.mantissa * 2 ^ (-e).toNat)).map fun z =>
    { z with negative := x.negative != y.negative }

/-- The count of decimal digits of a natural number. -/
def digitCount (n : Nat) : Nat := (Nat.toDigits 10 n).length

/-- The number nearest to `n * 10 ^ tens`. Powers far beyond the range are not computed: such a
value is too great, or so small that zero is nearest. -/
def ofTens? (n : Nat) (tens : Int) : Option Binary64 :=
  if n = 0 then some zero
  else if tens + digitCount n > 310 then none
  else if tens + digitCount n < -330 then some zero
  else ofRatio? (n * 10 ^ tens.toNat) (10 ^ (-tens).toNat)

end Binary64

end RecordQuery
