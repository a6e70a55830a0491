import RecordQuery.Number.Binary64

/-! # The fewest digits that read back

A floating point number is written with the fewest decimal digits that lie nearer to it than to any
other number. The reals that are read as `m * 2 ^ e` form an interval around it: half a step up, and
half a step down (a quarter where the next lower number is twice as near); its ends belong to it
when `m` is even. In units of a quarter step all three bounds are natural numbers (`Interval`). On
the grid of the multiples of `10 ^ k` only the two neighbours of the number can lie in the interval
unless a coarser grid was hit before, so the grids are tried from one digit to seventeen
(`shortest`).

`FloatStyle` holds what formats decide: which decimal exponents are written positionally, whether a
positive exponent has a sign, and which neighbour an exact tie prefers. -/

namespace RecordQuery

-- Powers of natural numbers are those of the core library, whatever else is imported.
attribute [local instance (2000)] instPowNat

/-- A coefficient times a power of ten. -/
structure Digits where
  coefficient : Nat
  exponent : Int

namespace Binary64

/-- The bounds `low * num / den`, `here * num / den` and `high * num / den` of the reals that are
read as one number, whose own value is the middle one. -/
structure Interval where
  low : Nat
  here : Nat
  high : Nat
  closed : Bool
  num : Nat
  den : Nat

/-- The reals that are read as the absolute value of a number. -/
def interval (x : Binary64) : Interval where
  low := 4 * x.mantissa - if x.mantissa = 2 ^ (52 : Nat) ∧ -1074 < x.exponent then 1 else 2
  here := 4 * x.mantissa
  high := 4 * x.mantissa + 2
  closed := x.mantissa % 2 == 0
  num := 2 ^ (x.exponent - 2).toNat
  den := 2 ^ (2 - x.exponent).toNat

/-- Whether `d * 10 ^ k` lies in an interval. -/
def Interval.holds (v : Interval) (d : Nat) (k : Int) : Bool :=
  let low := v.low * v.num * 10 ^ (-k).toNat
  let high := v.high * v.num * 10 ^ (-k).toNat
  let point := d * 10 ^ k.toNat * v.den
  if v.closed then decide (low ≤ point ∧ point ≤ high) else decide (low < point ∧ point < high)

/-- The point of the grid of `10 ^ k` that lies in an interval, the nearer one of two. At equal
distance the upper one is taken, or else the even one. -/
def Interval.onGrid? (v : Interval) (halfUp : Bool) (k : Int) : Option Digits :=
  let num := v.here * v.num * 10 ^ (-k).toNat
  let den := v.den * 10 ^ k.toNat
  let d := num / den
  let r := num % den
  match v.holds d k, v.holds (d + 1) k with
  | false, false => none
  | true, false => some ⟨d, k⟩
  | false, true => some ⟨d + 1, k⟩
  | true, true =>
    let down := 2 * r < den ∨ (2 * r = den ∧ !halfUp ∧ d % 2 = 0)
    some ⟨if down then d else d + 1, k⟩

/-- The exponent of the first decimal digit of a positive quotient. -/
def leadingExponent (num den : Nat) : Int :=
  let guess : Int := ((num.log2 : Int) - den.log2 - 1) * 30103 / 100000 - 1
  let reached (p : Int) : Bool := decide (den * 10 ^ p.toNat ≤ num * 10 ^ (-p).toNat)
  if reached (guess + 2) then guess + 2 else if reached (guess + 1) then guess + 1 else guess

/-- The fewest digits that are read as the absolute value of a number. -/
def shortest (halfUp : Bool) (x : Binary64) : Digits :=
  if x.isZero then ⟨0, 0⟩
  else
    let v := x.interval
    let p := leadingExponent (v.here * v.num) v.den
    let hit := (List.range 17).findSome? fun (n : Nat) => v.onGrid? halfUp (p - (n : Int))
    hit.getD ⟨x.mantissa, x.exponent⟩

end Binary64

/-- What a format decides about the text of a floating point number: exponents from `plainFrom` and
below `plainBelow` are written positionally, `plusSign` marks a positive exponent, and `halfUp`
sends a tie to the upper neighbour instead of the even one. -/
structure FloatStyle where
  plainFrom : Int
  plainBelow : Int
  plusSign : Bool
  halfUp : Bool

namespace FloatStyle

/-- Digits `d…` with the first one at exponent `p`, written without an exponent. -/
def positional (ds : List Char) (p : Int) : List Char :=
  if p < 0 then '0' :: '.' :: List.replicate (-p - 1).toNat '0' ++ ds
  else
    let n := p.toNat + 1
    if ds.length ≤ n then ds ++ List.replicate (n - ds.length) '0' ++ ['.', '0']
    else ds.take n ++ '.' :: ds.drop n

/-- Digits `d…` with the first one at exponent `p`, written with an exponent. -/
def scientific (plusSign : Bool) (ds : List Char) (p : Int) : List Char :=
  let fraction := match ds.drop 1 with
    | [] => []
    | rest => '.' :: rest
  ds.take 1 ++ fraction ++ 'e' :: (if plusSign && 0 ≤ p then ['+'] else []) ++ (toString p).toList

/-- The digits of a natural number without the zeros at its end. -/
def significant (n : Nat) : List Char :=
  match ((Nat.toDigits 10 n).reverse.dropWhile (· == '0')).reverse with
  | [] => ['0']
  | ds => ds

/-- The text of a floating point number. -/
def write (style : FloatStyle) (x : Binary64) : String :=
  let digits := x.shortest style.halfUp
  let p := digits.exponent + Binary64.digitCount digits.coefficient - 1
  let ds := significant digits.coefficient
  let body := if style.plainFrom ≤ p ∧ p < style.plainBelow then positional ds p
    else scientific style.plusSign ds p
  String.ofList (if x.negative then '-' :: body else body)

end FloatStyle

end RecordQuery
