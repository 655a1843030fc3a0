import QueryCost.Binary64.Basic

/-!
# Shortest decimal text of a binary64 number

The digits are the fewest that read back as the same double, and of those the nearest to it. Numbers
whose first digit has an exponent from -4 to 15 are written positionally and always show a point;
others in scientific notation with a signed exponent of at least two digits.
-/
namespace QueryCost.Binary64

/-- A decimal `digits * 10 ^ exponent`. -/
structure Decimal where
  digits : Nat
  exponent : Int
  deriving DecidableEq, Repr

/-- Numerator and denominator of a decimal in units. -/
def Decimal.units (d : Decimal) : Nat × Nat :=
  (d.digits * Nat.pow 10 d.exponent.toNat * unitsOfOne, Nat.pow 10 (-d.exponent).toNat)

/-- The ends, in quarter units, of the reals that round to a magnitude, and whether the ends do so
too. Below a power of two the doubles lie half as far apart as above it. -/
structure Basin where
  low : Nat
  high : Nat
  closed : Bool
  deriving Repr

def basin (units : Nat) : Basin :=
  let k := spareBits units
  let significand := units / Nat.pow 2 k
  let below := if significand = Nat.pow 2 52 ∧ 0 < k then Nat.pow 2 k else 2 * Nat.pow 2 k
  ⟨4 * units - below, 4 * units + 2 * Nat.pow 2 k, significand % 2 = 0⟩

def Basin.contains (b : Basin) (d : Decimal) : Bool :=
  let (num, den) := d.units
  if b.closed then b.low * den ≤ 4 * num && 4 * num ≤ b.high * den
  else b.low * den < 4 * num && 4 * num < b.high * den

/-- The least `e` with the magnitude below `10 ^ e`; no positive double is below `10 ^ -400`. -/
def decimalMagnitude (units : Nat) : Int :=
  ((Nat.toDigits 10 (units * Nat.pow 10 400 / unitsOfOne)).length : Int) - 400

/-- Greatest decimal of the given exponent that is not above the magnitude. -/
def floorAt (units : Nat) (exponent : Int) : Decimal :=
  ⟨units * Nat.pow 10 (-exponent).toNat / (unitsOfOne * Nat.pow 10 exponent.toNat), exponent⟩

/-- Of two neighbours around a magnitude the nearer one; a tie goes to even digits. -/
def nearer (units : Nat) (lower upper : Decimal) : Decimal :=
  let (a, den) := lower.units
  let (b, _) := upper.units
  let toLower := units * den - a
  let toUpper := b - units * den
  if toLower < toUpper then lower
  else if toUpper < toLower then upper
  else if lower.digits % 2 = 0 then lower else upper

/-- The neighbours of a magnitude on the grid of `count` significant digits that read back. -/
def candidate? (units count : Nat) : Option Decimal :=
  let lower := floorAt units (decimalMagnitude units - count)
  let upper := { lower with digits := lower.digits + 1 }
  let area := basin units
  match area.contains lower, area.contains upper with
  | true, true => some (nearer units lower upper)
  | true, false => some lower
  | false, true => some upper
  | false, false => none

/-- Fewest digits that read back; seventeen always do. -/
def shortest (units : Nat) : Decimal :=
  ((List.range 17).findSome? fun n => candidate? units (n + 1)).getD
    ⟨units * Nat.pow 5 1074, -1074⟩

/-- Decimal digits without trailing zeros. -/
def significantDigits (d : Decimal) : List Char :=
  ((Nat.toDigits 10 d.digits).reverse.dropWhile (· = '0')).reverse

def zeros (n : Nat) : List Char := List.replicate n '0'

def exponentText (e : Int) : List Char :=
  let digits := Nat.toDigits 10 e.natAbs
  'e' :: (if e < 0 then '-' else '+') :: (zeros (2 - digits.length) ++ digits)

/-- Lay out significant digits whose first one has the decimal exponent `e`. -/
def layout (digits : List Char) (e : Int) : List Char :=
  if -4 ≤ e ∧ e < 16 then
    if e < 0 then '0' :: '.' :: (zeros (-e - 1).toNat ++ digits)
    else
      let whole := e.toNat + 1
      let padded := digits ++ zeros (whole - digits.length)
      let fraction := padded.drop whole
      padded.take whole ++ '.' :: (if fraction = [] then ['0'] else fraction)
  else
    let mantissa := match digits with
      | [] => ['0']
      | [d] => [d]
      | d :: rest => d :: '.' :: rest
    mantissa ++ exponentText e

def magnitudeText (units : Nat) : List Char :=
  if units = 0 then ['0', '.', '0']
  else
    let d := shortest units
    layout (significantDigits d) ((Nat.toDigits 10 d.digits).length + d.exponent - 1)

/-- The text of a double. -/
def text : Binary64 → String
  | nan => "nan"
  | infinite negative => if negative then "-inf" else "inf"
  | finite negative units =>
    String.ofList (if negative then '-' :: magnitudeText units else magnitudeText units)

end QueryCost.Binary64
