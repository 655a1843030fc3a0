/-!
# Binary64 numbers

A finite double is a whole number of units of `2 ^ -1074`, so sums, products and comparisons are
computed exactly on naturals and rounded once, to nearest with ties to even.
-/
namespace QueryCost

inductive Binary64 where
  | nan
  | infinite (negative : Bool)
  | finite (negative : Bool) (units : Nat)
  deriving DecidableEq, Repr

namespace Binary64

/-- Units in the number one. -/
@[irreducible] def unitsOfOne : Nat := Nat.pow 2 1074

/-- Magnitudes of this many units and more are beyond the finite doubles. -/
@[irreducible] def overflowUnits : Nat := Nat.pow 2 2098

/-- The quotient nearest to `num / den`; a half goes to the even neighbour. -/
def roundDivEven (num den : Nat) : Nat :=
  let q := num / den
  let twice := 2 * (num % den)
  if twice < den then q else if den < twice then q + 1 else q + q % 2

/-- Binary places beyond the 53 that a significand holds. -/
def spareBits (n : Nat) : Nat :=
  if n < Nat.pow 2 53 then 0 else n.log2 - 52

/-- The multiple of the spacing at `num / den` units that is nearest to it. -/
def roundUnits (num den : Nat) : Nat :=
  let k := spareBits (num / den)
  roundDivEven num (den * Nat.pow 2 k) * Nat.pow 2 k

/-- The double nearest to `num / den` units. -/
def round (negative : Bool) (num den : Nat) : Binary64 :=
  let units := roundUnits num den
  if units < overflowUnits then finite negative units else infinite negative

def isFinite : Binary64 → Bool
  | finite _ _ => true
  | _ => false

/-- Units with their sign. -/
def signed (negative : Bool) (units : Nat) : Int :=
  if negative then -units else units

/-- The double itself, if it is finite. -/
def finite? : Binary64 → Option Binary64
  | finite s u => some (finite s u)
  | _ => none

/-- The double nearest to an integer, if that is finite. -/
def ofInt? (n : Int) : Option Binary64 :=
  (round (n < 0) (n.natAbs * unitsOfOne) 1).finite?

/-- The integer equal to a double. -/
def toInt? : Binary64 → Option Int
  | finite s u => if u % unitsOfOne = 0 then some (signed s (u / unitsOfOne)) else none
  | _ => none

def add : Binary64 → Binary64 → Binary64
  | nan, _ => nan
  | _, nan => nan
  | infinite s, infinite t => if s = t then infinite s else nan
  | infinite s, finite _ _ => infinite s
  | finite _ _, infinite t => infinite t
  | finite s m, finite t n =>
    if s = t then round s (m + n) 1
    else if m = n then finite false 0
    else if n < m then round s (m - n) 1
    else round t (n - m) 1

def mul : Binary64 → Binary64 → Binary64
  | nan, _ => nan
  | _, nan => nan
  | infinite s, infinite t => infinite (s != t)
  | infinite s, finite t n => if n = 0 then nan else infinite (s != t)
  | finite s m, infinite t => if m = 0 then nan else infinite (s != t)
  | finite s m, finite t n => round (s != t) (m * n) unitsOfOne

end Binary64

end QueryCost
