import QueryCost.Binary64.Shortest

/-!
# Numbers

Costs are integers of any size or doubles. Integer arithmetic is exact; with a double on one side the
integer is converted first, which faults outside the range of doubles. Comparison is exact.
-/
namespace QueryCost

/-- What can stop an evaluation besides a verdict. -/
inductive Fault where
  /-- An integer outside the range of doubles met floating arithmetic. -/
  | overflow
  /-- An operation on values of the wrong kind. -/
  | typeMismatch
  /-- A declared cost that refers to itself without end. -/
  | endless
  /-- An estimator gave up with a message. -/
  | raised (text : String)
  deriving DecidableEq, Repr

inductive Number where
  | int (n : Int)
  | float (x : Binary64)
  deriving DecidableEq, Repr

/-- The number line with its two ends, in units of the smallest double. -/
inductive Position where
  | bottom
  | units (k : Int)
  | top
  deriving DecidableEq, Repr

def Position.lt : Position → Position → Bool
  | bottom, bottom => false
  | bottom, _ => true
  | _, bottom => false
  | units a, units b => a < b
  | units _, top => true
  | top, _ => false

namespace Number

instance : Inhabited Number := ⟨.int 0⟩

def toBinary64 : Number → Except Fault Binary64
  | int n => (Binary64.ofInt? n).elim (.error .overflow) .ok
  | float x => .ok x

def add : Number → Number → Except Fault Number
  | int m, int n => .ok (int (m + n))
  | a, b => do return float ((← a.toBinary64).add (← b.toBinary64))

def mul : Number → Number → Except Fault Number
  | int m, int n => .ok (int (m * n))
  | a, b => do return float ((← a.toBinary64).mul (← b.toBinary64))

/-- Finiteness as seen by floating arithmetic: an integer has to fit into a double. -/
def isFinite : Number → Except Fault Bool
  | int n => (Binary64.ofInt? n).elim (.error .overflow) fun _ => .ok true
  | float x => .ok x.isFinite

/-- Place on the number line; a NaN has none. -/
def position : Number → Option Position
  | int n => some (.units (n * Binary64.unitsOfOne))
  | float .nan => none
  | float (.infinite negative) => some (if negative then .bottom else .top)
  | float (.finite negative units) => some (.units (Binary64.signed negative units))

/-- True numeric order; false if a NaN takes part. -/
def lt (a b : Number) : Bool :=
  match a.position, b.position with
  | some x, some y => x.lt y
  | _, _ => false

def le (a b : Number) : Bool :=
  match a.position, b.position with
  | some x, some y => x.lt y || x == y
  | _, _ => false

/-- True numeric equality; a NaN equals nothing. -/
def eq (a b : Number) : Bool :=
  match a.position, b.position with
  | some x, some y => x == y
  | _, _ => false

def isZero (a : Number) : Bool := a.eq (int 0)

def text : Number → String
  | int n => toString n
  | float x => x.text

end Number

end QueryCost
