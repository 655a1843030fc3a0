import QueryCost.Value.Entries

/-!
# Arithmetic and equality of values

Booleans count as the integers 0 and 1. Two texts or two lists can be joined, and a text or list can
be repeated an integral number of times; every other mixture is a type mismatch.
-/
namespace QueryCost.Value

/-- The number a value stands for in arithmetic. -/
def number? : Value → Option Number
  | .num x => some x
  | .bool b => some (.int (if b then 1 else 0))
  | _ => none

/-- Repetition counts are signed 64-bit words. -/
def repetitions (n : Int) : Except Fault Nat :=
  if n < -9223372036854775808 ∨ 9223372036854775808 ≤ n then .error .overflow else .ok n.toNat

def repeatText (s : String) (n : Int) : Except Fault Value := do
  return .str (String.join (List.replicate (← repetitions n) s))

def repeatList (items : List Value) (n : Int) : Except Fault Value := do
  return .list (List.replicate (← repetitions n) items).flatten

def addNumbers (a b : Value) : Except Fault Value :=
  match a.number?, b.number? with
  | some x, some y => return .num (← x.add y)
  | _, _ => .error .typeMismatch

def add (a b : Value) : Except Fault Value :=
  match a, b with
  | .str s, .str t => .ok (.str (s ++ t))
  | .list xs, .list ys => .ok (.list (xs ++ ys))
  | a, b => addNumbers a b

/-- A product in which one side is a text or list. -/
def repeated (a count : Value) : Except Fault Value :=
  match a, count.number? with
  | .str s, some (.int n) => repeatText s n
  | .list xs, some (.int n) => repeatList xs n
  | _, _ => .error .typeMismatch

def mul (a b : Value) : Except Fault Value :=
  match a.number?, b.number? with
  | some x, some y => return .num (← x.mul y)
  | some _, none => repeated b a
  | none, _ => repeated a b

theorem add_num (x y : Number) : (Value.num x).add (.num y) = (x.add y).map .num := by
  unfold add addNumbers
  simp only [number?]
  cases x.add y <;> rfl

theorem mul_num (x y : Number) : (Value.num x).mul (.num y) = (x.mul y).map .num := by
  unfold mul
  simp only [number?]
  cases x.mul y <;> rfl

mutual

/-- Equality of contents: numbers by value, mappings without regard to order. A NaN equals nothing,
and neither does a callable. -/
def same : Value → Value → Bool
  | .null, .null => true
  | .undefined, .undefined => true
  | .str s, .str t => s == t
  | .list xs, .list ys => sameItems xs ys
  | .map xs, .map ys => xs.length == ys.length && sameEntries xs ys
  | .declared v ms, .declared w ns => same v w && sameItems ms ns
  | .bool a, b => match b.number? with
    | some y => (Number.int (if a then 1 else 0)).eq y
    | none => false
  | .num x, b => match b.number? with
    | some y => x.eq y
    | none => false
  | _, _ => false

def sameItems : List Value → List Value → Bool
  | [], [] => true
  | x :: xs, y :: ys => same x y && sameItems xs ys
  | _, _ => false

def sameEntries : List (String × Value) → List (String × Value) → Bool
  | [], _ => true
  | (k, x) :: xs, ys => (match Entries.get? ys k with
    | some y => same x y
    | none => false) && sameEntries xs ys

end

mutual

/-- Whether a value can serve as a key: lists and mappings cannot. -/
def isKey : Value → Bool
  | .list _ => false
  | .map _ => false
  | .declared base multipliers => isKey base && areKeys multipliers
  | _ => true

def areKeys : List Value → Bool
  | [] => true
  | v :: vs => isKey v && areKeys vs

end

end QueryCost.Value
