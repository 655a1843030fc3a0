import QueryCost.Value.Text

/-!
# Limits

The highest cost and the highest number of nodes an operation may have. Limits are checked where they
are configured: first the cost, then that there is an estimator, then the nodes.
-/
namespace QueryCost

structure Limits where
  maximum : Number
  nodes : Nat
  deriving DecidableEq, Repr

/-- Why a configuration is refused. -/
inductive SetupError where
  | fault (f : Fault)
  | maximum (given : Value)
  | noEstimators
  | nodes (given : Value)

namespace SetupError

/-- The message of a refused configuration; a fault has none. -/
def message? : SetupError → Option String
  | fault _ => none
  | maximum given =>
    some ("Invalid maximum_complexity: " ++ given.text ++ ". Must be a positive finite number.")
  | noEstimators => some "At least one complexity estimator is required."
  | nodes given =>
    some ("Invalid maximum_node_count: " ++ given.text ++ ". Must be a positive integer.")

end SetupError

namespace Limits

def defaultMaximum : Value := .int 1000
def defaultNodes : Value := .int 10000

/-- A maximum is a positive finite number. -/
def readMaximum (given : Value) : Except SetupError Number :=
  match given.finite? with
  | .error f => .error (.fault f)
  | .ok none => .error (.maximum given)
  | .ok (some x) => if (Number.int 0).lt x then .ok x else .error (.maximum given)

/-- A node limit is a positive integer. -/
def readNodes (given : Value) : Except SetupError Nat :=
  match given with
  | .num (.int n) => if 0 < n then .ok n.toNat else .error (.nodes given)
  | _ => .error (.nodes given)

/-- Limits from configured values, for a chain of so many estimators (`check_configuration`). -/
def make (maximum : Value) (estimators : Nat) (nodes : Value) : Except SetupError Limits := do
  let maximum ← readMaximum maximum
  if estimators = 0 then throw .noEstimators
  return ⟨maximum, ← readNodes nodes⟩

end Limits

end QueryCost
