import QueryCost.Number

/-!
# Values

Arguments, variables, extensions and estimates are dynamic: a client or a schema author may put any
of these where a number is expected. A callable value is described by the formula it computes.
-/
namespace QueryCost

mutual

inductive Value where
  | null
  /-- The value of a variable or literal that has none. -/
  | undefined
  | bool (b : Bool)
  | num (x : Number)
  | str (s : String)
  | list (items : List Value)
  /-- Entries in insertion order, one per key. -/
  | map (entries : List (String × Value))
  /-- A declared cost: base and the arguments that multiply the children. -/
  | declared (base : Value) (multipliers : List Value)
  | callable (formula : Formula)

/-- How a callable computes an estimate from the call it is given. -/
inductive Formula where
  /-- `base` plus the children. -/
  | flat (base : Value)
  /-- What the field's own declaration says. -/
  | declaration
  | constant (v : Value)
  /-- An argument times one plus the children; nothing without that argument. -/
  | paged (argument : String)
  /-- `base` plus `slope` times the children. -/
  | linear (base slope : Value)
  | byField (table : List (String × Value))
  | byType (table : List (String × Value))
  /-- One value after the other; calls with the same `key` share a position. -/
  | sequence (key : Nat) (values : List Value)
  | failing (text : String)
  /-- Leave a record of the call. -/
  | recording (v : Value)
  /-- Something that cannot be called. -/
  | inert

end

instance : Inhabited Value := ⟨.null⟩
instance : Inhabited Formula := ⟨.inert⟩

namespace Value

def int (n : Int) : Value := .num (.int n)
def float (x : Binary64) : Value := .num (.float x)

def isUndefined : Value → Bool
  | .undefined => true
  | _ => false

def isNull : Value → Bool
  | .null => true
  | _ => false

/-- Whether a value can be called; a declared cost can be applied to a field. -/
def isCallable : Value → Bool
  | .declared _ _ => true
  | .callable _ => true
  | _ => false

/-- Emptiness, zero and absence are false. -/
def truthy : Value → Bool
  | .null => false
  | .undefined => false
  | .bool b => b
  | .num x => !x.isZero
  | .str s => s != ""
  | .list items => !items.isEmpty
  | .map entries => !entries.isEmpty
  | .declared _ _ => true
  | .callable _ => true

/-- A finite number, and not a Boolean (`is_finite_number`). -/
def finite? : Value → Except Fault (Option Number)
  | .num x => do return if (← x.isFinite) then some x else none
  | _ => .ok none

theorem finite?_float (x : Binary64) :
    (Value.num (.float x)).finite? = .ok (if x.isFinite then some (.float x) else none) := rfl

end Value

end QueryCost
