import QueryCost.Estimate.Declared

/-!
# Formulas

Estimators that are given by a description. Their memory holds the positions of sequences and the
records of the calls that were to be recorded.
-/
namespace QueryCost

/-- A recorded call. -/
structure Record where
  field : String
  type : String
  args : Entries
  child : Value

structure Memory where
  /-- Number of values that each sequence has given. -/
  positions : List (Nat × Nat)
  records : Array Record

namespace Memory

def empty : Memory := ⟨[], #[]⟩

def position (m : Memory) (key : Nat) : Nat :=
  ((m.positions.find? (·.1 == key)).map (·.2)).getD 0

def advance (m : Memory) (key : Nat) : Memory :=
  { m with positions := (key, m.position key + 1) :: m.positions.filter (·.1 != key) }

end Memory

namespace Formula

/-- The estimate a formula gives, with `declared` for the declared cost of a field. -/
def apply (declared : Estimate Memory) : Formula → Estimate Memory
  | .flat base => Estimate.flat base
  | .declaration => declared
  | .constant v => .constant v
  | .paged argument => .reading fun call =>
    match Entries.get? call.args argument with
    | none => return .null
    | some .null => return .null
    | some v => Run.ofExcept (do v.mul (← (Value.int 1).add call.child))
  | .linear base slope => .reading fun call =>
    Run.ofExcept (do base.add (← slope.mul call.child))
  | .byField table => .reading fun call => return (Entries.get? table call.name).getD .null
  | .byType table => .reading fun call => return (Entries.get? table call.parent.name).getD .null
  | .sequence key values => .reading fun _ => do
    let memory ← get
    set (memory.advance key)
    return (values[memory.position key]?).getD .null
  | .failing text => fun _ => throw (.raised text)
  | .recording v => .reading fun call => do
    let entry : Record := ⟨call.name, call.parent.name, call.args, call.child⟩
    modify fun memory => { memory with records := memory.records.push entry }
    return v
  | .inert => fun _ => throw .typeMismatch

/-- The estimate a formula gives. A declared cost whose callable asks for the declared cost again has
no end. -/
def estimate (formula : Formula) : Estimate Memory :=
  formula.apply (Estimate.declared (apply fun _ => throw .endless))

/-- The formulas used where none are configured: declared costs, then one per field. -/
def defaults : List Formula := [.declaration, .flat (.int 1)]

end Formula

end QueryCost
