import QueryCost.Declaration.Lookup
import QueryCost.Estimate.Basic

/-!
# Declared costs as estimates

A declared cost is its base plus the children times the product of the multiplier arguments. Arguments
that are missing or not finite numbers count as one. A callable base gives the whole cost itself.
-/
namespace QueryCost.Estimate

variable {σ : Type}

/-- The key under which the value of a multiplier is found. -/
def multiplierKey (field : FieldDef) (name : String) : String :=
  match field.arg? name with
  | some arg => arg.key
  | none => name

/-- The value of a multiplier; names that are not texts match no argument. -/
def multiplierValue (call : Call) : Value → Value
  | .str name => (Entries.get? call.args (multiplierKey call.field name)).getD .null
  | _ => .null

/-- Multiply a factor by the arguments that are named. -/
def multiply (call : Call) : Number → List Value → Run σ Number
  | factor, [] => return factor
  | factor, name :: rest => do
    if !name.isKey then throw .typeMismatch
    match (← Run.ofExcept (multiplierValue call name).finite?) with
    | some x => do
      let factor ← Run.ofExcept (factor.mul x)
      multiply call factor rest
    | none => do
      Run.note (.multiplier name call.name)
      multiply call factor rest

/-- The cost of a declaration whose base is a plain value. -/
def plainCost (call : Call) (d : Declaration) : Run σ Value := do
  let factor ← multiply call (.int 1) d.multipliers
  let children ← Run.ofExcept ((Value.num factor).mul call.child)
  Run.ofExcept (d.base.add children)

/-- The estimate that a field's declaration gives (`field_extensions_estimator`), with `apply` for
callable bases. A field without a declaration gets no estimate. -/
def declared (apply : Formula → Estimate σ) : Estimate σ := fun call => do
  match (← Run.ofExcept (Declaration.find? call.field (some call.parent) (some call.name))) with
  | none => return call.reply .null
  | some d =>
    match d.base with
    | .callable formula => apply formula call
    | .declared _ _ => throw .typeMismatch
    | _ => return call.reply (← plainCost call d)

end QueryCost.Estimate
