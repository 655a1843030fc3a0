import QueryCost.Value.Arithmetic

/-!
# Declared costs

A declaration gives a field a base cost and names the arguments whose values multiply the cost of its
children. It can be attached to whatever defines the field.
-/
namespace QueryCost

/-- What a field is declared to cost (`Complexity`). -/
structure Declaration where
  base : Value
  multipliers : List Value
  deriving Inhabited

namespace Declaration

/-- Multipliers in any spelling: one name, several names, the keys of a mapping, or nothing. -/
def multipliersOf : Value → Except Fault (List Value)
  | .str name => .ok [.str name]
  | .list names => .ok names
  | .map entries => .ok (entries.map fun e => .str e.1)
  | v => if v.truthy then .error .typeMismatch else .ok []

def make (base multipliers : Value) : Except Fault Declaration := do
  return ⟨base, ← multipliersOf multipliers⟩

def toValue (d : Declaration) : Value := .declared d.base d.multipliers

/-- Equality of contents. -/
def same (a b : Declaration) : Bool := a.toValue.same b.toValue

end Declaration

/-- Something that resolves a field, possibly wrapped in layers around it. Each layer may carry a
declaration. -/
inductive Resolver where
  | bare (cost : Option Declaration)
  | wrapped (cost : Option Declaration) (inner : Resolver)

namespace Resolver

/-- The declaration of the outermost layer that has one. -/
def declaration? : Resolver → Option Declaration
  | bare cost => cost
  | wrapped (some d) _ => some d
  | wrapped none inner => inner.declaration?

/-- Attach a declaration to the outermost layer. -/
def decorate (d : Declaration) : Resolver → Resolver
  | bare _ => bare (some d)
  | wrapped _ inner => wrapped (some d) inner

/-- Put `n` layers without a declaration around a resolver. -/
def wrap (r : Resolver) : Nat → Resolver
  | 0 => r
  | n + 1 => wrapped none (r.wrap n)

end Resolver

end QueryCost
