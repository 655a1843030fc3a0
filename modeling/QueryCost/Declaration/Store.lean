import QueryCost.Declaration.Lookup

/-!
# Declarations on shared objects

Fields, tables of extensions and layers of resolvers are objects that refer to each other. A table may belong to
many fields at once, and a layer may be wrapped by many others, so attaching a declaration to one object
can be felt elsewhere. A store keeps the objects by address. `Store.field` and `Store.resolver` read an
object together with all that it refers to.
-/
namespace QueryCost

/-- A layer of a resolver, with the address of the next one inside. -/
structure Layer where
  cost : Option Declaration
  inner : Option Nat

/-- A table of extensions. The resolver that comes with a field is kept in it, too. -/
structure Table where
  entries : Entries
  resolver : Option Nat

/-- A field with the address of its extensions. -/
structure FieldObject where
  name : String
  type : TypeRef
  args : List ArgDef
  directives : List Directive
  table : Option Nat

/-- An object that a declaration can be attached to. -/
inductive Target where
  | field (address : Nat)
  | layer (address : Nat)
  deriving DecidableEq

/-- All objects. Tables are in use up to `fresh`, and a layer is made later than what is inside. -/
structure Store where
  layers : Nat → Layer
  tables : Nat → Table
  fields : Nat → FieldObject
  fresh : Nat
  inward : ∀ outer inner, (layers outer).inner = some inner → inner < outer
  inUse : ∀ field table, (fields field).table = some table → table < fresh

/-- Objects after one of them was replaced. -/
def replaced {α : Type} (objects : Nat → α) (address : Nat) (object : α) : Nat → α :=
  fun other => if other = address then object else objects other

@[simp] theorem replaced_self {α : Type} (objects : Nat → α) (address : Nat) (object : α) :
    replaced objects address object address = object := if_pos rfl

theorem replaced_of_ne {α : Type} (objects : Nat → α) {address other : Nat} (object : α)
    (differ : other ≠ address) : replaced objects address object other = objects other := if_neg differ

namespace Store

/-- The resolver whose outermost layer is at an address. -/
def resolver (s : Store) (address : Nat) : Resolver :=
  match _inside : (s.layers address).inner with
  | none => .bare (s.layers address).cost
  | some inner => .wrapped (s.layers address).cost (s.resolver inner)
termination_by address
decreasing_by exact s.inward address inner _inside

/-- The definition of the field at an address. -/
def field (s : Store) (address : Nat) : FieldDef where
  name := (s.fields address).name
  type := (s.fields address).type
  args := (s.fields address).args
  extensions := (s.fields address).table.map fun table => (s.tables table).entries
  resolver := (s.fields address).table.bind fun table => (s.tables table).resolver.map s.resolver
  directives := (s.fields address).directives

/-- The extensions of a field, none if it has no table. -/
def tableOf (s : Store) (address : Nat) : Table :=
  match (s.fields address).table with
  | some table => s.tables table
  | none => ⟨[], none⟩

/-- The field gets a table of its own, so that the declaration does not show in others that share the old
one. -/
def attachToField (d : Declaration) (address : Nat) (s : Store) : Store where
  layers := s.layers
  tables := replaced s.tables s.fresh
    { s.tableOf address with
      entries := Entries.insert (s.tableOf address).entries Declaration.sourceKey d.toValue }
  fields := replaced s.fields address { s.fields address with table := some s.fresh }
  fresh := s.fresh + 1
  inward := s.inward
  inUse := by
    intro field table refers
    by_cases same : field = address
    · rw [same, replaced_self] at refers
      exact Nat.lt_succ_of_le (Nat.le_of_eq (Option.some.inj refers).symm)
    · rw [replaced_of_ne _ _ same] at refers
      exact Nat.lt_succ_of_lt (s.inUse field table refers)

/-- The declaration is put on the layer itself. -/
def attachToLayer (d : Declaration) (address : Nat) (s : Store) : Store where
  layers := replaced s.layers address { s.layers address with cost := some d }
  tables := s.tables
  fields := s.fields
  fresh := s.fresh
  inward := by
    intro outer inner refers
    by_cases same : outer = address
    · rw [same, replaced_self] at refers
      exact same ▸ s.inward address inner refers
    · rw [replaced_of_ne _ _ same] at refers
      exact s.inward outer inner refers
  inUse := s.inUse

/-- Attach a declaration to an object, and give the object back. -/
def attach (d : Declaration) : Target → Store → Target × Store
  | .field address, s => (.field address, s.attachToField d address)
  | .layer address, s => (.layer address, s.attachToLayer d address)

/-- Attach declarations one after another, each to what the one before gave back. -/
def attachAll : List Declaration → Target × Store → Target × Store
  | [], state => state
  | d :: rest, state => attachAll rest (attach d state.1 state.2)

/-- All fields have the same table, if any, and each layer has the one before inside. -/
def plain (type : TypeRef) (entries : Option Entries) : Store where
  layers := fun address => ⟨none, if address = 0 then none else some (address - 1)⟩
  tables := fun _ => ⟨entries.getD [], none⟩
  fields := fun _ => ⟨"", type, [], [], entries.map fun _ => 0⟩
  fresh := 1
  inward := by
    intro outer inner refers
    by_cases first : outer = 0
    · simp [first] at refers
    · simp only [first, if_false, Option.some.injEq] at refers
      omega
  inUse := by
    intro _ table refers
    cases entries with
    | none => cases refers
    | some _ =>
      obtain rfl := Option.some.inj refers
      exact Nat.zero_lt_one

end Store

end QueryCost
