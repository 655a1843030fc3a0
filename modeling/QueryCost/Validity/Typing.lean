import QueryCost.Schema.Standard

/-!
# Relations between types

Which objects a type stands for, when two types can describe the same object, and when a value of one
type can be used at another.
-/
namespace QueryCost.Schema

/-- Names of the objects that a type stands for. -/
def possibleObjects (schema : Schema) (t : TypeDef) : List String :=
  match t.body with
  | .object _ _ => [t.name]
  | .union members => members
  | .interface _ _ =>
    (schema.types.filter fun o => o.isObject && o.interfaces.contains t.name).map (·.name)
  | _ => []

/-- Whether some object can be of both types. -/
def overlap (schema : Schema) (a b : TypeDef) : Bool :=
  a.name == b.name
    || (schema.possibleObjects a).any fun name => (schema.possibleObjects b).contains name

/-- A field of a type, with the fields that describe types and the schema. -/
def fieldOn? (schema : Schema) (t : TypeDef) (name : String) : Option FieldDef :=
  if schema.query == some t.name && Standard.metaFields.any (·.name == name) then
    Standard.metaFields.find? (·.name == name)
  else if name == "__typename" && t.isComposite then some Standard.typenameField
  else t.field? name

/-- A type that selections can be made on. -/
def composite? (schema : Schema) (name : String) : Option TypeDef :=
  match schema.type? name with
  | some t => if t.isComposite then some t else none
  | none => none

end QueryCost.Schema

namespace QueryCost.TypeRef

/-- Whether every input value of one type is one of another. -/
def isSubtype : TypeRef → TypeRef → Bool
  | nonNull s, nonNull t => isSubtype s t
  | named _, nonNull _ => false
  | list _, nonNull _ => false
  | nonNull s, t => isSubtype s t
  | list s, list t => isSubtype s t
  | list _, named _ => false
  | named _, list _ => false
  | named a, named b => a == b

end QueryCost.TypeRef
