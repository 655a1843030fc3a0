import QueryCost.Schema.Build
import QueryCost.Text.Case

/-!
# Schemas from classes

A class describes a type by its attributes. The schema shows an attribute under a name of its own or,
if wanted, in camel case; values of arguments keep the name of the attribute, and costs are declared
on the attributes of the class.
-/
namespace QueryCost

structure ClassArg where
  attr : String
  shownAs : Option String
  type : TypeRef
  default : Option Value

structure ClassField where
  attr : String
  shownAs : Option String
  type : TypeRef
  args : List ClassArg
  cost : Option Declaration

structure ClassType where
  name : String
  fields : List ClassField

/-- The name under which the schema shows an attribute. -/
def shownName (camel : Bool) (attr : String) (shownAs : Option String) : String :=
  shownAs.getD (if camel then Text.camelCase attr else attr)

def ClassArg.argDef (camel : Bool) (arg : ClassArg) : ArgDef :=
  ⟨shownName camel arg.attr arg.shownAs, arg.type, arg.default, some arg.attr⟩

def ClassField.fieldDef (camel : Bool) (field : ClassField) : FieldDef :=
  ⟨shownName camel field.attr field.shownAs, field.type, field.args.map (·.argDef camel), none, none, []⟩

namespace ClassType

def owner (c : ClassType) : Owner :=
  c.fields.map fun field => (field.attr, some (.bare field.cost))

def typeDef (camel : Bool) (c : ClassType) : TypeDef :=
  ⟨c.name, .object [] (keepLast (·.name) (c.fields.map (·.fieldDef camel))), some c.owner⟩

def references (c : ClassType) : List String :=
  c.fields.flatMap fun field => field.type.base :: field.args.map (·.type.base)

end ClassType

/-- The schema that classes describe. -/
def Schema.ofClasses (camel : Bool) (classes : List ClassType) : Schema :=
  let named (name : String) : Option String :=
    if classes.any (·.name == name) then some name else none
  { types := classes.map (·.typeDef camel)
      ++ presentScalars (classes.flatMap (·.references)) ++ Standard.introspectionTypes
    query := named "Query"
    mutation := named "Mutation"
    subscription := none
    directives := Standard.directives }

end QueryCost
