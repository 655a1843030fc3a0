import QueryCost.Declaration
import QueryCost.Document.Basic

/-!
# Schemas

Types by name, the root type of each kind of operation, and the directives. Types refer to each other
by name; a name that is not in the schema stands for no type.
-/
namespace QueryCost

/-- An argument of a field or directive, or a field of an input type. Values read for it are kept
under `outName` where there is one. -/
structure ArgDef where
  name : String
  type : TypeRef
  default : Option Value
  outName : Option String

namespace ArgDef

/-- The key of the argument in a map of coerced values. -/
def key (arg : ArgDef) : String :=
  match arg.outName with
  | some "" => arg.name
  | some out => out
  | none => arg.name

/-- A value has to be given. -/
def isRequired (arg : ArgDef) : Bool :=
  arg.type.isNonNull && arg.default.isNone

end ArgDef

structure FieldDef where
  name : String
  type : TypeRef
  args : List ArgDef
  /-- Notes of the schema's author, by key. -/
  extensions : Option Entries
  /-- What resolves the field, if its definition is kept with it (`strawberry-definition`). -/
  resolver : Option Resolver
  directives : List Directive

def FieldDef.arg? (field : FieldDef) (name : String) : Option ArgDef :=
  field.args.find? (·.name == name)

inductive Scalar where
  | int
  | float
  | string
  | boolean
  | id
  /-- Accepts every value unchanged. -/
  | custom
  deriving DecidableEq, Repr

inductive TypeBody where
  | scalar (s : Scalar)
  | object (interfaces : List String) (fields : List FieldDef)
  | interface (interfaces : List String) (fields : List FieldDef)
  | union (members : List String)
  | enum (values : List String)
  /-- With `exclusive`, exactly one field has to be given. -/
  | input (exclusive : Bool) (fields : List ArgDef)

/-- The attributes of the class behind a type (`graphene_type`); one may be unset. -/
abbrev Owner := List (String × Option Resolver)

structure TypeDef where
  name : String
  body : TypeBody
  owner : Option Owner

namespace TypeDef

def isComposite (t : TypeDef) : Bool :=
  match t.body with
  | .object _ _ => true
  | .interface _ _ => true
  | .union _ => true
  | _ => false

def isObject (t : TypeDef) : Bool :=
  match t.body with
  | .object _ _ => true
  | _ => false

def isLeaf (t : TypeDef) : Bool :=
  match t.body with
  | .scalar _ => true
  | .enum _ => true
  | _ => false

def isInput (t : TypeDef) : Bool :=
  match t.body with
  | .scalar _ => true
  | .enum _ => true
  | .input _ _ => true
  | _ => false

/-- Fields that can be selected; only objects and interfaces have any. -/
def fields (t : TypeDef) : List FieldDef :=
  match t.body with
  | .object _ fields => fields
  | .interface _ fields => fields
  | _ => []

def field? (t : TypeDef) (name : String) : Option FieldDef :=
  t.fields.find? (·.name == name)

def interfaces (t : TypeDef) : List String :=
  match t.body with
  | .object interfaces _ => interfaces
  | .interface interfaces _ => interfaces
  | _ => []

end TypeDef

structure DirectiveDef where
  name : String
  args : List ArgDef
  repeatable : Bool
  locations : List String

structure Schema where
  types : List TypeDef
  query : Option String
  mutation : Option String
  subscription : Option String
  directives : List DirectiveDef

namespace Schema

def type? (schema : Schema) (name : String) : Option TypeDef :=
  schema.types.find? (·.name == name)

def body? (schema : Schema) (name : String) : Option TypeBody :=
  (schema.type? name).map TypeDef.body

/-- The name of the root type for a kind of operation. -/
def rootName? (schema : Schema) : OperationKind → Option String
  | .query => schema.query
  | .mutation => schema.mutation
  | .subscription => schema.subscription

def root? (schema : Schema) (kind : OperationKind) : Option TypeDef :=
  (schema.rootName? kind).bind schema.type?

def directive? (schema : Schema) (name : String) : Option DirectiveDef :=
  schema.directives.find? (·.name == name)

/-- Whether a reference leads to a type that values can be read for. -/
def isInputRef (schema : Schema) (t : TypeRef) : Bool :=
  match schema.type? t.base with
  | some t => t.isInput
  | none => false

end Schema

end QueryCost
