import QueryCost.Schema.Basic

/-!
# Standard definitions

The built-in scalars, the types that describe a schema to its clients, and the directives that every
schema has.
-/
namespace QueryCost

namespace Scalar

/-- The built-in scalars by name. -/
def builtIn : List (String × Scalar) :=
  [("Int", .int), ("Float", .float), ("String", .string), ("Boolean", .boolean), ("ID", .id)]

def named? (name : String) : Option Scalar :=
  (builtIn.find? (·.1 == name)).map (·.2)

end Scalar

namespace Schema.Standard

def string : TypeRef := .named "String"
def boolean : TypeRef := .named "Boolean"
def required (name : String) : TypeRef := .nonNull (.named name)
/-- A list of values, none of which is null. -/
def listOf (name : String) : TypeRef := .list (required name)

def field (name : String) (type : TypeRef) : FieldDef :=
  ⟨name, type, [], none, none, []⟩

def includeDeprecated : ArgDef := ⟨"includeDeprecated", boolean, some (.bool false), none⟩

/-- A field whose deprecated entries are left out unless asked for. -/
def filteredField (name : String) (type : TypeRef) : FieldDef :=
  ⟨name, type, [includeDeprecated], none, none, []⟩

def object (name : String) (fields : List FieldDef) : TypeDef :=
  ⟨name, .object [] fields, none⟩

def introspectionTypes : List TypeDef := [
  object "__Schema" [
    field "description" string,
    field "types" (.nonNull (listOf "__Type")),
    field "queryType" (required "__Type"),
    field "mutationType" (.named "__Type"),
    field "subscriptionType" (.named "__Type"),
    field "directives" (.nonNull (listOf "__Directive"))],
  object "__Directive" [
    field "name" (required "String"),
    field "description" string,
    field "isRepeatable" (required "Boolean"),
    field "locations" (.nonNull (listOf "__DirectiveLocation")),
    filteredField "args" (.nonNull (listOf "__InputValue"))],
  ⟨"__DirectiveLocation", .enum ["QUERY", "MUTATION", "SUBSCRIPTION", "FIELD", "FRAGMENT_DEFINITION",
    "FRAGMENT_SPREAD", "INLINE_FRAGMENT", "VARIABLE_DEFINITION", "SCHEMA", "SCALAR", "OBJECT",
    "FIELD_DEFINITION", "ARGUMENT_DEFINITION", "INTERFACE", "UNION", "ENUM", "ENUM_VALUE",
    "INPUT_OBJECT", "INPUT_FIELD_DEFINITION"], none⟩,
  object "__Type" [
    field "kind" (required "__TypeKind"),
    field "name" string,
    field "description" string,
    field "specifiedByURL" string,
    filteredField "fields" (listOf "__Field"),
    field "interfaces" (listOf "__Type"),
    field "possibleTypes" (listOf "__Type"),
    filteredField "enumValues" (listOf "__EnumValue"),
    filteredField "inputFields" (listOf "__InputValue"),
    field "ofType" (.named "__Type"),
    field "isOneOf" boolean],
  object "__Field" [
    field "name" (required "String"),
    field "description" string,
    filteredField "args" (.nonNull (listOf "__InputValue")),
    field "type" (required "__Type"),
    field "isDeprecated" (required "Boolean"),
    field "deprecationReason" string],
  object "__InputValue" [
    field "name" (required "String"),
    field "description" string,
    field "type" (required "__Type"),
    field "defaultValue" string,
    field "isDeprecated" (required "Boolean"),
    field "deprecationReason" string],
  object "__EnumValue" [
    field "name" (required "String"),
    field "description" string,
    field "isDeprecated" (required "Boolean"),
    field "deprecationReason" string],
  ⟨"__TypeKind", .enum ["SCALAR", "OBJECT", "INTERFACE", "UNION", "ENUM", "INPUT_OBJECT", "LIST",
    "NON_NULL"], none⟩]

/-- The argument of the directives that include or skip a selection. -/
def condition : ArgDef := ⟨"if", required "Boolean", none, none⟩

def directives : List DirectiveDef := [
  ⟨"include", [condition], false, ["FIELD", "FRAGMENT_SPREAD", "INLINE_FRAGMENT"]⟩,
  ⟨"skip", [condition], false, ["FIELD", "FRAGMENT_SPREAD", "INLINE_FRAGMENT"]⟩,
  ⟨"deprecated", [⟨"reason", string, some (.str "No longer supported"), none⟩], false,
    ["FIELD_DEFINITION", "ARGUMENT_DEFINITION", "INPUT_FIELD_DEFINITION", "ENUM_VALUE"]⟩,
  ⟨"specifiedBy", [⟨"url", required "String", none, none⟩], false, ["SCALAR"]⟩,
  ⟨"oneOf", [], false, ["INPUT_OBJECT"]⟩]

/-- Fields that every composite type has besides its own. -/
def typenameField : FieldDef := field "__typename" (required "String")

/-- Fields of the query root that describe the schema. -/
def metaFields : List FieldDef := [
  field "__schema" (required "__Schema"),
  ⟨"__type", .named "__Type", [⟨"name", required "String", none, none⟩], none, none, []⟩]

end Schema.Standard

end QueryCost
