import QueryCost.Coercion.Literal
import QueryCost.Document.Parser.TypeSystem
import QueryCost.Schema.Standard

/-!
# Schemas from definitions

The types of a document with their extensions, the standard types, and root types found by name
unless a schema definition gives them. Of built-in scalars only those are present that the schema
refers to; texts and Booleans always are.
-/
namespace QueryCost

variable {α : Type}

/-- Of several items with one key the last stays, at the place of the first. -/
def keepLast (key : α → String) (items : List α) : List α :=
  items.foldl (fun kept item =>
    if kept.any (key · == key item) then
      kept.map fun k => if key k == key item then item else k
    else kept ++ [item]) []

/-- What an extension adds to a type. -/
def TypeDecl.extend : TypeDecl → TypeDecl → TypeDecl
  | .object is fs, .object js gs => .object (is ++ js) (fs ++ gs)
  | .interface is fs, .interface js gs => .interface (is ++ js) (fs ++ gs)
  | .union ms, .union ns => .union (ms ++ ns)
  | .enum vs, .enum ws => .enum (vs ++ ws)
  | .input fs, .input gs => .input (fs ++ gs)
  | decl, _ => decl

/-- A type with the directives of its definition. -/
structure DeclaredType where
  name : String
  directives : List Directive
  decl : TypeDecl

namespace Document

def typeExtensions (doc : Document) (name : String) : List TypeDecl :=
  doc.definitions.filterMap fun
    | .type true n _ decl => if n == name then some decl else none
    | _ => none

/-- All types a document defines, with their extensions. -/
def declaredTypes (doc : Document) : List DeclaredType :=
  let defined := doc.definitions.filterMap fun
    | .type false name directives decl => some (⟨name, directives, decl⟩ : DeclaredType)
    | _ => none
  (keepLast (·.name) defined).map fun t =>
    { t with decl := (doc.typeExtensions t.name).foldl TypeDecl.extend t.decl }

def declaredDirectives (doc : Document) : List DirectiveDecl :=
  doc.definitions.filterMap fun
    | .directive decl => some decl
    | _ => none

/-- Root types given by schema definitions and their extensions. -/
def declaredRoots (doc : Document) : List (OperationKind × String) :=
  doc.definitions.flatMap fun
    | .schema _ _ roots => roots
    | _ => []

def hasSchemaDefinition (doc : Document) : Bool :=
  doc.definitions.any fun
    | .schema false _ _ => true
    | _ => false

end Document

/-- Names of the types that the parts of a declaration refer to. -/
def TypeDecl.references : TypeDecl → List String
  | .object _ fields => fields.flatMap fieldReferences
  | .interface _ fields => fields.flatMap fieldReferences
  | .input fields => fields.map (·.type.base)
  | _ => []
where
  fieldReferences (field : FieldDecl) : List String :=
    field.type.base :: field.args.map (·.type.base)

namespace Schema

/-- Defaults are read against the types known so far. -/
def argDef (known : Schema) (decl : InputDecl) : ArgDef :=
  ⟨decl.name, decl.type, decl.default.bind (·.value? known [] decl.type), none⟩

def argDefs (known : Schema) (decls : List InputDecl) : List ArgDef :=
  (keepLast (·.name) decls).map (argDef known)

def fieldDef (known : Schema) (decl : FieldDecl) : FieldDef :=
  ⟨decl.name, decl.type, argDefs known decl.args, none, none, decl.directives⟩

def fieldDefs (known : Schema) (decls : List FieldDecl) : List FieldDef :=
  (keepLast (·.name) decls).map (fieldDef known)

def typeBody (known : Schema) (t : DeclaredType) : TypeBody :=
  match t.decl with
  | .scalar => .scalar .custom
  | .object interfaces fields => .object interfaces (fieldDefs known fields)
  | .interface interfaces fields => .interface interfaces (fieldDefs known fields)
  | .union members => .union members
  | .enum values => .enum values
  | .input fields => .input (t.directives.any (·.name == "oneOf")) (argDefs known fields)

/-- A built-in scalar is present if something refers to it. -/
def presentScalars (references : List String) : List TypeDef :=
  let references := ["String", "Boolean"] ++ references
  Scalar.builtIn.filterMap fun (name, scalar) =>
    if references.contains name then some ⟨name, .scalar scalar, none⟩ else none

/-- Names of the types that a document refers to or defines. -/
def referencesOf (doc : Document) : List String :=
  doc.declaredTypes.flatMap (fun t => t.name :: t.decl.references)
    ++ doc.declaredDirectives.flatMap (fun d => d.args.map (·.type.base))

def isStandardName (name : String) : Bool :=
  (Scalar.named? name).isSome || Standard.introspectionTypes.any (·.name == name)

def rootOf (doc : Document) (kind : OperationKind) (name : String) : Option String :=
  let declared := (doc.declaredRoots.reverse.find? (·.1 == kind)).map (·.2)
  if doc.hasSchemaDefinition then declared
  else if doc.declaredTypes.any (·.name == name) then some name
  else declared

/-- The schema of a document, with defaults read against the types known so far. -/
def build (doc : Document) (known : Schema) : Schema :=
  let own := (doc.declaredTypes.filter (!isStandardName ·.name)).map fun t =>
    (⟨t.name, typeBody known t, none⟩ : TypeDef)
  let directives := (keepLast (·.name) doc.declaredDirectives).map fun d =>
    (⟨d.name, argDefs known d.args, d.repeatable, d.locations⟩ : DirectiveDef)
  { types := own ++ presentScalars (referencesOf doc) ++ Standard.introspectionTypes
    query := rootOf doc .query "Query"
    mutation := rootOf doc .mutation "Mutation"
    subscription := rootOf doc .subscription "Subscription"
    directives := directives
      ++ Standard.directives.filter fun d => !directives.any (·.name == d.name) }

def empty : Schema := ⟨[], none, none, none, []⟩

/-- Input types of a document; a default may use the defaults of as many others. -/
def inputCount (doc : Document) : Nat :=
  (doc.declaredTypes.filter fun t => match t.decl with
    | .input _ => true
    | _ => false).length

/-- The schema that a document defines. -/
def ofDocument (doc : Document) : Schema :=
  Nat.repeat (build doc) (inputCount doc + 2) empty

/-- Fields have types that can be answered with. -/
def isOutputRef (schema : Schema) (t : TypeRef) : Bool :=
  match schema.body? t.base with
  | some (.input _ _) => false
  | some _ => true
  | none => false

def fieldFits (schema : Schema) (field : FieldDef) : Bool :=
  schema.isOutputRef field.type && field.args.all (schema.isInputRef ·.type)

def isInterface (schema : Schema) (name : String) : Bool :=
  match schema.body? name with
  | some (.interface _ _) => true
  | _ => false

def isObject (schema : Schema) (name : String) : Bool :=
  match schema.body? name with
  | some (.object _ _) => true
  | _ => false

/-- Whether all that a type refers to exists and is of a kind that can stand there. -/
def typeFits (schema : Schema) (t : TypeDef) : Bool :=
  match t.body with
  | .object interfaces fields => interfaces.all schema.isInterface && fields.all schema.fieldFits
  | .interface interfaces fields => interfaces.all schema.isInterface && fields.all schema.fieldFits
  | .union members => members.all schema.isObject
  | .input _ fields => fields.all (schema.isInputRef ·.type)
  | _ => true

/-- Whether all references of a schema fit; of the root types it is only asked that they exist. -/
def fits (schema : Schema) (doc : Document) : Bool :=
  schema.types.all schema.typeFits
    && schema.directives.all (·.args.all (schema.isInputRef ·.type))
    && doc.declaredRoots.all fun root => isStandardName root.2 || (schema.type? root.2).isSome

/-- Why a text does not define a schema. -/
inductive Defect where
  /-- The text is not a document. -/
  | malformed
  /-- A type is unknown or cannot stand where it does. -/
  | misfit
  deriving DecidableEq, Repr

/-- The schema that a text defines. -/
def ofText (nesting : Option Nat) (text : String) : Except Defect Schema :=
  match Document.parse? nesting text with
  | none => .error .malformed
  | some doc =>
    let schema := ofDocument doc
    if schema.fits doc then .ok schema else .error .misfit

/-- Change the types of a name. -/
def mapType (schema : Schema) (name : String) (f : TypeDef → TypeDef) : Schema :=
  { schema with types := schema.types.map fun t => if t.name == name then f t else t }

/-- Change a field of an object or interface. -/
def mapField (schema : Schema) (typeName fieldName : String) (f : FieldDef → FieldDef) : Schema :=
  let change (fields : List FieldDef) := fields.map fun x => if x.name == fieldName then f x else x
  schema.mapType typeName fun t => { t with body := match t.body with
    | .object interfaces fields => .object interfaces (change fields)
    | .interface interfaces fields => .interface interfaces (change fields)
    | body => body }

end Schema

/-- Change an argument of a field. -/
def FieldDef.mapArg (field : FieldDef) (name : String) (f : ArgDef → ArgDef) : FieldDef :=
  { field with args := field.args.map fun a => if a.name == name then f a else a }

end QueryCost
