/-!
# Documents

A parsed document: operations and fragments, and the type system definitions that may stand beside
them or describe a schema. Of a selection set only its selections are kept; a field without one has
the empty list.
-/
namespace QueryCost

inductive TypeRef where
  | named (name : String)
  | list (item : TypeRef)
  | nonNull (inner : TypeRef)
  deriving DecidableEq, Repr

/-- The named type under all wrappers. -/
def TypeRef.base : TypeRef → String
  | named name => name
  | list item => item.base
  | nonNull inner => inner.base

def TypeRef.isNonNull : TypeRef → Bool
  | nonNull _ => true
  | _ => false

/-- The type without an outer non-null mark. -/
def TypeRef.nullable : TypeRef → TypeRef
  | nonNull inner => inner
  | t => t

inductive Literal where
  | var (name : String)
  | int (digits : String)
  | float (digits : String)
  | str (text : String) (block : Bool)
  | bool (b : Bool)
  | null
  | enum (name : String)
  | list (items : List Literal)
  | object (fields : List (String × Literal))

instance : Inhabited Literal := ⟨.null⟩

structure Directive where
  name : String
  args : List (String × Literal)

/-- What stands in front of a field's own selections. -/
structure FieldHead where
  label : Option String
  name : String
  args : List (String × Literal)
  directives : List Directive

/-- The key under which a field appears in a response. -/
def FieldHead.responseKey (head : FieldHead) : String :=
  head.label.getD head.name

inductive Selection where
  | field (head : FieldHead) (selections : List Selection)
  | inline (condition : Option String) (directives : List Directive) (selections : List Selection)
  | spread (fragment : String) (directives : List Directive)

namespace Selection

def directives : Selection → List Directive
  | field head _ => head.directives
  | inline _ directives _ => directives
  | spread _ directives => directives

mutual

/-- Number of selections at and below a selection, as it is written. -/
def size : Selection → Nat
  | .field _ selections => 1 + sizeAll selections
  | .inline _ _ selections => 1 + sizeAll selections
  | .spread _ _ => 1

def sizeAll : List Selection → Nat
  | [] => 0
  | s :: rest => size s + sizeAll rest

end

end Selection

inductive OperationKind where
  | query
  | mutation
  | subscription
  deriving DecidableEq, Repr

/-- Line and column, both counted from one. -/
structure Location where
  line : Nat
  column : Nat
  deriving DecidableEq, Repr

structure VariableDef where
  name : String
  type : TypeRef
  default : Option Literal
  directives : List Directive

structure Operation where
  kind : OperationKind
  name : Option String
  vars : List VariableDef
  directives : List Directive
  selections : List Selection
  location : Location

structure Fragment where
  name : String
  condition : String
  directives : List Directive
  selections : List Selection

/-- An argument or input field as it is declared. -/
structure InputDecl where
  name : String
  type : TypeRef
  default : Option Literal
  directives : List Directive

structure FieldDecl where
  name : String
  args : List InputDecl
  type : TypeRef
  directives : List Directive

inductive TypeDecl where
  | scalar
  | object (interfaces : List String) (fields : List FieldDecl)
  | interface (interfaces : List String) (fields : List FieldDecl)
  | union (members : List String)
  | enum (values : List String)
  | input (fields : List InputDecl)

structure DirectiveDecl where
  name : String
  args : List InputDecl
  repeatable : Bool
  locations : List String

inductive Definition where
  | operation (op : Operation)
  | fragment (f : Fragment)
  /-- A schema definition or, with `extension`, an extension of it. -/
  | schema (extension : Bool) (directives : List Directive) (roots : List (OperationKind × String))
  /-- A type definition or, with `extension`, an extension of it. -/
  | type (extension : Bool) (name : String) (directives : List Directive) (decl : TypeDecl)
  | directive (decl : DirectiveDecl)

structure Document where
  definitions : List Definition

namespace Document

def operations (doc : Document) : List Operation :=
  doc.definitions.filterMap fun
    | .operation op => some op
    | _ => none

def fragments (doc : Document) : List Fragment :=
  doc.definitions.filterMap fun
    | .fragment f => some f
    | _ => none

/-- The fragment of a name; the last definition counts. -/
def fragment? (doc : Document) (name : String) : Option Fragment :=
  doc.fragments.reverse.find? (·.name == name)

end Document

end QueryCost
