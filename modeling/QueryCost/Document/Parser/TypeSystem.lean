import QueryCost.Document.Parser.Executable

/-!
# Parsing type system definitions

All definitions but queries in short form may carry a description, extensions may not, and an
extension has to extend something.
-/
namespace QueryCost.Parser

def inputDecl : Parser InputDecl := do
  description
  let name ← name
  punct ':'
  let type ← typeRef
  let default ← if (← acceptPunct '=') then some <$> constantValue else pure none
  return ⟨name, type, default, ← constantDirectives⟩

def fieldDecl : Parser FieldDecl := do
  description
  let name ← name
  let args ← optionalSome '(' ')' inputDecl
  punct ':'
  let type ← typeRef
  return ⟨name, args, type, ← constantDirectives⟩

def enumValue : Parser String := do
  description
  let name ← name
  if name = "true" ∨ name = "false" ∨ name = "null" then failure
  else
    let _ ← constantDirectives
    return name

def interfaces : Parser (List String) := do
  if (← acceptWord "implements") then separated '&' name else return []

def rootDecl : Parser (OperationKind × String) := do
  let kind ← operationKind
  punct ':'
  return (kind, ← name)

def unionMembers : Parser (List String) := do
  if (← acceptPunct '=') then separated '|' name else return []

/-- Name, directives and body of a type, after its keyword. -/
def typeDecl (keyword : String) : Parser (String × List Directive × TypeDecl) := do
  let name ← name
  match keyword with
  | "scalar" => return (name, ← constantDirectives, .scalar)
  | "type" => do
    let interfaces ← interfaces
    let directives ← constantDirectives
    return (name, directives, .object interfaces (← optionalSome '\x7b' '\x7d' fieldDecl))
  | "interface" => do
    let interfaces ← interfaces
    let directives ← constantDirectives
    return (name, directives, .interface interfaces (← optionalSome '\x7b' '\x7d' fieldDecl))
  | "union" => do
    let directives ← constantDirectives
    return (name, directives, .union (← unionMembers))
  | "enum" => do
    let directives ← constantDirectives
    return (name, directives, .enum (← optionalSome '\x7b' '\x7d' enumValue))
  | "input" => do
    let directives ← constantDirectives
    return (name, directives, .input (← optionalSome '\x7b' '\x7d' inputDecl))
  | _ => failure

/-- Whether a type body adds nothing, as an extension may not. -/
def isEmptyDecl : TypeDecl → Bool
  | .scalar => true
  | .object interfaces fields => interfaces.isEmpty && fields.isEmpty
  | .interface interfaces fields => interfaces.isEmpty && fields.isEmpty
  | .union members => members.isEmpty
  | .enum values => values.isEmpty
  | .input fields => fields.isEmpty

def executableLocations : List String :=
  ["QUERY", "MUTATION", "SUBSCRIPTION", "FIELD", "FRAGMENT_DEFINITION", "FRAGMENT_SPREAD",
    "INLINE_FRAGMENT", "VARIABLE_DEFINITION"]

def typeSystemLocations : List String :=
  ["SCHEMA", "SCALAR", "OBJECT", "FIELD_DEFINITION", "ARGUMENT_DEFINITION", "INTERFACE", "UNION",
    "ENUM", "ENUM_VALUE", "INPUT_OBJECT", "INPUT_FIELD_DEFINITION"]

def directiveLocation : Parser String := do
  let name ← name
  if executableLocations.contains name || typeSystemLocations.contains name then return name
  else failure

def directiveDecl : Parser DirectiveDecl := do
  punct '@'
  let name ← name
  let args ← optionalSome '(' ')' inputDecl
  let repeatable ← acceptWord "repeatable"
  word "on"
  return ⟨name, args, repeatable, ← separated '|' directiveLocation⟩

/-- What follows `extend`. -/
def extension : Parser Definition := do
  match (← Parser.name) with
  | "schema" => do
    let directives ← constantDirectives
    let roots ← optionalSome '\x7b' '\x7d' rootDecl
    if directives.isEmpty && roots.isEmpty then failure else return .schema true directives roots
  | keyword => do
    let (name, directives, decl) ← typeDecl keyword
    if directives.isEmpty && isEmptyDecl decl then failure else return .type true name directives decl

/-- A definition that may stand under a description, after its keyword. It starts where its
description does. -/
def describedDefinition (location : Location) : (keyword : String) → Parser Definition
  | "query" => return .operation (← operation location .query)
  | "mutation" => return .operation (← operation location .mutation)
  | "subscription" => return .operation (← operation location .subscription)
  | "fragment" => return .fragment (← fragment)
  | "schema" => do
    let directives ← constantDirectives
    return .schema false directives (← enclosedSome '\x7b' '\x7d' rootDecl)
  | "directive" => return .directive (← directiveDecl)
  | keyword => do
    let (name, directives, decl) ← typeDecl keyword
    return .type false name directives decl

def definition : Parser Definition := do
  let location ← here
  match (← peek) with
  | some (.punct '\x7b') => return .operation (← shortQuery location)
  | some (.name "extend") => do
    let _ ← next
    extension
  | _ => do
    description
    describedDefinition location (← Parser.name)

def definitionsOf : (bound : Nat) → Parser (List Definition)
  | 0 => return []
  | bound + 1 => do
    match (← peek) with
    | none => return []
    | some _ => do
      let first ← definition
      let rest ← definitionsOf bound
      return first :: rest

/-- One definition or more. -/
def document : Parser Document := do
  match (← definitionsOf (← get).length) with
  | [] => failure
  | definitions => return ⟨definitions⟩

end QueryCost.Parser

namespace QueryCost

/-- Read a document; `none` if the text is not one, or nests beyond the limit. -/
def Document.parse? (nesting : Option Nat) (text : String) : Option Document :=
  Parser.document.complete nesting text

/-- Read a type reference. -/
def TypeRef.parse? (nesting : Option Nat) (text : String) : Option TypeRef :=
  Parser.typeRef.complete nesting text

/-- Read the directives behind a field definition. -/
def Directive.parseAll? (nesting : Option Nat) (text : String) : Option (List Directive) :=
  Parser.constantDirectives.complete nesting text

end QueryCost
