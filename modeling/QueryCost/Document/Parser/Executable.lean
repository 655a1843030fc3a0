import QueryCost.Document.Parser.Basic

/-!
# Parsing operations and fragments

Literals, types, directives and selections, then the definitions made of them. Selection sets, list
and object literals and list types nest in each other. Every parser for something that nests is told how
many levels are left to it; a definition starts with all of them.
-/
namespace QueryCost.Parser

def objectField (value : Parser Literal) : Parser (String × Literal) := do
  let key ← name
  punct ':'
  return (key, ← value)

/-- A value without parts; in constant positions no variable may occur. -/
def flatLiteral (constant : Bool) : Parser Literal := do
  match (← next) with
  | .punct '$' => if constant then failure else return .var (← name)
  | .int digits => return .int digits
  | .float digits => return .float digits
  | .str text block => return .str text block
  | .name "true" => return .bool true
  | .name "false" => return .bool false
  | .name "null" => return .null
  | .name text => return .enum text
  | _ => failure

/-- A value. Each list and each object is a level. -/
def literal (constant : Bool) : (levels : Nat) → Parser Literal
  | 0 => flatLiteral constant
  | levels + 1 => do
    match (← peek) with
    | some (.punct '[') => return .list (← enclosed '[' ']' (literal constant levels))
    | some (.punct '\x7b') =>
      return .object (← enclosed '\x7b' '\x7d' (objectField (literal constant levels)))
    | _ => flatLiteral constant

def markNonNull (t : TypeRef) : Parser TypeRef := do
  if (← acceptPunct '!') then return .nonNull t else return t

/-- A type. Each list is a level. -/
def typeRefOf : (levels : Nat) → Parser TypeRef
  | 0 => do markNonNull (.named (← name))
  | levels + 1 => do
    if (← acceptPunct '[') then
      let item ← typeRefOf levels
      punct ']'
      markNonNull (.list item)
    else markNonNull (.named (← name))

def typeRef : Parser TypeRef := do
  typeRefOf (← levels)

def argument (constant : Bool) (levels : Nat) : Parser (String × Literal) := do
  let key ← name
  punct ':'
  return (key, ← literal constant levels)

def arguments (constant : Bool) (levels : Nat) : Parser (List (String × Literal)) :=
  optionalSome '(' ')' (argument constant levels)

def directive (constant : Bool) (levels : Nat) : Parser Directive := do
  punct '@'
  let name ← name
  return ⟨name, ← arguments constant levels⟩

def directives (constant : Bool) (levels : Nat) : Parser (List Directive) := do
  announced '@' (directive constant levels) (← get).length

/-- A value of a definition, outside of all selection sets. -/
def constantValue : Parser Literal := do
  literal true (← levels)

/-- Directives on a definition that is not executed. -/
def constantDirectives : Parser (List Directive) := do
  directives true (← levels)

def fieldHead (levels : Nat) : Parser FieldHead := do
  let first ← name
  let (label, name) ← if (← acceptPunct ':') then do pure (some first, ← name) else pure (none, first)
  let args ← arguments false levels
  return ⟨label, name, args, ← directives false levels⟩

/-- What follows an ellipsis, with the parser for a selection set. -/
def fragmentSelection (levels : Nat) (selectionSet : Parser (List Selection)) : Parser Selection := do
  expect .ellipsis
  match (← peek) with
  | some (.name "on") => do
    let _ ← next
    let condition ← name
    let directives ← directives false levels
    return .inline (some condition) directives (← selectionSet)
  | some (.name fragment) => do
    let _ ← next
    return .spread fragment (← directives false levels)
  | _ => do
    let directives ← directives false levels
    return .inline none directives (← selectionSet)

def selectionOf (levels : Nat) (selectionSet : Parser (List Selection)) : Parser Selection := do
  if (← peek) = some .ellipsis then fragmentSelection levels selectionSet
  else
    let head ← fieldHead levels
    if (← peek) = some (.punct '\x7b') then return .field head (← selectionSet)
    else return .field head []

/-- Selections between braces, which are a level. -/
def selectionSetOf : (levels : Nat) → Parser (List Selection)
  | 0 => failure
  | levels + 1 => enclosedSome '\x7b' '\x7d' (selectionOf levels (selectionSetOf levels))

def selectionSet : Parser (List Selection) := do
  selectionSetOf (← levels)

def variableDef : Parser VariableDef := do
  description
  punct '$'
  let name ← name
  punct ':'
  let type ← typeRef
  let default ← if (← acceptPunct '=') then some <$> constantValue else pure none
  return ⟨name, type, default, ← constantDirectives⟩

def operationKind : Parser OperationKind := do
  match (← next) with
  | .name "query" => return .query
  | .name "mutation" => return .mutation
  | .name "subscription" => return .subscription
  | _ => failure

def optionalName : Parser (Option String) := do
  match (← peek) with
  | some (.name text) => do let _ ← next; return some text
  | _ => return none

/-- A query without keyword, name and variables. -/
def shortQuery (location : Location) : Parser Operation := do
  return ⟨.query, none, [], [], ← selectionSet, location⟩

/-- An operation after its keyword. -/
def operation (location : Location) (kind : OperationKind) : Parser Operation := do
  let name ← optionalName
  let vars ← optionalSome '(' ')' variableDef
  let directives ← directives false (← levels)
  return ⟨kind, name, vars, directives, ← selectionSet, location⟩

/-- The name of a fragment, which is never `on`. -/
def fragmentName : Parser String := do
  match (← name) with
  | "on" => failure
  | text => return text

/-- A fragment after its keyword. -/
def fragment : Parser Fragment := do
  let name ← fragmentName
  word "on"
  let condition ← Parser.name
  let directives ← directives false (← levels)
  return ⟨name, condition, directives, ← selectionSet⟩

end QueryCost.Parser
