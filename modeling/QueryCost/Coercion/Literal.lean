import QueryCost.Schema.Basic
import QueryCost.Binary64.Decimal

/-!
# Values of literals and arguments

A literal is read at the type of its position. The value of a variable is taken as it is, wherever it
stands; only null is checked. A literal that does not fit has no value.

Arguments are read in the order of their definitions. A variable without an entry is like an absent
argument, unknown arguments are ignored, and of a repeated argument the last one counts.
-/
namespace QueryCost

/-- What became of the field of an input object. -/
inductive Slot where
  | absent
  | invalid
  | given (value : Value)

namespace Slot

def ofOption : Option Value → Slot
  | some v => .given v
  | none => .invalid

/-- The slot of a name; of several the last one counts. -/
def named (slots : List (String × Slot)) (name : String) : Slot :=
  match slots.reverse.find? (·.1 == name) with
  | some e => e.2
  | none => .absent

end Slot

/-- Coerced fields of an input object, in the order of their definitions. Defaults fill absent fields,
and a required field may not be absent. -/
def assembleInput (defs : List ArgDef) (slots : List (String × Slot)) : Option Entries :=
  defs.foldlM (fun entries arg =>
    match Slot.named slots arg.name with
    | .given v => some (Entries.insert entries arg.key v)
    | .invalid => none
    | .absent => match arg.default with
      | some v => some (Entries.insert entries arg.key v)
      | none => if arg.type.isNonNull then none else some entries) []

/-- An input object; an exclusive one has exactly one entry, and that is not null. -/
def finishInput (exclusive : Bool) (entries : Entries) : Option Value :=
  if exclusive then
    match entries with
    | [(_, v)] => if v.isNull then none else some (.map entries)
    | _ => none
  else some (.map entries)

/-- A single value given for a list stands for a list of one. -/
def wrapLists : TypeRef → Value → Value
  | .named _, v => v
  | .nonNull t, v => wrapLists t v
  | .list t, v => .list [wrapLists t v]

/-- Integers of the schema language have 32 bits. -/
def int32? (n : Int) : Option Value :=
  if -2147483648 ≤ n ∧ n < 2147483648 then some (.int n) else none

namespace Literal

/-- The integer that digits say, with a minus in front or without. -/
def intOf (digits : String) : Int :=
  match digits.toList with
  | '-' :: rest => -(Nat.ofDigitChars 10 rest 0 : Nat)
  | all => (Nat.ofDigitChars 10 all 0 : Nat)

def floatOf (digits : String) : Value := .float ((Binary64.ofText? digits).getD .nan)

/-- Longest integer that is read. -/
def digitLimit : Nat := 4300

/-- The value of an integer at no particular type; one that is too long to be read is not a number. -/
def integerOf (digits : String) : Value :=
  if (digits.toList.filter (· != '-')).length ≤ digitLimit then .int (intOf digits) else .float .nan

mutual

/-- The value of a literal at no particular type. -/
def untyped (vars : Entries) : Literal → Value
  | .var name => (Entries.get? vars name).getD .undefined
  | .int digits => integerOf digits
  | .float digits => floatOf digits
  | .str text _ => .str text
  | .bool b => .bool b
  | .null => .null
  | .enum name => .str name
  | .list items => .list (untypedItems vars items)
  | .object fields => .map (Entries.ofPairs (untypedFields vars fields))

def untypedItems (vars : Entries) : List Literal → List Value
  | [] => []
  | item :: rest => untyped vars item :: untypedItems vars rest

def untypedFields (vars : Entries) : List (String × Literal) → List (String × Value)
  | [] => []
  | (name, item) :: rest => (name, untyped vars item) :: untypedFields vars rest

end

/-- The value of a simple literal at a built-in scalar. -/
def scalarValue? (vars : Entries) : Scalar → Literal → Option Value
  | .int, .int digits => int32? (intOf digits)
  | .float, .int digits => some (floatOf digits)
  | .float, .float digits => some (floatOf digits)
  | .string, .str text _ => some (.str text)
  | .boolean, .bool b => some (.bool b)
  | .id, .str text _ => some (.str text)
  | .id, .int digits => some (.str digits)
  | .custom, literal => some (literal.untyped vars)
  | _, _ => none

/-- The value of a literal at a scalar or enumeration. -/
def leafValue? (vars : Entries) (body : Option TypeBody) (literal : Literal) : Option Value :=
  match body with
  | some (.scalar s) => literal.scalarValue? vars s
  | some (.enum values) => match literal with
    | .enum name => if values.contains name then some (.str name) else none
    | _ => none
  | _ => none

/-- A variable without a value. -/
def isMissing (vars : Entries) : Literal → Bool
  | .var name => match Entries.get? vars name with
    | some v => v.isUndefined
    | none => true
  | _ => false

/-- The value of a variable at a type: null is refused where a value is needed. -/
def variableValue? (vars : Entries) (t : TypeRef) (name : String) : Option Value :=
  match Entries.get? vars name with
  | none => none
  | some .undefined => none
  | some v => if v.isNull && t.isNonNull then none else some v

mutual

/-- The value of a literal at a type. -/
def value? (schema : Schema) (vars : Entries) : TypeRef → Literal → Option Value
  | t, .var name => variableValue? vars t name
  | t, .null => if t.isNonNull then none else some .null
  | t, .list items =>
    match t.nullable with
    | .list item => (values? schema vars item items).map .list
    | .named name => leafValue? vars (schema.body? name) (.list items)
    | .nonNull _ => none
  | t, .object fields =>
    match schema.body? t.base with
    | some (.input exclusive defs) => do
      let entries ← assembleInput defs (slots schema vars defs fields)
      return wrapLists t (← finishInput exclusive entries)
    | body => (leafValue? vars body (.object fields)).map (wrapLists t)
  | t, literal =>
    (leafValue? vars (schema.body? t.base) literal).map (wrapLists t)

/-- The values of list items; a missing variable is null. -/
def values? (schema : Schema) (vars : Entries) (item : TypeRef) : List Literal → Option (List Value)
  | [] => some []
  | literal :: rest => do
    let first ← if literal.isMissing vars then
        if item.isNonNull then none else some .null
      else value? schema vars item literal
    return first :: (← values? schema vars item rest)

/-- The fields of an object literal at their types; unknown fields are dropped. -/
def slots (schema : Schema) (vars : Entries) (defs : List ArgDef) :
    List (String × Literal) → List (String × Slot)
  | [] => []
  | (name, literal) :: rest =>
    let more := slots schema vars defs rest
    match defs.find? (·.name == name) with
    | none => more
    | some arg =>
      if literal.isMissing vars then (name, .absent) :: more
      else (name, .ofOption (value? schema vars arg.type literal)) :: more

end

end Literal

/-- The literal given for an argument. -/
def givenArgument? (given : List (String × Literal)) (name : String) : Option Literal :=
  (given.reverse.find? (·.1 == name)).map (·.2)

/-- The value of an argument that is not given: its default, nothing, or a failure if required. -/
def ArgDef.absent (arg : ArgDef) (entries : Entries) : Option Entries :=
  match arg.default with
  | some v => some (Entries.insert entries arg.key v)
  | none => if arg.type.isNonNull then none else some entries

/-- Read one argument into the map. -/
def ArgDef.read? (schema : Schema) (vars : Entries) (given : List (String × Literal))
    (entries : Entries) (arg : ArgDef) : Option Entries :=
  match givenArgument? given arg.name with
  | none => arg.absent entries
  | some (.var name) =>
    if Entries.contains vars name then
      (Literal.variableValue? vars arg.type name).map (Entries.insert entries arg.key)
    else arg.absent entries
  | some literal =>
    (literal.value? schema vars arg.type).map (Entries.insert entries arg.key)

/-- The values of all arguments, or `none` if one of them does not fit. -/
def argumentValues? (schema : Schema) (defs : List ArgDef) (given : List (String × Literal))
    (vars : Entries) : Option Entries :=
  defs.foldlM (fun entries arg => arg.read? schema vars given entries) []

end QueryCost
