import QueryCost.Coercion.Literal

/-!
# Values of variables

The values a client sends are checked against the types that an operation declares. If all fit, the
operation sees the declared variables only; otherwise it sees what was sent.
-/
namespace QueryCost

/-- A variable's value at a built-in scalar. -/
def Scalar.read? : Scalar → Value → Option Value
  | .int, .num (.int n) => int32? n
  | .int, .num (.float x) => x.toInt?.bind int32?
  | .float, .num x => match x.toBinary64 with
    | .ok x => if x.isFinite then some (.float x) else none
    | .error _ => none
  | .string, .str s => some (.str s)
  | .boolean, .bool b => some (.bool b)
  | .id, .str s => some (.str s)
  | .id, .num (.int n) => some (.str (toString n))
  | .id, .num (.float x) => x.toInt?.map fun n => .str (toString n)
  | .custom, v => some v
  | _, _ => none

namespace Value

/-- A value at a scalar or enumeration. -/
def readLeaf? (body : Option TypeBody) (v : Value) : Option Value :=
  match body with
  | some (.scalar s) => s.read? v
  | some (.enum values) => match v with
    | .str name => if values.contains name then some (.str name) else none
    | _ => none
  | _ => none

mutual

/-- A sent value at a type. -/
def read? (schema : Schema) : TypeRef → Value → Option Value
  | t, .null => if t.isNonNull then none else some .null
  | t, .list items =>
    match t.nullable with
    | .list item => (readAll? schema item items).map .list
    | .named name => readLeaf? (schema.body? name) (.list items)
    | .nonNull _ => none
  | t, .map entries =>
    match schema.body? t.base with
    | some (.input exclusive defs) =>
      if entries.all (fun e => defs.any (·.name == e.1)) then do
        let coerced ← assembleInput defs (readSlots schema defs entries)
        return wrapLists t (← finishInput exclusive coerced)
      else none
    | some (.scalar .custom) => some (wrapLists t (.map entries))
    | _ => none
  | t, v => (readLeaf? (schema.body? t.base) v).map (wrapLists t)

def readAll? (schema : Schema) (item : TypeRef) : List Value → Option (List Value)
  | [] => some []
  | v :: rest => do
    let first ← read? schema item v
    return first :: (← readAll? schema item rest)

def readSlots (schema : Schema) (defs : List ArgDef) : List (String × Value) → List (String × Slot)
  | [] => []
  | (name, v) :: rest =>
    let more := readSlots schema defs rest
    match defs.find? (·.name == name) with
    | none => more
    | some arg => (name, .ofOption (read? schema arg.type v)) :: more

end

end Value

/-- Read one declared variable into the map; `none` if what was sent does not fit. -/
def VariableDef.read? (schema : Schema) (sent : Entries) (coerced : Entries) (var : VariableDef) :
    Option Entries :=
  if !schema.isInputRef var.type then none
  else match Entries.get? sent var.name with
    | none => match var.default with
      | some literal =>
        some (Entries.insert coerced var.name
          ((literal.value? schema [] var.type).getD .undefined))
      | none => if var.type.isNonNull then none else some coerced
    | some v => (v.read? schema var.type).map (Entries.insert coerced var.name)

/-- The declared variables of an operation, if everything that was sent for them fits. -/
def Operation.coerceVariables? (schema : Schema) (op : Operation) (sent : Entries) : Option Entries :=
  op.vars.foldlM (fun coerced var => var.read? schema sent coerced) []

end QueryCost
