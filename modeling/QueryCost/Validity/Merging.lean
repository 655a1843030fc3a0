import QueryCost.Validity.Fragments
import QueryCost.Validity.Typing

/-!
# Merging of fields

Fields with one response key have to agree: on one object they must be the same field with the same
arguments, and in any case they must have the same shape all the way down.
-/
namespace QueryCost

/-- A field with the type it is selected on. -/
structure FieldUse where
  parent : Option TypeDef
  head : FieldHead
  selections : List Selection

namespace FieldUse

def definition? (use : FieldUse) : Option FieldDef :=
  use.parent.bind (·.field? use.head.name)

def type? (use : FieldUse) : Option TypeRef :=
  use.definition?.map (·.type)

end FieldUse

namespace Literal

mutual

/-- Whether two literals are the same; the order of object fields does not count. -/
def same : Literal → Literal → Bool
  | .var a, .var b => a == b
  | .int a, .int b => a == b
  | .float a, .float b => a == b
  | .str a block, .str b block' => a == b && block == block'
  | .bool a, .bool b => a == b
  | .null, .null => true
  | .enum a, .enum b => a == b
  | .list a, .list b => sameItems a b
  | .object a, .object b => a.length == b.length && fieldsIn b a
  | _, _ => false

def sameItems : List Literal → List Literal → Bool
  | [], [] => true
  | a :: s, b :: t => same a b && sameItems s t
  | _, _ => false

/-- Whether all fields occur among others with the same literals. -/
def fieldsIn (others : List (String × Literal)) : List (String × Literal) → Bool
  | [] => true
  | (name, literal) :: rest =>
    (match others.reverse.find? (·.1 == name) with
      | some (_, other) => same literal other
      | none => false) && fieldsIn others rest

end

end Literal

namespace Merging

mutual

/-- Fields selected directly on a type, inline fragments included. -/
def ownFields (schema : Schema) (parent : Option TypeDef) : Selection → List FieldUse
  | .field head selections => [⟨parent, head, selections⟩]
  | .inline none _ selections => ownFieldsAll schema parent selections
  | .inline (some name) _ selections => ownFieldsAll schema (schema.type? name) selections
  | .spread _ _ => []

def ownFieldsAll (schema : Schema) (parent : Option TypeDef) : List Selection → List FieldUse
  | [] => []
  | s :: rest => ownFields schema parent s ++ ownFieldsAll schema parent rest

end

mutual

/-- Fragments spread directly, not below another field. -/
def ownSpreads : Selection → List String
  | .field _ _ => []
  | .inline _ _ selections => ownSpreadsAll selections
  | .spread name _ => [name]

def ownSpreadsAll : List Selection → List String
  | [] => []
  | s :: rest => ownSpreads s ++ ownSpreadsAll rest

end

/-- All fields that selections put into one object, each fragment taken once. -/
def fields (schema : Schema) (doc : Document) (parent : Option TypeDef) (selections : List Selection) :
    List FieldUse :=
  let next (name : String) : List String := match doc.fragment? name with
    | some f => ownSpreadsAll f.selections
    | none => []
  let names := reachable next doc.fragments.length (ownSpreadsAll selections)
  ownFieldsAll schema parent selections
    ++ (names.filterMap doc.fragment?).flatMap fun f =>
      ownFieldsAll schema (schema.type? f.condition) f.selections

def sameArguments (a b : List (String × Literal)) : Bool :=
  a.length == b.length && Literal.fieldsIn b a

mutual

/-- Whether two selections put the same fields into an object. -/
def same : Selection → Selection → Bool
  | .field a s, .field b t =>
    a.responseKey == b.responseKey && a.name == b.name && sameArguments a.args b.args && sameAll s t
  | .inline c _ s, .inline d _ t => c == d && sameAll s t
  | .spread a _, .spread b _ => a == b
  | _, _ => false

def sameAll : List Selection → List Selection → Bool
  | [], [] => true
  | a :: s, b :: t => same a b && sameAll s t
  | _, _ => false

end

/-- Whether two types have different shapes. -/
def typesConflict (schema : Schema) : TypeRef → TypeRef → Bool
  | .list a, .list b => typesConflict schema a b
  | .list _, _ => true
  | _, .list _ => true
  | .nonNull a, .nonNull b => typesConflict schema a b
  | .nonNull _, _ => true
  | _, .nonNull _ => true
  | .named a, .named b =>
    let leaf (name : String) : Bool := ((schema.type? name).map (·.isLeaf)).getD false
    (leaf a || leaf b) && a != b

/-- Whether two fields are selected on objects of different types. -/
def onDifferentObjects (a b : FieldUse) : Bool :=
  match a.parent, b.parent with
  | some s, some t => s.name != t.name && s.isObject && t.isObject
  | _, _ => false

/-- Whether two fields of one response key cannot be merged. With `apart` they belong to objects of
different types. Below two fields of one type with the same selections nothing is compared: whatever
conflicts there is a conflict within either of them. -/
def conflict (schema : Schema) (doc : Document) :
    (depth : Nat) → (apart : Bool) → FieldUse → FieldUse → Bool
  | 0, _, _, _ => false
  | depth + 1, apart, a, b =>
    let apart := apart || onDifferentObjects a b
    let differ := !apart && (a.head.name != b.head.name || !sameArguments a.head.args b.head.args)
    let shapes := match a.type?, b.type? with
      | some s, some t => typesConflict schema s t
      | _, _ => false
    if differ || shapes then true
    else if a.selections.isEmpty || b.selections.isEmpty then false
    else if a.type?.map (·.base) == b.type?.map (·.base) && sameAll a.selections b.selections then
      false
    else
      let below (use : FieldUse) : List FieldUse :=
        fields schema doc (use.type?.bind fun t => schema.type? t.base) use.selections
      let right := below b
      (below a).any fun x => right.any fun y =>
        x.head.responseKey == y.head.responseKey && conflict schema doc depth apart x y

/-- Conflicts between the fields of one selection set. -/
def conflictsAmong (schema : Schema) (doc : Document) (depth : Nat) : List FieldUse → List Flaw
  | [] => []
  | use :: rest =>
    ((rest.filter fun other => other.head.responseKey == use.head.responseKey
      && conflict schema doc depth false use other).map fun _ => Flaw.conflictingFields)
      ++ conflictsAmong schema doc depth rest

/-- Conflicts within a selection set. Where fragments form cycles no comparison is made. -/
def flaws (schema : Schema) (doc : Document) (depth : Nat) (parent : Option TypeDef)
    (selections : List Selection) : List Flaw :=
  conflictsAmong schema doc depth (fields schema doc parent selections)

end Merging

end QueryCost
