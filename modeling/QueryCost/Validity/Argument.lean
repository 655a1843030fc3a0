import QueryCost.Coercion.Literal
import QueryCost.Validity.Flaw
import QueryCost.Validity.Typing

/-!
# Arguments and directives

Literals are checked at the type of their position, where it is known, and variables are collected
with the type and default of theirs.
-/
namespace QueryCost

/-- A place where a variable is used. -/
structure Usage where
  name : String
  type : Option TypeRef
  hasDefault : Bool
  /-- The place is a field of an exclusive input object. -/
  exclusive : Bool

namespace Literal

/-- The type of the items of a list that stands at a type. -/
def itemType (t : TypeRef) : TypeRef :=
  match t.nullable with
  | .list item => item
  | t => t

/-- The definition of a field of the input object that stands at a type. -/
def inputField? (schema : Schema) (t : Option TypeRef) (name : String) : Option (ArgDef × Bool) := do
  match schema.body? (← t).base with
  | some (.input exclusive defs) =>
    let arg ← defs.find? (·.name == name)
    return (arg, exclusive)
  | _ => none

/-- Whether a literal other than null and variables fits at a leaf type. -/
def fitsLeaf (schema : Schema) (t : Option TypeRef) (literal : Literal) : Bool :=
  match t with
  | none => true
  | some t => (literal.leafValue? [] (schema.body? t.base)).isSome

def isNull : Literal → Bool
  | .null => true
  | _ => false

/-- Fields that an input object has to have, and the only field of an exclusive one. -/
def objectFlaws (exclusive : Bool) (defs : List ArgDef) (fields : List (String × Literal)) : List Flaw :=
  let names := (fields.map (·.1)).eraseDups
  let missing := defs.filter fun arg => arg.isRequired && !names.contains arg.name
  let alone := match names with
    | [name] => match fields.reverse.find? (·.1 == name) with
      | some (_, v) => !v.isNull
      | none => true
    | _ => false
  missing.map (fun _ => Flaw.unfitValue) ++ Flaw.ifSo (exclusive && !alone) .unfitValue

mutual

/-- What is wrong with a literal at a type. -/
def flaws (schema : Schema) (t : Option TypeRef) : Literal → List Flaw
  | .var _ => []
  | .null => Flaw.ifSo ((t.map (·.isNonNull)).getD false) .unfitValue
  | .list items =>
    match t.map TypeRef.nullable with
    | some (.list item) => itemFlaws schema (some item) items
    | _ => Flaw.ifSo (!fitsLeaf schema t (.list items)) .unfitValue
  | .object fields =>
    match t.bind (fun t => schema.body? t.base) with
    | some (.input exclusive defs) =>
      objectFlaws exclusive defs fields ++ fieldFlaws schema defs fields
    | _ => Flaw.ifSo (!fitsLeaf schema t (.object fields)) .unfitValue
  | literal => Flaw.ifSo (!fitsLeaf schema t literal) .unfitValue

def itemFlaws (schema : Schema) (t : Option TypeRef) : List Literal → List Flaw
  | [] => []
  | item :: rest => flaws schema t item ++ itemFlaws schema t rest

def fieldFlaws (schema : Schema) (defs : List ArgDef) : List (String × Literal) → List Flaw
  | [] => []
  | (name, literal) :: rest =>
    (match defs.find? (·.name == name) with
      | some arg => flaws schema (some arg.type) literal
      | none => [.unfitValue]) ++ fieldFlaws schema defs rest

end

mutual

/-- Fields that are repeated in object literals. -/
def repeats : Literal → List Flaw
  | .list items => itemRepeats items
  | .object fields =>
    (Flaw.laterNames [] (fields.map (·.1))).map (fun _ => Flaw.duplicateInputField)
      ++ fieldRepeats fields
  | _ => []

def itemRepeats : List Literal → List Flaw
  | [] => []
  | item :: rest => repeats item ++ itemRepeats rest

def fieldRepeats : List (String × Literal) → List Flaw
  | [] => []
  | (_, literal) :: rest => repeats literal ++ fieldRepeats rest

end

mutual

/-- The variables in a literal. -/
def usages (schema : Schema) (t : Option TypeRef) (hasDefault exclusive : Bool) : Literal → List Usage
  | .var name => [⟨name, t, hasDefault, exclusive⟩]
  | .list items => itemUsages schema (t.map itemType) items
  | .object fields => fieldUsages schema t fields
  | _ => []

def itemUsages (schema : Schema) (t : Option TypeRef) : List Literal → List Usage
  | [] => []
  | item :: rest => usages schema t false false item ++ itemUsages schema t rest

def fieldUsages (schema : Schema) (t : Option TypeRef) : List (String × Literal) → List Usage
  | [] => []
  | (name, literal) :: rest =>
    (match inputField? schema t name with
      | some (arg, exclusive) => usages schema (some arg.type) arg.default.isSome exclusive literal
      | none => usages schema none false false literal) ++ fieldUsages schema t rest

end

end Literal

/-- Arguments as they are given. -/
abbrev Arguments := List (String × Literal)

namespace Arguments

/-- What is wrong with the values of arguments, and repetitions among them. -/
def valueFlaws (schema : Schema) (defs : List ArgDef) (args : Arguments) : List Flaw :=
  (Flaw.repeatedNames (List.map (·.1) args)).map (fun _ => Flaw.duplicateArgument)
    ++ List.flatMap (fun (name, literal) =>
      let known := defs.find? (·.name == name)
      literal.flaws schema (known.map (·.type)) ++ literal.repeats) args

/-- Arguments that are not defined. -/
def unknown (defs : List ArgDef) (args : Arguments) : List Flaw :=
  (List.filter (fun arg => !defs.any (·.name == arg.1)) args).map fun _ => Flaw.unknownArgument

/-- Required arguments that are not given. -/
def missing (defs : List ArgDef) (args : Arguments) : List Flaw :=
  (defs.filter fun d => d.isRequired && !List.any args (·.1 == d.name)).map fun _ =>
    Flaw.missingArgument

def usages (schema : Schema) (defs : List ArgDef) (args : Arguments) : List Usage :=
  List.flatMap (fun (name, literal) =>
    match defs.find? (·.name == name) with
    | some arg => literal.usages schema (some arg.type) arg.default.isSome false
    | none => literal.usages schema none false false) args

end Arguments

namespace Directive

/-- The arguments a directive has; those of an unknown one are looked up on the field around it. -/
def argDefs (schema : Schema) (around : List ArgDef) (d : Directive) : List ArgDef :=
  match schema.directive? d.name with
  | some definition => definition.args
  | none => around

/-- What is wrong with one directive at a location. -/
def flaws (schema : Schema) (around : List ArgDef) (location : String) (d : Directive) : List Flaw :=
  (match schema.directive? d.name with
    | none => [.unknownDirective]
    | some definition =>
      Flaw.ifSo (!definition.locations.contains location) .misplacedDirective
        ++ Arguments.unknown definition.args d.args ++ Arguments.missing definition.args d.args)
    ++ Arguments.valueFlaws schema (d.argDefs schema around) d.args

/-- Directives that stand repeatedly where they may stand once. -/
def repeats (schema : Schema) (directives : List Directive) : List Flaw :=
  let unique := directives.filter fun d => match schema.directive? d.name with
    | some definition => !definition.repeatable
    | none => false
  (Flaw.laterNames [] (unique.map (·.name))).map fun _ => Flaw.repeatedDirective

def allFlaws (schema : Schema) (around : List ArgDef) (location : String)
    (directives : List Directive) : List Flaw :=
  directives.flatMap (flaws schema around location)

def usages (schema : Schema) (around : List ArgDef) (directives : List Directive) : List Usage :=
  directives.flatMap fun d => Arguments.usages schema (d.argDefs schema around) d.args

end Directive

end QueryCost
