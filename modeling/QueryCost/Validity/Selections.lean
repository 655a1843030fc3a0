import QueryCost.Validity.Argument
import QueryCost.Validity.Introspection
import QueryCost.Validity.Merging

/-!
# Selections against a schema

Each selection is checked on the type it stands on. Below a field or condition that the schema does
not know nothing is known, and fields there are not judged.
-/
namespace QueryCost

/-- What selections are checked against. -/
structure Inspector where
  schema : Schema
  doc : Document
  /-- Bound on how deep fields are compared; zero if fragments form cycles. -/
  depth : Nat

namespace Inspector

def make (schema : Schema) (doc : Document) : Inspector :=
  let selections := doc.operations.flatMap (·.selections) ++ doc.fragments.flatMap (·.selections)
  ⟨schema, doc, if doc.hasCycle then 0 else Selection.sizeAll selections + 1⟩

/-- A type name of the schema, or one that the document itself defines. -/
def knowsType (i : Inspector) (name : String) : Bool :=
  (i.schema.type? name).isSome || i.doc.definitions.any fun
    | .type false n _ _ => n == name
    | _ => false

/-- What is wrong with a type condition. -/
def conditionFlaws (i : Inspector) (name : String) : List Flaw :=
  Flaw.ifSo (!i.knowsType name) .unknownType
    ++ match i.schema.type? name with
      | some t => Flaw.ifSo (!t.isComposite) .conditionNotComposite
      | none => []

/-- Selecting on a type below another has to be possible. -/
def spreadFlaws (i : Inspector) (parent : Option TypeDef) (name : String) : List Flaw :=
  match parent, i.schema.composite? name with
  | some p, some t => Flaw.ifSo (!i.schema.overlap t p) .impossibleFragment
  | _, _ => []

/-- Leaves have no selections, and all other fields have some. -/
def leafFlaws (i : Inspector) (field : FieldDef) (selections : List Selection) : List Flaw :=
  match i.schema.type? field.type.base with
  | some t =>
    if t.isLeaf then Flaw.ifSo (!selections.isEmpty) .selectionOnLeaf
    else Flaw.ifSo selections.isEmpty .missingSelection
  | none => []

/-- What is wrong with a field apart from what is selected below it. -/
def headFlaws (i : Inspector) (parent : Option TypeDef) (field : Option FieldDef) (head : FieldHead)
    (selections : List Selection) : List Flaw :=
  let defs := (field.map (·.args)).getD []
  Flaw.ifSo (parent.isSome && field.isNone) .unknownField
    ++ Flaw.ifSo (Introspection.tooDeep i.doc head selections) .deepIntrospection
    ++ (match field with
      | some f => i.leafFlaws f selections ++ Arguments.unknown f.args head.args
          ++ Arguments.missing f.args head.args
      | none => [])
    ++ Arguments.valueFlaws i.schema defs head.args
    ++ Directive.repeats i.schema head.directives
    ++ Directive.allFlaws i.schema defs "FIELD" head.directives

def field? (i : Inspector) (parent : Option TypeDef) (name : String) : Option FieldDef :=
  parent.bind (i.schema.fieldOn? · name)

/-- The type on which the selections of a field stand. -/
def below? (i : Inspector) (field : Option FieldDef) : Option TypeDef :=
  field.bind fun f => i.schema.composite? f.type.base

mutual

/-- What is wrong with a selection on a type, inside a field with the given arguments. -/
def flaws (i : Inspector) (parent : Option TypeDef) (around : List ArgDef) : Selection → List Flaw
  | .field head selections =>
    let field := i.field? parent head.name
    i.headFlaws parent field head selections
      ++ Merging.flaws i.schema i.doc i.depth (i.below? field) selections
      ++ flawsAll i (i.below? field) ((field.map (·.args)).getD []) selections
  | .inline condition directives selections =>
    let parent' := match condition with
      | some name => i.schema.composite? name
      | none => parent
    (match condition with
      | some name => i.conditionFlaws name ++ i.spreadFlaws parent name
      | none => [])
      ++ Directive.repeats i.schema directives
      ++ Directive.allFlaws i.schema around "INLINE_FRAGMENT" directives
      ++ Merging.flaws i.schema i.doc i.depth parent' selections
      ++ flawsAll i parent' around selections
  | .spread name directives =>
    (match i.doc.fragment? name with
      | some f => i.spreadFlaws parent f.condition
      | none => [.unknownFragment])
      ++ Directive.repeats i.schema directives
      ++ Directive.allFlaws i.schema around "FRAGMENT_SPREAD" directives

def flawsAll (i : Inspector) (parent : Option TypeDef) (around : List ArgDef) :
    List Selection → List Flaw
  | [] => []
  | s :: rest => flaws i parent around s ++ flawsAll i parent around rest

end

/-- What is wrong with a selection set that stands on a type. -/
def setFlaws (i : Inspector) (parent : Option TypeDef) (selections : List Selection) : List Flaw :=
  Merging.flaws i.schema i.doc i.depth parent selections ++ i.flawsAll parent [] selections

mutual

/-- The variables used at and below a selection. -/
def usages (i : Inspector) (parent : Option TypeDef) (around : List ArgDef) : Selection → List Usage
  | .field head selections =>
    let field := i.field? parent head.name
    let defs := (field.map (·.args)).getD []
    Arguments.usages i.schema defs head.args ++ Directive.usages i.schema defs head.directives
      ++ usagesAll i (i.below? field) defs selections
  | .inline condition directives selections =>
    let parent' := match condition with
      | some name => i.schema.composite? name
      | none => parent
    Directive.usages i.schema around directives ++ usagesAll i parent' around selections
  | .spread _ directives => Directive.usages i.schema around directives

def usagesAll (i : Inspector) (parent : Option TypeDef) (around : List ArgDef) :
    List Selection → List Usage
  | [] => []
  | s :: rest => usages i parent around s ++ usagesAll i parent around rest

end

/-- The variables used in a fragment. -/
def fragmentUsages (i : Inspector) (f : Fragment) : List Usage :=
  Directive.usages i.schema [] f.directives
    ++ i.usagesAll (i.schema.composite? f.condition) [] f.selections

/-- The type on which the selections of an operation stand. -/
def root? (i : Inspector) (kind : OperationKind) : Option TypeDef :=
  match i.schema.root? kind with
  | some t => if t.isObject then some t else none
  | none => none

/-- The variables used in an operation and in all fragments it leads to. -/
def operationUsages (i : Inspector) (op : Operation) : List Usage :=
  Directive.usages i.schema [] op.directives
    ++ i.usagesAll (i.root? op.kind) [] op.selections
    ++ (i.doc.fragmentsFrom op.selections).flatMap i.fragmentUsages

end Inspector

end QueryCost
