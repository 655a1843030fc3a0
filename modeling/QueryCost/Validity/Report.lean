import QueryCost.Exclusion
import QueryCost.Validity.Selections

/-!
# Reports on documents

The flaws of a document in the order in which they are met: those of the document as a whole, those of
each definition when it is entered and those met inside it, and those found at the end.
-/
namespace QueryCost

/-- The flaws of one definition. -/
structure DefinitionReport where
  entering : List Flaw
  inside : List Flaw

/-- What is wrong with a document: before its definitions, at each of them in order, and after them. -/
structure Report (doc : Document) where
  opening : List Flaw
  definitions : List (Definition × DefinitionReport)
  closing : List Flaw
  lists : definitions.map (·.1) = doc.definitions

namespace Inspector

/-- Whether a variable may be used at a place. A default on either side makes up for null. -/
def fits (var : VariableDef) (usage : Usage) (t : TypeRef) : Bool :=
  match t with
  | .nonNull inner =>
    if var.type.isNonNull then var.type.isSubtype t
    else
      let ownDefault := match var.default with
        | some literal => !literal.isNull
        | none => false
      (ownDefault || usage.hasDefault) && var.type.isSubtype inner
  | t => var.type.isSubtype t && !(usage.exclusive && !var.type.isNonNull)

/-- Uses of a variable at places where it does not fit. -/
def positionFlaws (i : Inspector) (op : Operation) (usage : Usage) : List Flaw :=
  match op.vars.reverse.find? (·.name == usage.name), usage.type with
  | some var, some t =>
    if (i.schema.type? var.type.base).isNone || (i.schema.type? t.base).isNone then []
    else Flaw.ifSo (!fits var usage t) .variablePosition
  | _, _ => []

/-- What is wrong with the variables of an operation and their uses. -/
def variableFlaws (i : Inspector) (op : Operation) : List Flaw :=
  let usages := i.operationUsages op
  let undefined := usages.filter fun u => !op.vars.any (·.name == u.name)
  let unused := op.vars.filter fun v => !usages.any (·.name == v.name)
  undefined.map (fun _ => Flaw.undefinedVariable) ++ unused.map (fun _ => Flaw.unusedVariable)
    ++ usages.flatMap (i.positionFlaws op)

/-- What is wrong with the definition of a variable. -/
def definitionFlaws (i : Inspector) (var : VariableDef) : List Flaw :=
  let t := if i.schema.isInputRef var.type then some var.type else none
  Flaw.ifSo (!i.knowsType var.type.base) .unknownType
    ++ Flaw.ifSo ((i.schema.type? var.type.base).isSome && t.isNone) .variableNotInput
    ++ (match var.default with
      | some literal => literal.flaws i.schema t ++ literal.repeats
      | none => [])
    ++ Directive.repeats i.schema var.directives
    ++ Directive.allFlaws i.schema [] "VARIABLE_DEFINITION" var.directives

def operationLocation : OperationKind → String
  | .query => "QUERY"
  | .mutation => "MUTATION"
  | .subscription => "SUBSCRIPTION"

/-- Whether a fragment on a type applies to an object. -/
def applies (i : Inspector) (object : TypeDef) : Option String → Bool
  | none => true
  | some name => match i.schema.type? name with
    | some t => t.name == object.name || (i.schema.possibleObjects t).contains object.name
    | none => false

mutual

/-- Fields that a selection puts into an object, with fragments replaced by `spread`. -/
def responseFields (i : Inspector) (object : TypeDef) (spread : String → List FieldHead) :
    Selection → List FieldHead
  | .field head _ => if (exclusion [] head.directives).excluded then [] else [head]
  | .inline condition directives selections =>
    if (exclusion [] directives).excluded || !i.applies object condition then []
    else responseFieldsAll i object spread selections
  | .spread name directives => if (exclusion [] directives).excluded then [] else spread name

def responseFieldsAll (i : Inspector) (object : TypeDef) (spread : String → List FieldHead) :
    List Selection → List FieldHead
  | [] => []
  | s :: rest => responseFields i object spread s ++ responseFieldsAll i object spread rest

end

/-- Fields of an operation's response object; fragments nest at most `depth` deep. -/
def responseHeads (i : Inspector) (object : TypeDef) : (depth : Nat) → List Selection → List FieldHead
  | 0, selections => i.responseFieldsAll object (fun _ => []) selections
  | depth + 1, selections => i.responseFieldsAll object (fun name =>
      match i.doc.fragment? name with
      | some f => if i.applies object (some f.condition) then responseHeads i object depth f.selections
          else []
      | none => []) selections

/-- A subscription selects a single field, and no field that describes types. -/
def subscriptionFlaws (i : Inspector) (op : Operation) : List Flaw :=
  match op.kind, i.schema.root? .subscription with
  | .subscription, some object =>
    let heads := i.responseHeads object i.doc.fragments.length op.selections
    let keys := (heads.map (·.responseKey)).eraseDups
    let first := keys.filterMap fun key => heads.find? (·.responseKey == key)
    Flaw.ifSo (1 < keys.length) .subscriptionFields
      ++ (first.filter fun head => head.name.startsWith "__").map fun _ => Flaw.subscriptionFields
  | _, _ => []

/-- The flaws of an operation, given the names of those before it and the number of all. -/
def operationReport (i : Inspector) (before : List String) (count : Nat) (op : Operation) :
    DefinitionReport where
  entering :=
    (match op.name with
      | some name => Flaw.ifSo (before.contains name) .duplicateOperation
      | none => Flaw.ifSo (1 < count) .anonymousAmongOthers)
      ++ i.subscriptionFlaws op
      ++ (Flaw.repeatedNames (op.vars.map (·.name))).map (fun _ => .duplicateVariable)
      ++ Directive.repeats i.schema op.directives
  inside :=
    op.vars.flatMap i.definitionFlaws
      ++ Directive.allFlaws i.schema [] (operationLocation op.kind) op.directives
      ++ i.setFlaws (i.root? op.kind) op.selections
      ++ i.variableFlaws op

/-- The flaws of a fragment, given the names of those before it and the cycles found from it. -/
def fragmentReport (i : Inspector) (before : List String) (cycles : Nat) (f : Fragment) :
    DefinitionReport where
  entering :=
    Flaw.ifSo (before.contains f.name) .duplicateFragment
      ++ List.replicate cycles .fragmentCycle
      ++ i.conditionFlaws f.condition
      ++ Directive.repeats i.schema f.directives
  inside :=
    Directive.allFlaws i.schema [] "FRAGMENT_DEFINITION" f.directives
      ++ i.setFlaws (i.schema.composite? f.condition) f.selections

/-- Reports on definitions in order. The names of operations and fragments met so far are kept, and
the cycle counts of the fragments to come. -/
def definitionReports (i : Inspector) (operations fragments : List String) (cycles : List Nat) :
    List Definition → List (Definition × DefinitionReport)
  | [] => []
  | .operation op :: rest =>
    (.operation op, i.operationReport operations i.doc.operations.length op)
      :: definitionReports i (op.name.toList ++ operations) fragments cycles rest
  | .fragment f :: rest =>
    (.fragment f, i.fragmentReport fragments (cycles.headD 0) f)
      :: definitionReports i operations (f.name :: fragments) cycles.tail rest
  | d :: rest => (d, ⟨[], []⟩) :: definitionReports i operations fragments cycles rest

theorem definitionReports_definitions (i : Inspector) (operations fragments : List String)
    (cycles : List Nat) (ds : List Definition) :
    (i.definitionReports operations fragments cycles ds).map (·.1) = ds := by
  induction ds generalizing operations fragments cycles with
  | nil => rfl
  | cons d rest ih => cases d <;> simp [definitionReports, ih]

end Inspector

namespace Document

/-- Definitions that are neither operations nor fragments. -/
def notExecutable (doc : Document) : List Flaw :=
  doc.definitions.filterMap fun
    | .operation _ => none
    | .fragment _ => none
    | _ => some .notExecutable

/-- All flaws that standard validation finds in a document. -/
def report (schema : Schema) (doc : Document) : Report doc :=
  let i := Inspector.make schema doc
  { opening := doc.notExecutable
    definitions := i.definitionReports [] [] doc.cycleCounts doc.definitions
    closing := doc.unusedFragments.map fun _ => .unusedFragment
    lists := i.definitionReports_definitions _ _ _ _ }

end Document

end QueryCost
