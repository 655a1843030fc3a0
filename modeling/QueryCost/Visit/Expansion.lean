import QueryCost.Exclusion
import QueryCost.Visit.Basic

/-!
# Expansion of selections

Selections become visits. A spread is expanded wherever it is met, unless its fragment is already
being expanded on the path that leads there; so the path only ever holds distinct fragments, and the
number of fragments bounds how far spreads nest.
-/
namespace QueryCost

/-- What selections are read against. -/
structure Scope where
  schema : Schema
  fragments : List Fragment
  vars : Entries

namespace Scope

/-- The fragment of a name; the last definition counts. -/
def fragment? (scope : Scope) (name : String) : Option Fragment :=
  scope.fragments.reverse.find? (·.name == name)

/-- The type and definition of a field selected on a type. -/
def resolve? (parent : Option TypeDef) (name : String) : Option (TypeDef × FieldDef) := do
  let t ← parent
  if t.isComposite then
    let field ← t.field? name
    return (t, field)
  else none

/-- The site of a field and the notice its arguments give rise to. -/
def site (scope : Scope) (t : TypeDef) (field : FieldDef) (head : FieldHead) : Site × List Notice :=
  match argumentValues? scope.schema field.args head.args scope.vars with
  | some args => (⟨field, head.name, t, args⟩, [])
  | none => (⟨field, head.name, t, []⟩, [.arguments head.name])

/-- The type on which an inline fragment selects. -/
def conditioned (scope : Scope) (condition : Option String) (parent : Option TypeDef) :
    Option TypeDef :=
  match condition with
  | some name => scope.schema.type? name
  | none => parent

mutual

/-- The visit of a selection, with `spread` giving the visits of a fragment that can be expanded. -/
def visit (scope : Scope) (spread : String → Option (List Visit)) (parent : Option TypeDef) :
    Selection → Visit
  | .field head selections =>
    let e := exclusion scope.vars head.directives
    if e.excluded then .excluded e.notices
    else match resolve? parent head.name with
      | none => .unresolved e.notices
      | some (t, field) =>
        let (site, notices) := scope.site t field head
        .field (e.notices ++ notices) site
          (visitAll scope spread (scope.schema.type? field.type.base) selections)
  | .inline condition directives selections =>
    let e := exclusion scope.vars directives
    if e.excluded then .excluded e.notices
    else .group e.notices (visitAll scope spread (scope.conditioned condition parent) selections)
  | .spread name directives =>
    let e := exclusion scope.vars directives
    if e.excluded then .excluded e.notices
    else match spread name with
      | none => .unexpanded e.notices
      | some below => .group e.notices below

def visitAll (scope : Scope) (spread : String → Option (List Visit)) (parent : Option TypeDef) :
    List Selection → List Visit
  | [] => []
  | selection :: rest => visit scope spread parent selection :: visitAll scope spread parent rest

end

/-- Expand selections below a path of fragments, nesting at most `budget` spreads. -/
def expandWithin (scope : Scope) : (budget : Nat) → (path : List String) → Option TypeDef →
    List Selection → List Visit
  | 0, _, parent, selections => scope.visitAll (fun _ => none) parent selections
  | budget + 1, path, parent, selections =>
    scope.visitAll (fun name =>
      if path.contains name then none
      else (scope.fragment? name).map fun f =>
        scope.expandWithin budget (name :: path) (scope.schema.type? f.condition) f.selections)
      parent selections

/-- The visits of selections below a path of fragments. -/
def expand (scope : Scope) (path : List String) (parent : Option TypeDef)
    (selections : List Selection) : List Visit :=
  scope.expandWithin scope.fragments.length path parent selections

end Scope

end QueryCost
