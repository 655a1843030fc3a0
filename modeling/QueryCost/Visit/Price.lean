import QueryCost.Estimate.Basic
import QueryCost.Visit.Expansion

/-!
# Prices

Visits are priced from the bottom up and from left to right: the children of a field first, then the
field by the chain of estimators. A field that its type does not have costs one, and what is left out
adds nothing.
-/
namespace QueryCost

variable {σ : Type}

def Site.call (site : Site) (child : Number) : Call :=
  ⟨site.args, .num child, site.field, site.name, site.parent⟩

/-- The cost of a field above children of a given cost (`calculate_field_complexity`). -/
def Site.price (chain : List (Estimate σ)) (site : Site) (child : Number) : Run σ Number := do
  match (← consult chain (site.call child)) with
  | some cost => return cost
  | none => Run.ofExcept ((Number.int 1).add child)

namespace Visit

mutual

/-- What a visit adds to the cost, if anything. -/
def price (chain : List (Estimate σ)) : Visit → Run σ (Option Number)
  | .excluded notices => do
    Run.noteAll notices
    return none
  | .unresolved notices => do
    Run.noteAll notices
    return some (.int 1)
  | .unexpanded notices => do
    Run.noteAll notices
    return none
  | .field notices site below => do
    Run.noteAll notices
    let child ← priceAll chain (.int 0) below
    return some (← site.price chain child)
  | .group notices below => do
    Run.noteAll notices
    return some (← priceAll chain (.int 0) below)

/-- Add the costs of visits to a total. -/
def priceAll (chain : List (Estimate σ)) : (total : Number) → List Visit → Run σ Number
  | total, [] => return total
  | total, v :: rest => do
    match (← price chain v) with
    | some cost => do
      let total ← Run.ofExcept (total.add cost)
      priceAll chain total rest
    | none => priceAll chain total rest

end

end Visit

/-- The cost of a selection set and the number of its nodes. -/
structure Score where
  cost : Number
  nodes : Nat
  deriving DecidableEq, Repr

/-- Price selections below a path of fragments (`calculate_complexity`). -/
def Scope.score (scope : Scope) (chain : List (Estimate σ)) (path : List String)
    (parent : Option TypeDef) (selections : List Selection) : Run σ Score := do
  let visits := scope.expand path parent selections
  let cost ← Visit.priceAll chain (.int 0) visits
  return ⟨cost, Visit.nodesAll visits⟩

/-- Price selections and count their nodes on from a given number. -/
def Scope.scoreFrom (scope : Scope) (chain : List (Estimate σ)) (path : List String) (start : Int)
    (parent : Option TypeDef) (selections : List Selection) : Run σ (Number × Int) := do
  let score ← scope.score chain path parent selections
  return (score.cost, start + score.nodes)

end QueryCost
