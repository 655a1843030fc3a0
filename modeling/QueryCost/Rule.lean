import QueryCost.Coercion.Input
import QueryCost.Limits
import QueryCost.Visit.Price

/-!
# The cost rule

A rule goes through the operations of a document. The first operation beyond a limit is reported, and
nothing after it; a document without a report is completed with the highest cost of its operations.
-/
namespace QueryCost

variable {σ : Type}

/-- How an operation exceeds the limits. -/
inductive Excess where
  | nodes (limit count : Nat)
  | cost (limit cost : Number)
  deriving DecidableEq, Repr

structure Violation where
  excess : Excess
  location : Location
  deriving DecidableEq, Repr

namespace Excess

/-- Machine-readable classification of all excesses. -/
def code : String := "QUERY_TOO_COMPLEX"

def message : Excess → String
  | nodes limit count =>
    "Query exceeds maximum node limit of " ++ toString limit ++ ". This query has "
      ++ toString count ++ " nodes."
  | cost limit actual =>
    "Query exceeds maximum complexity of " ++ limit.text ++ ". Actual complexity is "
      ++ actual.text ++ "."

/-- The data that goes with a report. -/
def details : Excess → Entries
  | nodes limit count =>
    [("code", .str code), ("maximumNodeCount", .int limit), ("nodeCount", .int count)]
  | cost limit actual =>
    [("code", .str code), ("complexity", .num actual), ("maximumComplexity", .num limit)]

end Excess

/-- How a score exceeds the limits; too many nodes are reported before a too high cost. -/
def Limits.excess? (limits : Limits) (score : Score) : Option Excess :=
  if limits.nodes < score.nodes then some (.nodes limits.nodes score.nodes)
  else if limits.maximum.lt score.cost then some (.cost limits.maximum score.cost)
  else none

/-- A rule with all it needs (`QueryComplexityValidationRule`). -/
structure Rule (σ : Type) where
  chain : List (Estimate σ)
  limits : Limits
  /-- Used instead of the schema a document is checked against. -/
  schema : Option Schema
  vars : Entries

/-- What a rule knows after some operations. -/
structure Progress where
  highest : Number
  violation : Option Violation
  deriving DecidableEq, Repr

namespace Progress

def start : Progress := ⟨.int 0, none⟩

/-- Take in the score of an operation. Only the first excess is kept. -/
def record (limits : Limits) (location : Location) (score : Score) (p : Progress) : Progress where
  highest := if p.highest.lt score.cost then score.cost else p.highest
  violation := p.violation.or ((limits.excess? score).map (⟨·, location⟩))

/-- The highest cost of a document without a report. -/
def completed? (p : Progress) : Option Number :=
  if p.violation.isSome then none else some p.highest

end Progress

/-- The variables an operation sees (`coerce_variables`): the declared ones, or all as sent if they do not
fit. -/
def Operation.variablesFor (schema : Schema) (op : Operation) (sent : Entries) : Run σ Entries :=
  match op.coerceVariables? schema sent with
  | some coerced => return coerced
  | none => do
    Run.note .rawVariables
    return sent

namespace Rule

/-- Price one operation; `none` if the schema has no root type for it. -/
def score? (rule : Rule σ) (schema : Schema) (fragments : List Fragment) (op : Operation) :
    Run σ (Option Score) := do
  let schema := rule.schema.getD schema
  match schema.root? op.kind with
  | none => return none
  | some root => do
    let vars ← op.variablesFor schema rule.vars
    let scope : Scope := ⟨schema, fragments, vars⟩
    let score ← scope.score rule.chain [] (some root) op.selections
    Run.note (.operation op.name score.cost score.nodes)
    return some score

/-- Go on to the next operation. -/
def enter (rule : Rule σ) (schema : Schema) (fragments : List Fragment) (p : Progress)
    (op : Operation) : Run σ Progress := do
  match (← rule.score? schema fragments op) with
  | none => return p
  | some score => return p.record rule.limits op.location score

/-- Check a document with this rule alone. -/
def check (rule : Rule σ) (schema : Schema) (doc : Document) : Run σ Progress :=
  doc.operations.foldlM (rule.enter schema doc.fragments) .start

end Rule

end QueryCost
