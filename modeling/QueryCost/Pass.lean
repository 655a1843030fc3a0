import QueryCost.Rule
import QueryCost.Validity.Report

/-!
# Validation passes

Standard validation and any number of cost rules go through a document together. What standard
validation finds is given by a report. On entering an operation its flaws are counted first, then the
rules look at it one after the other. A pass gives up at the first error beyond a fixed number, and then
completes no rule.
-/
namespace QueryCost

variable {σ : Type}

/-- A rule on its way through a document. -/
structure Runner (σ : Type) where
  rule : Rule σ
  progress : Progress

/-- What a pass has met so far. -/
structure Pass where
  errors : Nat
  flawed : Bool
  aborted : Bool
  /-- Reported violations in order. -/
  violations : List Violation

namespace Pass

/-- Errors that a pass takes in before it gives up. -/
def errorLimit : Nat := 100

def start : Pass := ⟨0, false, false, []⟩

/-- Count flaws. -/
def meet (flaws : List Flaw) (p : Pass) : Pass :=
  let errors := p.errors + flaws.length
  { p with
    errors := errors
    flawed := p.flawed || !flaws.isEmpty
    aborted := p.aborted || errorLimit < errors }

/-- Take in the report of a rule. -/
def report (v : Violation) (p : Pass) : Pass :=
  if errorLimit ≤ p.errors then { p with flawed := true, aborted := true }
  else { p with errors := p.errors + 1, violations := p.violations ++ [v] }

/-- Let rules look at an operation, until the pass gives up. -/
def enterRules (schema : Schema) (fragments : List Fragment) (op : Operation) :
    Pass → List (Runner σ) → Run σ (Pass × List (Runner σ))
  | p, [] => return (p, [])
  | p, runner :: rest => do
    if p.aborted then return (p, runner :: rest)
    let progress ← runner.rule.enter schema fragments runner.progress op
    let p := match runner.progress.violation, progress.violation with
      | none, some v => p.report v
      | _, _ => p
    let (p, rest) ← enterRules schema fragments op p rest
    return (p, { runner with progress := progress } :: rest)

/-- Go through definitions. -/
def throughDefinitions (schema : Schema) (fragments : List Fragment) :
    Pass → List (Runner σ) → List (Definition × DefinitionReport) → Run σ (Pass × List (Runner σ))
  | p, runners, [] => return (p, runners)
  | p, runners, (d, found) :: rest => do
    let p := p.meet found.entering
    if p.aborted then return (p, runners)
    let (p, runners) ← match d with
      | .operation op => enterRules schema fragments op p runners
      | _ => pure (p, runners)
    throughDefinitions schema fragments (p.meet found.inside) runners rest

/-- The result of a pass: the violations, whether there is any other error, and for each rule the cost
it completes the document with. -/
structure Outcome where
  violations : List Violation
  flawed : Bool
  completed : List (Option Number)

/-- Validate a document by cost rules, next to what a report finds in it. -/
def run (schema : Schema) {doc : Document} (found : Report doc) (rules : List (Rule σ)) :
    Run σ Outcome := do
  let runners := rules.map (⟨·, .start⟩)
  let (p, runners) ← throughDefinitions schema doc.fragments (start.meet found.opening) runners
    found.definitions
  let p := if p.aborted then p else p.meet found.closing
  let completed := runners.map fun r => if p.aborted then none else r.progress.completed?
  return ⟨p.violations, p.flawed, completed⟩

end Pass

end QueryCost
