import QueryCost.Pass
import QueryCost.Policy

/-!
# Assessment of documents

The cost of a document outside of an execution. The document is validated, and its cost is returned
only if it has no flaw and keeps the node limit.
-/
namespace QueryCost

/-- Why a document has no cost: violations, and whether anything else is wrong. -/
structure Refusal where
  violations : List Violation
  flawed : Bool
  deriving DecidableEq, Repr

namespace Refusal

/-- The text for an invalid document, from the messages of all that is wrong with it. -/
def messageOf (messages : List String) : String :=
  "Query validation failed: " ++ "; ".intercalate messages

/-- The message of a refusal, if all that is wrong are violations. -/
def message? (r : Refusal) : Option String :=
  if r.flawed then none else some (messageOf (r.violations.map (·.excess.message)))

end Refusal

variable {σ : Type}

/-- The cost of a document, in which a report finds flaws, under a rule that prices it. -/
def Rule.assess (rule : Rule σ) (schema : Schema) {doc : Document} (found : Report doc) :
    Run σ (Except Refusal Number) := do
  let outcome ← Pass.run schema found [rule]
  if outcome.violations.isEmpty && !outcome.flawed then
    return .ok ((outcome.completed.head?.bind id).getD (.int 0))
  else return .error ⟨outcome.violations, outcome.flawed⟩

namespace Policy

/-- The largest double: a limit that only prices. -/
def unlimited : Value := .float (.finite false ((Nat.pow 2 53 - 1) * Nat.pow 2 2045))

/-- A policy that limits nodes only. -/
def pricing (estimators : ChainSetting σ) (nodes : Value) : Except SetupError (Policy σ) :=
  make estimators unlimited nodes

/-- The cost of a document under a policy (`get_complexity`). -/
def assess (policy : Policy σ) (schema : Schema) (vars : Entries) {doc : Document}
    (found : Report doc) : Run σ (Except Refusal Number) :=
  (policy.rule (some schema) vars).assess schema found

end Policy

end QueryCost
