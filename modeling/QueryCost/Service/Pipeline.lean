import QueryCost.Pass
import QueryCost.Service.Endpoint

/-!
# Pipelines

A pipeline runs extensions around each request. Extensions that validate costs add a rule each, and
all rules go through the document in one pass with standard validation.
-/
namespace QueryCost

variable {σ : Type}

/-- A configured validator of costs (`QueryComplexityValidator`). -/
structure Validator (σ : Type) where
  policy : Policy σ
  /-- Whether the cost of an accepted document is passed on. -/
  notifies : Bool

namespace Validator

/-- A validator from what is given for it, which is read once. What is left open has fixed defaults. -/
def configure (host : Host σ) (c : Configuration σ) (notifies : Bool) :
    Except SetupError (Validator σ) := do
  let estimators := c.estimators.getD (.sequence host.defaults)
  let maximum := c.maximum.getD Limits.defaultMaximum
  let nodes := c.nodes.getD Limits.defaultNodes
  let chain ← estimators.members.mapError .fault
  return ⟨⟨chain, ← Limits.make maximum chain.length nodes⟩, notifies⟩

/-- A validator for a site, whose settings are looked up before it is configured. -/
def make (host : Host σ) (c : Configuration σ) (settings : Settings) (notifies : Bool) :
    Except SetupError (Validator σ) :=
  configure host ⟨c.estimators, some (c.maximumIn settings), some (c.nodesIn settings)⟩ notifies

/-- A new validator from the parts of this one. -/
def copy (host : Host σ) (v : Validator σ) : Except SetupError (Validator σ) :=
  configure host ⟨some (.sequence v.policy.chain), some (.num v.policy.limits.maximum),
    some (.int v.policy.limits.nodes)⟩ v.notifies

/-- The rule for a request with variables. The parts of the validator are checked again for it. -/
def rule (v : Validator σ) (vars : Entries) : Except SetupError (Rule σ) := do
  let policy ← Policy.make (.sequence v.policy.chain) (.num v.policy.limits.maximum)
    (.int v.policy.limits.nodes)
  return policy.rule none vars

end Validator

inductive Extension (σ : Type) where
  /-- Makes a validator with nothing configured for each request. -/
  | fresh
  /-- Makes a copy of a configured validator for each request. -/
  | copied (v : Validator σ)
  /-- A configured validator, used for every request. -/
  | shared (v : Validator σ)
  | unrelated

namespace Extension

def isValidator : Extension σ → Bool
  | unrelated => false
  | _ => true

/-- The validator that a request gets. -/
def validator? (host : Host σ) : Extension σ → Option (Validator σ)
  | fresh => (Validator.configure host .blank false).toOption
  | copied v => (v.copy host).toOption
  | shared v => some v
  | unrelated => none

/-- The validator that was configured. -/
def configured? : Extension σ → Option (Validator σ)
  | copied v => some v
  | shared v => some v
  | _ => none

end Extension

structure Pipeline (σ : Type) where
  schema : Schema
  extensions : List (Extension σ)
  /-- What the pipeline's own validator was configured with. -/
  configuration : Configuration σ

namespace Pipeline

/-- A pipeline with a validator of its own in front, unless an extension is one already. -/
def make (host : Host σ) (schema : Schema) (extensions : List (Extension σ)) (c : Configuration σ)
    (settings : Settings) : Except SetupError (Pipeline σ) := do
  if extensions.any (·.isValidator) then return ⟨schema, extensions, .blank⟩
  else
    let own ← Validator.make host c settings false
    return ⟨schema, .copied own :: extensions, c⟩

/-- The validators that a request gets, in order. -/
def validators (host : Host σ) (p : Pipeline σ) : List (Validator σ) :=
  p.extensions.filterMap (·.validator? host)

/-- The first validator that was configured (`get_complexity_validator`). -/
def configured? (p : Pipeline σ) : Option (Validator σ) := p.extensions.findSome? (·.configured?)

/-- What the pipeline says about a request. -/
structure Answer where
  objections : List Objection
  /-- Costs that were passed on. -/
  completed : List Number

/-- Validate a request. -/
def handle (host : Host σ) (p : Pipeline σ) (text : String) (vars : Entries) : Run σ Answer :=
  match host.parse text with
  | none => return ⟨[.malformed], []⟩
  | some doc => do
    let validators := p.validators host
    let rules := validators.filterMap fun v => (v.rule vars).toOption
    let outcome ← Pass.run p.schema (host.report p.schema doc) rules
    let notified := (validators.zip outcome.completed).filterMap fun (v, cost) =>
      if v.notifies then cost else none
    return ⟨outcome.violations.map .excess, notified⟩

end Pipeline

end QueryCost
