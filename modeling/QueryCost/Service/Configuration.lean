import QueryCost.Document.Parser.TypeSystem
import QueryCost.Policy
import QueryCost.Validity.Report

/-!
# Configurations

Each part of a configuration is either given or left open. What is left open comes from the settings
of the site, where these are used and say something, and else from fixed defaults.

Services read a configuration when they check something. Estimators that are given as a stream are gone
after the first reading, so a configuration is followed from one reading to the next.
-/
namespace QueryCost

variable {σ : Type}

/-- What services stand on: how texts are read and validated, and how a callable that a schema declares
is run. -/
structure Host (σ : Type) where
  parse : String → Option Document
  report : Schema → (doc : Document) → Report doc
  call : Formula → Estimate σ

namespace Host

/-- The estimators used where none are configured (`default_estimators`): declared costs, then one per
field. -/
def defaults (host : Host σ) : List (Estimate σ) :=
  [Estimate.declared host.call, Estimate.flat (.int 1)]

/-- Standard parsing and validation, with a limit to the nesting of documents if there is one. Formulas
are run as they say. -/
def standard (nesting : Option Nat) : Host Memory where
  parse := Document.parse? nesting
  report := fun schema doc => doc.report schema
  call := Formula.apply fun _ => throw .endless

theorem defaults_standard (nesting : Option Nat) :
    (standard nesting).defaults = Formula.defaults.map Formula.estimate := rfl

end Host

structure Configuration (σ : Type) where
  estimators : Option (ChainSetting σ)
  maximum : Option Value
  nodes : Option Value

/-- The parts of a configuration. -/
inductive Part where
  | estimators
  | maximum
  | nodes
  deriving DecidableEq, Repr

/-- Limits that a site sets for all its schemas (`GetDefaultsMixin`). -/
structure Settings where
  maximum : Option Value
  nodes : Option Value

namespace Settings

def empty : Settings := ⟨none, none⟩

end Settings

namespace Configuration

/-- Everything left open. -/
def blank : Configuration σ := ⟨none, none, none⟩

/-- Give the parts that another configuration gives, and keep the rest. -/
def override (c given : Configuration σ) : Configuration σ :=
  ⟨given.estimators.or c.estimators, given.maximum.or c.maximum, given.nodes.or c.nodes⟩

/-- Leave a part open. -/
def clear (c : Configuration σ) : Part → Configuration σ
  | .estimators => { c with estimators := none }
  | .maximum => { c with maximum := none }
  | .nodes => { c with nodes := none }

def chain (host : Host σ) (c : Configuration σ) : Except Fault (List (Estimate σ)) :=
  match c.estimators with
  | none => .ok host.defaults
  | some setting => setting.members

def maximumIn (c : Configuration σ) (settings : Settings) : Value :=
  c.maximum.getD (settings.maximum.getD Limits.defaultMaximum)

def nodesIn (c : Configuration σ) (settings : Settings) : Value :=
  c.nodes.getD (settings.nodes.getD Limits.defaultNodes)

/-- The configuration after its estimators were read. -/
def spent (c : Configuration σ) : Configuration σ :=
  { c with estimators := c.estimators.map (·.spent) }

/-- Read and check a configuration under the settings of a site. -/
def policy (host : Host σ) (c : Configuration σ) (settings : Settings) :
    Except SetupError (Policy σ) := do
  let chain ← (c.chain host).mapError .fault
  Policy.make (.sequence chain) (c.maximumIn settings) (c.nodesIn settings)

/-- Check a document by the cost rule that reads a configuration for itself, with the variables of a
request. -/
def check (host : Host σ) (c : Configuration σ) (settings : Settings) (schema : Schema)
    (doc : Document) (vars : Entries) : Run σ (Except SetupError Progress) :=
  match c.policy host settings with
  | .error e => return .error e
  | .ok policy => do
    return (← ((policy.rule none vars).check schema doc).attempt).mapError .fault

end Configuration

end QueryCost
