import QueryCost.Estimate.Formula
import QueryCost.Rule

/-!
# Policies

A policy is a checked configuration: the estimators to price by and the limits to keep.
-/
namespace QueryCost

variable {σ : Type}

/-- How a chain of estimators is configured. -/
inductive ChainSetting (σ : Type) where
  /-- Estimators that can be read any number of times. -/
  | sequence (chain : List (Estimate σ))
  /-- Estimators that can be read once: reading uses them up. -/
  | stream (chain : List (Estimate σ))
  /-- A value without members. -/
  | other (v : Value)

namespace ChainSetting

/-- A value as a setting. The members of texts and mappings cannot be called. -/
def ofValue : Value → ChainSetting Memory
  | .str text => sequence (text.toList.map fun _ => Formula.inert.estimate)
  | .list items => sequence (items.map fun
    | .callable formula => formula.estimate
    | _ => Formula.inert.estimate)
  | .map entries => sequence (entries.map fun _ => Formula.inert.estimate)
  | v => other v

/-- Whether a setting counts as none. What a stream holds is not known before it is read. -/
def isEmpty : ChainSetting σ → Bool
  | sequence chain => chain.isEmpty
  | stream _ => false
  | other v => !v.truthy

/-- What a reader of the setting gets. -/
def members : ChainSetting σ → Except Fault (List (Estimate σ))
  | sequence chain => .ok chain
  | stream chain => .ok chain
  | other _ => .error .typeMismatch

/-- What a reader gets who takes an empty setting for no estimators. -/
def membersIfAny (setting : ChainSetting σ) : Except Fault (List (Estimate σ)) :=
  if setting.isEmpty then .ok [] else setting.members

/-- The setting after it was read. -/
def spent : ChainSetting σ → ChainSetting σ
  | sequence chain => sequence chain
  | stream _ => stream []
  | other v => other v

end ChainSetting

structure Policy (σ : Type) where
  chain : List (Estimate σ)
  limits : Limits

namespace Policy

/-- Read and check a configuration (`create_query_complexity_validator`). -/
def make (estimators : ChainSetting σ) (maximum nodes : Value) : Except SetupError (Policy σ) := do
  let chain ← estimators.membersIfAny.mapError .fault
  return ⟨chain, ← Limits.make maximum chain.length nodes⟩

def rule (policy : Policy σ) (schema : Option Schema) (vars : Entries) : Rule σ :=
  ⟨policy.chain, policy.limits, schema, vars⟩

end Policy

/-- A session in which nothing has happened. -/
def Session.fresh : Session Memory := ⟨.empty, #[]⟩

/-- Keep what estimators need to know later, and forget records and notices. -/
def Session.next (session : Session Memory) : Session Memory :=
  ⟨{ session.memory with records := #[] }, #[]⟩

end QueryCost
