import QueryCost.Schema.Basic
import QueryCost.Session

/-!
# Estimates

An estimator looks at one field with its arguments and the cost of its children, and answers with any
value. In a chain the first answer that is a finite number counts. The estimators of a chain share the
arguments: what one of them makes of these is what the next one finds.
-/
namespace QueryCost

/-- What an estimator is told about the field it prices. Of the selection itself it is told the name;
aliases, directives and what is selected below are not shown. -/
structure Call where
  args : Entries
  child : Value
  field : FieldDef
  name : String
  parent : TypeDef

/-- What an estimator gives back: its answer, and the arguments as it leaves them. -/
structure Reply where
  answer : Value
  args : Entries

namespace Call

/-- The same call with other arguments. -/
def withArgs (call : Call) (args : Entries) : Call := { call with args := args }

@[simp] theorem withArgs_args (call : Call) : call.withArgs call.args = call := rfl

/-- An answer that leaves the arguments as they are. -/
def reply (call : Call) (answer : Value) : Reply := ⟨answer, call.args⟩

@[simp] theorem answer_reply (call : Call) (v : Value) : (call.reply v).answer = v := rfl

@[simp] theorem args_reply (call : Call) (v : Value) : (call.reply v).args = call.args := rfl

end Call

abbrev Estimate (σ : Type) := Call → Run σ Reply

variable {σ : Type}

/-- Ask estimators in order until one answers with a finite number. -/
def consult : List (Estimate σ) → Call → Run σ (Option Number)
  | [], _ => return none
  | estimate :: rest, call => do
    let reply ← estimate call
    match (← Run.ofExcept reply.answer.finite?) with
    | some cost => return some cost
    | none => consult rest (call.withArgs reply.args)

/-- The answer of a chain (`run_estimators`); one plus the children if every estimator declines. -/
def answer (chain : List (Estimate σ)) (call : Call) : Run σ Value := do
  match (← consult chain call) with
  | some cost => return .num cost
  | none => Run.ofExcept ((Value.int 1).add call.child)

namespace Estimate

/-- An estimator that only looks at the arguments. -/
def reading (answer : Call → Run σ Value) : Estimate σ := fun call => do
  return call.reply (← answer call)

/-- The same answer for every field. -/
def constant (answer : Value) : Estimate σ := reading fun _ => return answer

/-- A fixed base plus the children (`simple_estimator`). -/
def flat (base : Value) : Estimate σ := reading fun call =>
  Run.ofExcept (base.add call.child)

end Estimate

end QueryCost
