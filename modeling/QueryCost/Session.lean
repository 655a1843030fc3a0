import QueryCost.Value.Basic

/-!
# Runs and sessions

Estimators may keep a memory, and everything that is worth a notice is written down. Both survive a
fault: a run ends with a result or a fault, and in either case with the memory as it was left and the
notices that were given. A run reads and writes the memory; it cannot see the notices.

A session is the memory with the notices of all that went before.
-/
namespace QueryCost

inductive Notice where
  /-- The variables of an operation do not fit; they are used as sent. -/
  | rawVariables
  /-- A directive is ignored because its argument does not fit. -/
  | directive (name : String)
  /-- The arguments of a field do not fit; it is priced without any. -/
  | arguments (field : String)
  /-- A multiplier is not a finite number; it counts as one. -/
  | multiplier (name : Value) (field : String)
  | operation (name : Option String) (cost : Number) (nodes : Nat)

/-- How a run ended. -/
structure Ended (σ α : Type) where
  outcome : Except Fault α
  memory : σ
  notices : List Notice

/-- What is done with a memory to start from. -/
def Run (σ α : Type) : Type := σ → Ended σ α

namespace Run

variable {σ α β : Type}

protected def pure (a : α) : Run σ α := fun memory => ⟨.ok a, memory, []⟩

/-- The second step starts with the memory that the first one leaves. -/
protected def bind (x : Run σ α) (f : α → Run σ β) : Run σ β := fun memory =>
  match x memory with
  | ⟨.error fault, after, notices⟩ => ⟨.error fault, after, notices⟩
  | ⟨.ok a, between, notices⟩ =>
    let rest := f a between
    ⟨rest.outcome, rest.memory, notices ++ rest.notices⟩

instance : Monad (Run σ) where
  pure := Run.pure
  bind := Run.bind

/-- End with what the run ends with, be it a fault. -/
def attempt (x : Run σ α) : Run σ (Except Fault α) := fun memory =>
  let ended := x memory
  ⟨.ok ended.outcome, ended.memory, ended.notices⟩

def fail (fault : Fault) : Run σ α := fun memory => ⟨.error fault, memory, []⟩

instance : MonadExcept Fault (Run σ) where
  throw := fail
  tryCatch x handle := do
    match (← attempt x) with
    | .ok a => return a
    | .error fault => handle fault

/-- The state of a run is its memory. -/
instance : MonadStateOf σ (Run σ) where
  get := fun memory => ⟨.ok memory, memory, []⟩
  set memory := fun _ => ⟨.ok (), memory, []⟩
  modifyGet f := fun memory => ⟨.ok (f memory).1, (f memory).2, []⟩

def note (notice : Notice) : Run σ Unit := fun memory => ⟨.ok (), memory, [notice]⟩

def noteAll (notices : List Notice) : Run σ Unit := fun memory => ⟨.ok (), memory, notices⟩

def ofExcept : Except Fault α → Run σ α
  | .ok a => pure a
  | .error fault => throw fault

end Run

structure Session (σ : Type) where
  memory : σ
  notices : Array Notice

variable {σ α : Type}

/-- The session after a run that left a memory and gave notices. -/
def Session.after (session : Session σ) (memory : σ) (notices : List Notice) : Session σ :=
  ⟨memory, notices.foldl Array.push session.notices⟩

/-- How a run ends from a session, and the session that it leaves in either case. -/
def Run.exec (run : Run σ α) (session : Session σ) : Except Fault α × Session σ :=
  let ended := run session.memory
  (ended.outcome, session.after ended.memory ended.notices)

end QueryCost
