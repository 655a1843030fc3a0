import QueryCost.Session

/-!
# Runs from a session

How a run ends when it starts in a session, and the session it leaves. A run is opened by one lemma for
each way to build it; later modules do not look into the monad again.
-/
namespace QueryCost

/-- A result of two steps comes of a result of the first one. -/
theorem except_bind_success {ε α β : Type} {x : Except ε α} {f : α → Except ε β} {b : β}
    (success : x >>= f = .ok b) : ∃ a, x = .ok a ∧ f a = .ok b := by
  cases x with
  | error e => cases success
  | ok a => exact ⟨a, rfl, success⟩

/-- A step whose fault was renamed succeeds as the step itself does. -/
theorem mapError_bind_iff {ε ε' α β : Type} {x : Except ε α} {f : ε → ε'} {next : α → Except ε' β}
    {b : β} : (x.mapError f >>= next) = .ok b ↔ ∃ a, x = .ok a ∧ next a = .ok b := by
  cases x with
  | error e =>
    constructor
    · rintro ⟨⟩
    · rintro ⟨_, ⟨⟩, -⟩
  | ok a =>
    constructor
    · intro success
      exact ⟨a, rfl, success⟩
    · rintro ⟨_, ⟨⟩, success⟩
      exact success

namespace Run

variable {σ α β : Type}

@[ext] theorem ext {x y : Run σ α} (same : ∀ memory, x memory = y memory) : x = y := funext same

instance : LawfulMonad (Run σ) := LawfulMonad.mk' (Run σ)
  (fun x => Run.ext fun memory => by
    rcases ended : x memory with ⟨_ | a, after, notices⟩ <;>
      simp [Functor.map, Run.bind, Run.pure, ended])
  (fun _ _ => rfl)
  (fun x f g => Run.ext fun memory => by
    rcases ended : x memory with ⟨_ | a, after, notices⟩
    · simp [Bind.bind, Run.bind, ended]
    · rcases later : f a after with ⟨_ | b, after', notices'⟩ <;>
        simp [Bind.bind, Run.bind, ended, later])

theorem exec_of_outcome {run : Run σ α} {s : Session σ} {e : Except Fault α}
    (ends : (run.exec s).1 = e) : run.exec s = (e, (run.exec s).2) := by
  rw [← ends]

@[simp] theorem exec_pure (a : α) (s : Session σ) : (pure a : Run σ α).exec s = (.ok a, s) := rfl

theorem exec_pure_success {a b : α} {s after : Session σ}
    (success : (pure a : Run σ α).exec s = (.ok b, after)) : b = a ∧ after = s := by
  cases success
  exact ⟨rfl, rfl⟩

@[simp] theorem exec_ofExcept (e : Except Fault α) (s : Session σ) :
    (ofExcept e : Run σ α).exec s = (e, s) := by
  cases e <;> rfl

@[simp] theorem exec_note (notice : Notice) (s : Session σ) :
    (note notice : Run σ Unit).exec s = (.ok (), ⟨s.memory, s.notices.push notice⟩) := rfl

theorem exec_bind (x : Run σ α) (f : α → Run σ β) (s : Session σ) :
    (x >>= f).exec s = match x.exec s with
      | (.ok a, after) => (f a).exec after
      | (.error fault, after) => (.error fault, after) := by
  rcases ended : x s.memory with ⟨_ | a, after, notices⟩ <;>
    simp [exec, Bind.bind, Run.bind, ended, Session.after]

/-- A step that succeeds hands its result and its session on. -/
theorem exec_bind_ok {x : Run σ α} {s after : Session σ} {a : α} (f : α → Run σ β)
    (ok : x.exec s = (.ok a, after)) : (x >>= f).exec s = (f a).exec after := by
  rw [exec_bind, ok]

/-- A fault ends the run; the session stays as it was left. -/
theorem exec_bind_error {x : Run σ α} {s after : Session σ} {fault : Fault} (f : α → Run σ β)
    (failed : x.exec s = (.error fault, after)) : (x >>= f).exec s = (.error fault, after) := by
  rw [exec_bind, failed]

/-- A run that succeeds went through a first step that did. -/
theorem exec_bind_success {x : Run σ α} {f : α → Run σ β} {s after : Session σ} {b : β}
    (success : (x >>= f).exec s = (.ok b, after)) :
    ∃ a between, x.exec s = (.ok a, between) ∧ (f a).exec between = (.ok b, after) := by
  rw [exec_bind] at success
  rcases first : x.exec s with ⟨_ | a, between⟩
  · rw [first] at success
    cases success
  · rw [first] at success
    exact ⟨a, between, rfl, success⟩

/-- A run that fails does so in its first step or after it. -/
theorem exec_bind_failure {x : Run σ α} {f : α → Run σ β} {s after : Session σ} {fault : Fault}
    (failed : (x >>= f).exec s = (.error fault, after)) :
    x.exec s = (.error fault, after) ∨
    ∃ a between, x.exec s = (.ok a, between) ∧ (f a).exec between = (.error fault, after) := by
  rw [exec_bind] at failed
  rcases first : x.exec s with ⟨e | a, between⟩
  · rw [first] at failed
    cases failed
    exact Or.inl rfl
  · rw [first] at failed
    exact Or.inr ⟨a, between, rfl, failed⟩

/-- Two runs go the same way if they start with the same step and go on alike from its result. -/
theorem exec_bind_congr {x y : Run σ α} {f g : α → Run σ β} {s : Session σ}
    (first : x.exec s = y.exec s)
    (rest : ∀ a after, y.exec s = (.ok a, after) → (f a).exec after = (g a).exec after) :
    (x >>= f).exec s = (y >>= g).exec s := by
  rw [exec_bind, exec_bind, first]
  rcases ended : y.exec s with ⟨fault | a, after⟩
  · rfl
  · exact rest a after ended

/-- A last step that only builds a result is applied to the outcome. -/
theorem exec_return (x : Run σ α) (f : α → β) (s : Session σ) :
    (do return f (← x) : Run σ β).exec s = ((x.exec s).1.map f, (x.exec s).2) := by
  rw [exec_bind]
  rcases x.exec s with ⟨fault | a, after⟩ <;> rfl

/-- A last step that only builds a result does not fail. -/
theorem exec_map_failure {x : Run σ α} {f : α → β} {s after : Session σ} {fault : Fault}
    (failed : (x >>= fun a => pure (f a)).exec s = (.error fault, after)) :
    x.exec s = (.error fault, after) := by
  rcases exec_bind_failure failed with first | ⟨a, between, _, late⟩
  · exact first
  · cases late

theorem exec_ofExcept_success {e : Except Fault α} {a : α} {s after : Session σ}
    (success : (ofExcept e : Run σ α).exec s = (.ok a, after)) : e = .ok a ∧ after = s := by
  rw [exec_ofExcept] at success
  cases success
  exact ⟨rfl, rfl⟩

/-- Notices never fail and do not touch the memory. -/
theorem exec_noteAll (notices : List Notice) (s : Session σ) :
    (noteAll notices : Run σ Unit).exec s =
      (.ok (), ⟨s.memory, s.notices ++ notices.toArray⟩) := by
  simp [exec, noteAll, Session.after]

theorem noteAll_append (first second : List Notice) :
    (noteAll (first ++ second) : Run σ Unit) = (do
      noteAll first
      noteAll second) := rfl

/-- A run on the first part of a memory. The second part is made anew from how the run ended. -/
def onFirst {τ : Type} (run : Run σ α) (update : Except Fault α → τ → τ) : Run (σ × τ) α := fun memory =>
  let ended := run memory.1
  ⟨ended.outcome, (ended.memory, update ended.outcome memory.2), ended.notices⟩

/-- The run succeeds with `a` from every session. -/
def Returns (run : Run σ α) (a : α) : Prop :=
  ∀ s, ∃ after, run.exec s = (.ok a, after)

theorem Returns.unique {run : Run σ α} {a b : α} {s after : Session σ} (returned : run.Returns a)
    (success : run.exec s = (.ok b, after)) : b = a := by
  obtain ⟨_, ok⟩ := returned s
  rw [ok] at success
  cases success
  rfl

theorem Returns.not_failed {run : Run σ α} {a : α} {s after : Session σ} {fault : Fault}
    (returned : run.Returns a) : run.exec s ≠ (.error fault, after) := by
  intro failed
  obtain ⟨_, ok⟩ := returned s
  rw [ok] at failed
  cases failed

theorem Returns.pure (a : α) : (Pure.pure a : Run σ α).Returns a :=
  fun s => ⟨s, rfl⟩

theorem Returns.ofExcept {e : Except Fault α} {a : α} (ok : e = .ok a) :
    (Run.ofExcept e : Run σ α).Returns a :=
  fun s => ⟨s, by rw [exec_ofExcept, ok]⟩

theorem Returns.note (notice : Notice) : (Run.note notice : Run σ Unit).Returns () :=
  fun s => ⟨_, exec_note notice s⟩

theorem Returns.noteAll (notices : List Notice) : (Run.noteAll notices : Run σ Unit).Returns () :=
  fun s => ⟨_, exec_noteAll notices s⟩

theorem Returns.bind {x : Run σ α} {f : α → Run σ β} {a : α} {b : β} (first : x.Returns a)
    (second : (f a).Returns b) : (x >>= f).Returns b := by
  intro s
  obtain ⟨between, ok⟩ := first s
  obtain ⟨after, done⟩ := second between
  exact ⟨after, by rw [exec_bind_ok f ok, done]⟩

end Run

end QueryCost
