import QueryCost.Proofs.Overflow

/-!
# Outcomes that no session changes

An estimator may keep a memory. One that is a function of its call makes no use of it, and then nothing
that is computed from its answers depends on the session either: a field above given children has one
price, selections have one score, and an operation ends in one way. `Run.Decides` says which way that is,
so that statements about two checks of one document can compare plain results.
-/
namespace QueryCost

variable {σ α β : Type}

namespace Run

/-- From every session the run ends in this way; what it leaves behind is not said. -/
def Decides (run : Run σ α) (e : Except Fault α) : Prop :=
  ∀ s, (run.exec s).1 = e

namespace Decides

theorem exec_eq {run : Run σ α} {e : Except Fault α} (decided : run.Decides e) (s : Session σ) :
    ∃ after, run.exec s = (e, after) :=
  ⟨_, exec_of_outcome (decided s)⟩

theorem eq_of_exec {run : Run σ α} {e ended : Except Fault α} (decided : run.Decides e)
    {s after : Session σ} (ends : run.exec s = (ended, after)) : ended = e := by
  rw [← decided s, ends]

theorem returns {run : Run σ α} {a : α} (decided : run.Decides (.ok a)) : run.Returns a :=
  decided.exec_eq

theorem of_returns {run : Run σ α} {a : α} (returned : run.Returns a) : run.Decides (.ok a) := by
  intro s
  obtain ⟨after, ok⟩ := returned s
  rw [ok]

theorem pure (a : α) : (Pure.pure a : Run σ α).Decides (.ok a) := fun _ => rfl

theorem ofExcept (e : Except Fault α) : (Run.ofExcept e : Run σ α).Decides e := by
  intro s
  rw [exec_ofExcept]

theorem note (notice : Notice) : (Run.note notice : Run σ Unit).Decides (.ok ()) :=
  of_returns (.note notice)

theorem noteAll (notices : List Notice) : (Run.noteAll notices : Run σ Unit).Decides (.ok ()) :=
  of_returns (.noteAll notices)

/-- The second step has to be decided only for the result that the first one has. -/
theorem bind {x : Run σ α} {f : α → Run σ β} {e : Except Fault α} {g : α → Except Fault β}
    (first : x.Decides e) (rest : ∀ a, e = .ok a → (f a).Decides (g a)) :
    (x >>= f).Decides (e >>= g) := by
  intro s
  obtain ⟨between, ended⟩ := first.exec_eq s
  cases e with
  | error fault =>
    rw [exec_bind_error f ended]
    rfl
  | ok a =>
    rw [exec_bind_ok f ended]
    exact rest a rfl between

theorem bind_ok {x : Run σ α} {f : α → Run σ β} {a : α} {e : Except Fault β}
    (first : x.Decides (.ok a)) (second : (f a).Decides e) : (x >>= f).Decides e :=
  first.bind (g := fun _ => e) fun _ same => Except.ok.inj same ▸ second

theorem bind_error {x : Run σ α} {fault : Fault} (f : α → Run σ β)
    (first : x.Decides (.error fault)) : (x >>= f).Decides (.error fault) :=
  first.bind (g := fun _ => .error fault) fun _ impossible => by cases impossible

end Decides

/-- There is one way in which the run ends. -/
def Steady (run : Run σ α) : Prop := ∃ e, run.Decides e

namespace Steady

theorem pure (a : α) : (Pure.pure a : Run σ α).Steady := ⟨_, .pure a⟩

theorem ofExcept (e : Except Fault α) : (Run.ofExcept e : Run σ α).Steady := ⟨e, .ofExcept e⟩

theorem note (notice : Notice) : (Run.note notice : Run σ Unit).Steady := ⟨_, .note notice⟩

theorem noteAll (notices : List Notice) : (Run.noteAll notices : Run σ Unit).Steady :=
  ⟨_, .noteAll notices⟩

theorem bind {x : Run σ α} {f : α → Run σ β} (first : x.Steady) (rest : ∀ a, (f a).Steady) :
    (x >>= f).Steady := by
  obtain ⟨e, decided⟩ := first
  choose g next using rest
  exact ⟨e >>= g, decided.bind fun a _ => next a⟩

end Steady

end Run

/-- The estimator always answers, and to the same call with the same reply. -/
def Estimate.Functional (estimate : Estimate σ) : Prop :=
  ∀ call, ∃ reply, (estimate call).Returns reply

section Prices

variable {chain : List (Estimate σ)}

theorem consult_steady (functional : ∀ estimate ∈ chain, estimate.Functional) (call : Call) :
    (consult chain call).Steady := by
  induction chain generalizing call with
  | nil => exact .pure none
  | cons estimate rest ih =>
    rw [List.forall_mem_cons] at functional
    obtain ⟨reply, returned⟩ := functional.1 call
    unfold consult
    refine .bind ⟨_, .of_returns returned⟩ fun reply => .bind (.ofExcept _) fun found => ?_
    cases found with
    | none => exact ih functional.2 _
    | some cost => exact .pure _

theorem Site.price_steady (functional : ∀ estimate ∈ chain, estimate.Functional) (site : Site)
    (child : Number) : (site.price chain child).Steady := by
  refine .bind (consult_steady functional _) fun found => ?_
  cases found with
  | none => exact .ofExcept _
  | some cost => exact .pure cost

namespace Visit

mutual

theorem price_steady (functional : ∀ estimate ∈ chain, estimate.Functional) : ∀ v : Visit,
    (v.price chain).Steady
  | .excluded notices => by
    unfold price
    exact .bind (.noteAll notices) fun _ => .pure _
  | .unresolved notices => by
    unfold price
    exact .bind (.noteAll notices) fun _ => .pure _
  | .unexpanded notices => by
    unfold price
    exact .bind (.noteAll notices) fun _ => .pure _
  | .field notices site below => by
    unfold price
    refine .bind (.noteAll notices) fun _ => ?_
    refine .bind (priceAll_steady functional below (.int 0)) fun child => ?_
    exact .bind (site.price_steady functional child) fun cost => .pure _
  | .group notices below => by
    unfold price
    refine .bind (.noteAll notices) fun _ => ?_
    exact .bind (priceAll_steady functional below (.int 0)) fun cost => .pure _

theorem priceAll_steady (functional : ∀ estimate ∈ chain, estimate.Functional) :
    ∀ (visits : List Visit) (total : Number), (priceAll chain total visits).Steady
  | [], total => by
    unfold priceAll
    exact .pure total
  | v :: rest, total => by
    unfold priceAll
    refine .bind (price_steady functional v) fun added => ?_
    cases added with
    | none => exact priceAll_steady functional rest total
    | some cost => exact .bind (.ofExcept _) fun total => priceAll_steady functional rest total

end

end Visit

end Prices

namespace Rule

variable {rule : Rule σ} {schema : Schema} {fragments : List Fragment}

theorem score?_steady (functional : ∀ estimate ∈ rule.chain, estimate.Functional) (op : Operation) :
    (rule.score? schema fragments op).Steady := by
  cases rooted : (rule.schema.getD schema).root? op.kind with
  | none =>
    rw [score?_of_rootless op rooted]
    exact .pure none
  | some root =>
    rw [score?_of_root op rooted]
    refine .bind ⟨_, .of_returns (variablesFor_returns _ _ _)⟩ fun vars => ?_
    refine .bind (.bind (Visit.priceAll_steady functional _ _) fun cost => .pure _) fun score => ?_
    exact .bind (.note _) fun _ => .pure _

theorem scored_steady (functional : ∀ estimate ∈ rule.chain, estimate.Functional)
    (ops : List Operation) : (rule.scored schema fragments ops).Steady := by
  induction ops with
  | nil => exact .pure []
  | cons op rest ih =>
    refine .bind (score?_steady functional op) fun score? => .bind ih fun others => ?_
    cases score? with
    | none => exact .pure _
    | some score => exact .pure _

/-- With estimators that always answer, pricing has no fault but an overflow. -/
theorem Faulty.overflow_of_functional {op : Operation} {fault : Fault}
    (functional : ∀ estimate ∈ rule.chain, estimate.Functional)
    (faulty : rule.Faulty schema fragments fault op) : fault = .overflow := by
  refine faulty.overflow_of_prices fun root _ f _ child => ?_
  refine Site.price_ensures Number.closed_all.toSumClosed trivial fun estimate member call _ => ?_
  obtain ⟨reply, returned⟩ := functional estimate member call
  exact .returns returned fun _ _ _ => trivial

end Rule

end QueryCost
