import QueryCost.Proofs.Declining

/-!
# What can happen while prices are computed

While visits are priced, estimators are asked and costs are added to totals. Nothing else can fail, so a fault
has its cause among these events (`Visit.priceAll_explained`): an estimator failed, or an integer beyond the
range of doubles was an answer or was added to a double. Such an event also ends the run
(`Visit.priceAll_breaks`). Estimators that answer with integers in range give integers as totals, however large
(`Visit.priceAll_plain`).
-/
namespace QueryCost

variable {σ : Type}

open Number (InRange)

/-- Something that happens while visits are priced and that may fail: an estimator is asked and ends in some
way, or a cost is added to a total. -/
inductive Event where
  | reply (outcome : Except Fault Value)
  | sum (total cost : Number)

namespace Event

/-- The integer that has to be a double: an answer, to be asked whether it is finite, or what is added to a
double. -/
def Converts : Event → Int → Prop
  | .reply (.ok (.num (.int m))), n => m = n
  | .sum (.int m) (.float _), n => m = n
  | .sum (.float _) (.int m), n => m = n
  | _, _ => False

/-- The event converts an integer beyond the range of doubles. -/
def Breaks (e : Event) : Prop := ∃ n, e.Converts n ∧ ¬ InRange n

/-- No estimator fails, and what counts of their answers is an integer in the range of doubles. -/
def IsPlain : Event → Prop
  | .reply (.ok v) => v.IsFiniteNumber → ∃ n, v = .num (.int n) ∧ InRange n
  | .reply (.error _) => False
  | .sum _ _ => True

/-- A fault has its cause among the events of a run. -/
def Explain (events : Event → Prop) (fault : Fault) : Prop :=
  events (.reply (.error fault)) ∨ fault = .overflow ∧ ∃ e, events e ∧ e.Breaks

theorem Explain.mono {events more : Event → Prop} {fault : Fault} (explained : Explain events fault)
    (subset : ∀ e, events e → more e) : Explain more fault := by
  rcases explained with failed | ⟨overflow, e, happened, breaks⟩
  · exact .inl (subset _ failed)
  · exact .inr ⟨overflow, e, subset e happened, breaks⟩

end Event

open Event (Explain)

/-- Converting an integer fails exactly beyond the range of doubles. -/
theorem Number.convert_eq_error_iff {α : Type} {n : Int} {f : Binary64 → Except Fault α} {fault : Fault}
    (total : ∀ x, ∃ a, f x = .ok a) :
    (int n).toBinary64 >>= f = .error fault ↔ fault = .overflow ∧ ¬ InRange n := by
  simp only [InRange, isFinite, toBinary64]
  cases Binary64.ofInt? n with
  | none =>
    constructor
    · intro failed
      exact ⟨(Except.error.inj failed).symm, by rintro ⟨⟩⟩
    · rintro ⟨rfl, -⟩
      rfl
  | some x =>
    obtain ⟨a, result⟩ := total x
    constructor
    · intro failed
      cases result.symm.trans failed
    · rintro ⟨-, beyond⟩
      exact absurd rfl beyond

/-- A sum fails exactly if it has to convert an integer beyond the range of doubles. -/
theorem Number.add_eq_error_iff {a b : Number} {fault : Fault} :
    a.add b = .error fault ↔ fault = .overflow ∧ (Event.sum a b).Breaks := by
  cases a with
  | int m =>
    cases b with
    | int n =>
      constructor
      · rintro ⟨⟩
      · rintro ⟨-, _, converts, -⟩
        exact converts.elim
    | float y =>
      have mixed : ∀ k l, int m = int k → float y = int l → False := by rintro k l - ⟨⟩
      rw [add_of_mixed mixed]
      refine (convert_eq_error_iff fun x => ⟨float (x.add y), rfl⟩).trans ?_
      simp only [Event.Breaks, Event.Converts, exists_eq_left']
  | float x =>
    cases b with
    | int n =>
      have converted : ∀ g : Binary64 → Except Fault Number, (float x).toBinary64 >>= g = g x :=
        fun _ => rfl
      have mixed : ∀ k l, float x = int k → int n = int l → False := by rintro k l ⟨⟩
      rw [add_of_mixed mixed, converted]
      refine (convert_eq_error_iff fun y => ⟨float (x.add y), rfl⟩).trans ?_
      simp only [Event.Breaks, Event.Converts, exists_eq_left']
    | float y =>
      constructor
      · rintro ⟨⟩
      · rintro ⟨-, _, converts, -⟩
        exact converts.elim

/-- An answer can be asked whether it is a finite number, unless it is an integer beyond the range of
doubles. -/
theorem Value.finite?_eq_error_iff {v : Value} {fault : Fault} :
    v.finite? = .error fault ↔ fault = .overflow ∧ (Event.reply (.ok v)).Breaks := by
  constructor
  · intro failed
    have overflow := v.finite?_outcome
    rw [failed] at overflow
    refine ⟨overflow, ?_⟩
    cases v with
    | num x =>
      cases x with
      | int n =>
        refine ⟨n, rfl, fun range => ?_⟩
        rw [finite?_int range] at failed
        cases failed
      | float x => cases failed
    | _ => cases failed
  · rintro ⟨rfl, n, converts, beyond⟩
    cases v with
    | num x =>
      cases x with
      | int m =>
        obtain rfl : m = n := converts
        exact finite?_large beyond
      | float x => exact converts.elim
    | _ => exact converts.elim

/-- One more than the children is always defined. -/
theorem Number.one_add (child : Number) : ∃ sum, (int 1).add child = .ok sum := by
  cases sum : (int 1).add child with
  | ok x => exact ⟨x, rfl⟩
  | error fault =>
    obtain ⟨-, n, converts, beyond⟩ := add_eq_error_iff.mp sum
    cases child with
    | int m => exact converts.elim
    | float x =>
      obtain rfl : 1 = n := converts
      exact absurd (by decide +kernel) beyond

/-- What happens when a chain is asked: each estimator ends in some way, and the next one is asked only after
an answer that is no finite number, with the arguments as they were left. -/
def Asked : Call → List (Estimate σ) → Session σ → Event → Prop
  | _, [], _, _ => False
  | call, estimate :: rest, s, e =>
    e = .reply (((estimate call).exec s).1.map (·.answer)) ∨
    ∃ reply after, (estimate call).exec s = (.ok reply, after) ∧ reply.answer.finite? = .ok none ∧
      Asked (call.withArgs reply.args) rest after e

section Chain

variable {chain : List (Estimate σ)} {call : Call}

theorem consult_explained {s after : Session σ} {fault : Fault}
    (failed : (consult chain call).exec s = (.error fault, after)) :
    Explain (Asked call chain s) fault := by
  induction chain generalizing call s with
  | nil => cases failed
  | cons estimate rest ih =>
    rw [consult] at failed
    rcases Run.exec_bind_failure failed with raised | ⟨reply, between, answered, failed⟩
    · exact .inl (.inl (by rw [raised]; rfl))
    rw [Run.exec_bind, Run.exec_ofExcept] at failed
    cases finite : reply.answer.finite? with
    | error fault' =>
      rw [finite] at failed
      cases failed
      obtain ⟨overflow, breaks⟩ := Value.finite?_eq_error_iff.mp finite
      exact .inr ⟨overflow, _, .inl (by rw [answered]; rfl), breaks⟩
    | ok found =>
      rw [finite] at failed
      cases found with
      | some x => cases failed
      | none => exact (ih failed).mono fun e asked => .inr ⟨reply, between, answered, finite, asked⟩

theorem consult_breaks {s : Session σ} {e : Event} (asked : Asked call chain s e) (breaks : e.Breaks) :
    ∃ after, (consult chain call).exec s = (.error .overflow, after) := by
  induction chain generalizing call s with
  | nil => exact asked.elim
  | cons estimate rest ih =>
    rw [consult]
    rcases asked with rfl | ⟨reply, between, answered, declined, asked⟩
    · rcases ended : (estimate call).exec s with ⟨fault | reply, between⟩
      · rw [ended] at breaks
        obtain ⟨_, converts, -⟩ := breaks
        exact converts.elim
      · rw [ended] at breaks
        refine ⟨between, ?_⟩
        rw [Run.exec_bind_ok _ ended, Run.exec_bind, Run.exec_ofExcept,
          Value.finite?_eq_error_iff.mpr ⟨rfl, breaks⟩]
    · obtain ⟨after, failed⟩ := ih asked
      refine ⟨after, ?_⟩
      rw [Run.exec_bind_ok _ answered, Run.exec_bind, Run.exec_ofExcept, declined]
      exact failed

theorem consult_plain {s : Session σ} (plain : ∀ e, Asked call chain s e → e.IsPlain) :
    ∃ found after, (consult chain call).exec s = (.ok found, after) ∧
      ∀ x, found = some x → x.IsInteger := by
  induction chain generalizing call s with
  | nil => exact ⟨none, s, rfl, by rintro x ⟨⟩⟩
  | cons estimate rest ih =>
    rw [consult]
    rcases ended : (estimate call).exec s with ⟨fault | reply, between⟩
    · exact (plain (.reply (.error fault)) (.inl (by rw [ended]; rfl))).elim
    have finite := plain (.reply (.ok reply.answer)) (.inl (by rw [ended]; rfl))
    rw [Run.exec_bind_ok _ ended, Run.exec_bind, Run.exec_ofExcept]
    by_cases counts : reply.answer.IsFiniteNumber
    · obtain ⟨n, answer, range⟩ := finite counts
      rw [answer, Value.finite?_int range]
      refine ⟨some (.int n), between, rfl, ?_⟩
      rintro _ ⟨⟩
      exact ⟨n, rfl⟩
    · have declined := Value.finite?_of_not_isFiniteNumber counts
      rw [declined]
      exact ih fun e asked => plain e (.inr ⟨reply, between, ended, declined, asked⟩)

end Chain

namespace Site

variable {chain : List (Estimate σ)} {site : Site} {child : Number}

theorem price_explained {s after : Session σ} {fault : Fault}
    (failed : (site.price chain child).exec s = (.error fault, after)) :
    Explain (Asked (site.call child) chain s) fault := by
  rcases Run.exec_bind_failure failed with asked | ⟨found, _, -, late⟩
  · exact consult_explained asked
  · cases found with
    | some cost => cases late
    | none =>
      obtain ⟨sum, adds⟩ := child.one_add
      dsimp only at late
      rw [Run.exec_ofExcept, adds] at late
      cases late

theorem price_breaks {s : Session σ} {e : Event} (asked : Asked (site.call child) chain s e)
    (breaks : e.Breaks) : ∃ after, (site.price chain child).exec s = (.error .overflow, after) := by
  obtain ⟨after, failed⟩ := consult_breaks asked breaks
  exact ⟨after, Run.exec_bind_error _ failed⟩

theorem price_plain {child : Int} {s : Session σ}
    (plain : ∀ e, Asked (site.call (.int child)) chain s e → e.IsPlain) :
    ∃ cost after, (site.price chain (.int child)).exec s = (.ok (.int cost), after) := by
  obtain ⟨found, after, consulted, integer⟩ := consult_plain plain
  cases found with
  | none => exact ⟨1 + child, after, Run.exec_bind_ok _ consulted⟩
  | some cost =>
    obtain ⟨n, rfl⟩ := integer cost rfl
    exact ⟨n, after, Run.exec_bind_ok _ consulted⟩

end Site

namespace Visit

mutual

/-- What happens when a visit is priced from a session: what happens below it, and then what happens when the
chain is asked. -/
def Happens (chain : List (Estimate σ)) : Visit → Session σ → Event → Prop
  | .field notices site below, s, e =>
    HappensAll chain (.int 0) below (s.noting notices) e ∨
    ∃ child between, (priceAll chain (.int 0) below).exec (s.noting notices) = (.ok child, between) ∧
      Asked (site.call child) chain between e
  | .group notices below, s, e => HappensAll chain (.int 0) below (s.noting notices) e
  | _, _, _ => False

/-- What happens when visits are added to a total, one after the other. -/
def HappensAll (chain : List (Estimate σ)) : Number → List Visit → Session σ → Event → Prop
  | _, [], _, _ => False
  | total, v :: rest, s, e =>
    Happens chain v s e ∨
    ∃ added between, (price chain v).exec s = (.ok added, between) ∧
      ((∃ cost, added = some cost ∧ e = .sum total cost) ∨
        ∃ next, added.elim (.ok total) total.add = .ok next ∧ HappensAll chain next rest between e)

end

variable {chain : List (Estimate σ)}

theorem exec_price_field (notices : List Notice) (site : Site) (below : List Visit) (s : Session σ) :
    (price chain (.field notices site below)).exec s =
      (priceAll chain (.int 0) below >>= fun child => do
        return some (← site.price chain child)).exec (s.noting notices) := by
  rw [price, Run.exec_bind_ok _ (Run.exec_noteAll notices s)]
  rfl

theorem exec_price_group (notices : List Notice) (below : List Visit) (s : Session σ) :
    (price chain (.group notices below)).exec s =
      (priceAll chain (.int 0) below >>= fun cost => return some cost).exec (s.noting notices) := by
  rw [price, Run.exec_bind_ok _ (Run.exec_noteAll notices s)]
  rfl

/-- The visits after one that has been priced go on from the total with its cost. -/
theorem exec_priceAll_cons {v : Visit} {rest : List Visit} {total : Number} {s between : Session σ}
    {added : Option Number} (priced : (v.price chain).exec s = (.ok added, between)) :
    (priceAll chain total (v :: rest)).exec s =
      (Run.ofExcept (added.elim (.ok total) total.add) >>= fun next =>
        priceAll chain next rest).exec between := by
  rw [priceAll, Run.exec_bind_ok _ priced]
  cases added with
  | none => rfl
  | some cost => rfl

mutual

theorem price_explained : ∀ (v : Visit) {s after : Session σ} {fault : Fault},
    (v.price chain).exec s = (.error fault, after) → Explain (v.Happens chain s) fault
  | .excluded notices, s, after, fault, failed
  | .unresolved notices, s, after, fault, failed
  | .unexpanded notices, s, after, fault, failed => by
    rw [price, Run.exec_bind_ok _ (Run.exec_noteAll notices s)] at failed
    cases failed
  | .group notices below, s, after, fault, failed => by
    rw [exec_price_group] at failed
    simp only [Happens]
    exact priceAll_explained below (Run.exec_map_failure failed)
  | .field notices site below, s, after, fault, failed => by
    rw [exec_price_field] at failed
    simp only [Happens]
    rcases Run.exec_bind_failure failed with inside | ⟨child, between, priced, failed⟩
    · exact (priceAll_explained below inside).mono fun e happened => .inl happened
    · exact (Site.price_explained (Run.exec_map_failure failed)).mono fun e happened =>
        .inr ⟨child, between, priced, happened⟩

/-- A run fails because an estimator does, or because an integer is converted that is no double. -/
theorem priceAll_explained : ∀ (visits : List Visit) {total : Number} {s after : Session σ} {fault : Fault},
    (priceAll chain total visits).exec s = (.error fault, after) →
    Explain (HappensAll chain total visits s) fault
  | [], total, s, after, fault, failed => by
    rw [priceAll] at failed
    cases failed
  | v :: rest, total, s, after, fault, failed => by
    rcases first : (v.price chain).exec s with ⟨fault' | added, between⟩
    · rw [priceAll, Run.exec_bind_error _ first] at failed
      cases failed
      refine (price_explained v first).mono fun e happened => ?_
      simp only [HappensAll]
      exact .inl happened
    rw [exec_priceAll_cons first, Run.exec_bind, Run.exec_ofExcept] at failed
    cases summed : added.elim (.ok total) total.add with
    | error fault' =>
      rw [summed] at failed
      cases failed
      cases added with
      | none => cases summed
      | some cost =>
        obtain ⟨overflow, breaks⟩ := Number.add_eq_error_iff.mp summed
        refine .inr ⟨overflow, .sum total cost, ?_, breaks⟩
        simp only [HappensAll]
        exact .inr ⟨some cost, _, first, .inl ⟨cost, rfl, rfl⟩⟩
    | ok next =>
      rw [summed] at failed
      refine (priceAll_explained rest failed).mono fun e happened => ?_
      simp only [HappensAll]
      exact .inr ⟨added, between, first, .inr ⟨next, summed, happened⟩⟩

end

mutual

theorem price_breaks : ∀ (v : Visit) {s : Session σ} {e : Event}, v.Happens chain s e → e.Breaks →
    ∃ after, (v.price chain).exec s = (.error .overflow, after)
  | .excluded notices, s, e, happened, breaks
  | .unresolved notices, s, e, happened, breaks
  | .unexpanded notices, s, e, happened, breaks => by simp only [Happens] at happened
  | .group notices below, s, e, happened, breaks => by
    simp only [Happens] at happened
    obtain ⟨after, failed⟩ := priceAll_breaks below happened breaks
    rw [exec_price_group]
    exact ⟨after, Run.exec_bind_error _ failed⟩
  | .field notices site below, s, e, happened, breaks => by
    simp only [Happens] at happened
    rw [exec_price_field]
    rcases happened with inside | ⟨child, between, priced, asked⟩
    · obtain ⟨after, failed⟩ := priceAll_breaks below inside breaks
      exact ⟨after, Run.exec_bind_error _ failed⟩
    · obtain ⟨after, failed⟩ := Site.price_breaks asked breaks
      exact ⟨after, (Run.exec_bind_ok _ priced).trans (Run.exec_bind_error _ failed)⟩

/-- An event that converts an integer beyond the range of doubles is the last one. -/
theorem priceAll_breaks : ∀ (visits : List Visit) {total : Number} {s : Session σ} {e : Event},
    HappensAll chain total visits s e → e.Breaks →
    ∃ after, (priceAll chain total visits).exec s = (.error .overflow, after)
  | [], total, s, e, happened, breaks => by
    simp only [HappensAll] at happened
  | v :: rest, total, s, e, happened, breaks => by
    simp only [HappensAll] at happened
    rcases happened with first | ⟨added, between, priced, ⟨cost, rfl, rfl⟩ | ⟨next, summed, later⟩⟩
    · obtain ⟨after, failed⟩ := price_breaks v first breaks
      exact ⟨after, by rw [priceAll, Run.exec_bind_error _ failed]⟩
    · refine ⟨between, ?_⟩
      rw [exec_priceAll_cons priced, Run.exec_bind, Run.exec_ofExcept, Option.elim_some,
        Number.add_eq_error_iff.mpr ⟨rfl, breaks⟩]
    · obtain ⟨after, failed⟩ := priceAll_breaks rest later breaks
      refine ⟨after, ?_⟩
      rw [exec_priceAll_cons priced, Run.exec_bind, Run.exec_ofExcept, summed]
      exact failed

end

mutual

theorem price_plain : ∀ (v : Visit) {s : Session σ}, (∀ e, v.Happens chain s e → e.IsPlain) →
    ∃ added after, (v.price chain).exec s = (.ok added, after) ∧ ∀ x, added = some x → x.IsInteger
  | .excluded notices, s, _
  | .unexpanded notices, s, _ => by
    rw [price, Run.exec_bind_ok _ (Run.exec_noteAll notices s)]
    exact ⟨none, _, rfl, by rintro x ⟨⟩⟩
  | .unresolved notices, s, _ => by
    rw [price, Run.exec_bind_ok _ (Run.exec_noteAll notices s)]
    refine ⟨some (.int 1), _, rfl, ?_⟩
    rintro _ ⟨⟩
    exact ⟨1, rfl⟩
  | .group notices below, s, plain => by
    simp only [Happens] at plain
    obtain ⟨cost, after, priced⟩ := priceAll_plain below plain
    refine ⟨some (.int cost), after, ?_, ?_⟩
    · rw [exec_price_group]
      exact Run.exec_bind_ok _ priced
    · rintro _ ⟨⟩
      exact ⟨cost, rfl⟩
  | .field notices site below, s, plain => by
    simp only [Happens] at plain
    obtain ⟨child, between, priced⟩ := priceAll_plain below fun e happened => plain e (.inl happened)
    obtain ⟨cost, after, answered⟩ := @Site.price_plain _ chain site child between fun e asked =>
      plain e (.inr ⟨.int child, between, priced, asked⟩)
    refine ⟨some (.int cost), after, ?_, ?_⟩
    · rw [exec_price_field]
      exact (Run.exec_bind_ok _ priced).trans (Run.exec_bind_ok _ answered)
    · rintro _ ⟨⟩
      exact ⟨cost, rfl⟩

/-- Integers as answers give an integer as total, however large. -/
theorem priceAll_plain : ∀ (visits : List Visit) {start : Int} {s : Session σ},
    (∀ e, HappensAll chain (.int start) visits s e → e.IsPlain) →
    ∃ total after, (priceAll chain (.int start) visits).exec s = (.ok (.int total), after)
  | [], start, s, _ => ⟨start, s, by rw [priceAll]; rfl⟩
  | v :: rest, start, s, plain => by
    simp only [HappensAll] at plain
    obtain ⟨added, between, priced, integer⟩ := price_plain v fun e happened => plain e (.inl happened)
    obtain ⟨next, summed⟩ : ∃ next, added.elim (.ok (.int start)) (Number.int start).add =
        .ok (.int next) := by
      cases added with
      | none => exact ⟨start, rfl⟩
      | some cost =>
        obtain ⟨n, rfl⟩ := integer cost rfl
        exact ⟨start + n, rfl⟩
    obtain ⟨total, after, rest_priced⟩ := priceAll_plain rest fun e happened =>
      plain e (.inr ⟨added, between, priced, .inr ⟨.int next, summed, happened⟩⟩)
    refine ⟨total, after, ?_⟩
    rw [exec_priceAll_cons priced, Run.exec_bind, Run.exec_ofExcept, summed]
    exact rest_priced

end

/-- Whatever is replied is what an estimator of the chain ends with. -/
theorem reply_of_asked {outcome : Except Fault Value} : ∀ {call : Call} {chain : List (Estimate σ)}
    {s : Session σ}, Asked call chain s (.reply outcome) →
    ∃ estimate ∈ chain, ∃ call t, ((estimate call).exec t).1.map (·.answer) = outcome := by
  intro call chain s asked
  induction chain generalizing call s with
  | nil => exact asked.elim
  | cons estimate rest ih =>
    rcases asked with same | ⟨_, _, _, _, later⟩
    · exact ⟨estimate, List.mem_cons_self, call, s, (Event.reply.inj same).symm⟩
    · obtain ⟨other, member, found⟩ := ih later
      exact ⟨other, List.mem_cons_of_mem _ member, found⟩

mutual

theorem reply_of_happens {outcome : Except Fault Value} : ∀ (v : Visit) {s : Session σ},
    v.Happens chain s (.reply outcome) →
    ∃ estimate ∈ chain, ∃ call t, ((estimate call).exec t).1.map (·.answer) = outcome
  | .excluded notices, s, happened
  | .unresolved notices, s, happened
  | .unexpanded notices, s, happened => by simp only [Happens] at happened
  | .group notices below, s, happened => by
    simp only [Happens] at happened
    exact reply_of_happensAll below happened
  | .field notices site below, s, happened => by
    simp only [Happens] at happened
    rcases happened with inside | ⟨_, _, _, asked⟩
    · exact reply_of_happensAll below inside
    · exact reply_of_asked asked

theorem reply_of_happensAll {outcome : Except Fault Value} : ∀ (visits : List Visit) {total : Number}
    {s : Session σ}, HappensAll chain total visits s (.reply outcome) →
    ∃ estimate ∈ chain, ∃ call t, ((estimate call).exec t).1.map (·.answer) = outcome
  | [], total, s, happened => by simp only [HappensAll] at happened
  | v :: rest, total, s, happened => by
    simp only [HappensAll] at happened
    rcases happened with first | ⟨_, _, _, ⟨_, _, other⟩ | ⟨_, _, later⟩⟩
    · exact reply_of_happens v first
    · cases other
    · exact reply_of_happensAll rest later

end

end Visit

end QueryCost
