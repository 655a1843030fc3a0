import QueryCost.Proofs.Declining

/-!
# What a chain is asked and answers

A transcript holds every call of an estimator with its place in the chain and its reply. Keeping one changes
nothing else (`score_transcribed`). While visits are priced it grows by turns: a turn is one run of the whole
chain at one field. `Visit.postAll` lists the fields in the order in which they have their turns, and
`Visit.Sums` says what visits add up to if every field is worth what its turn came to. Both look at the
visits alone, and `priceAll_turns` says that pricing goes by them.
-/
namespace QueryCost

variable {σ : Type}

open Run (Matches Tolerant)

/-- How the estimator at a place of the chain has ended a call. -/
structure Entry where
  place : Nat
  call : Call
  outcome : Except Fault Reply

/-- An estimator that keeps a transcript. -/
def Estimate.transcribed (place : Nat) (estimate : Estimate σ) : Estimate (σ × List Entry) :=
  fun call => (estimate call).onFirst fun outcome log => log ++ [⟨place, call, outcome⟩]

/-- The session without the second part of the memory. -/
def Underlies {τ : Type} (s : Session σ) (t : Session (σ × τ)) : Prop := s = ⟨t.memory.1, t.notices⟩

theorem tolerant_underlies {τ : Type} : Tolerant (Underlies : Session σ → Session (σ × τ) → Prop) := by
  rintro _ t notices rfl
  rfl

/-- A chain that keeps a transcript, with places from a given one on. -/
def transcribe : Nat → List (Estimate σ) → List (Estimate (σ × List Entry))
  | _, [] => []
  | place, estimate :: rest => estimate.transcribed place :: transcribe (place + 1) rest

theorem Estimate.exec_transcribed (place : Nat) (estimate : Estimate σ) (call : Call)
    (s : Session (σ × List Entry)) :
    (estimate.transcribed place call).exec s =
      (((estimate call).exec ⟨s.memory.1, s.notices⟩).1,
        ⟨(((estimate call).exec ⟨s.memory.1, s.notices⟩).2.memory,
          s.memory.2 ++ [⟨place, call, ((estimate call).exec ⟨s.memory.1, s.notices⟩).1⟩]),
          ((estimate call).exec ⟨s.memory.1, s.notices⟩).2.notices⟩) := rfl

theorem chainsMatch_transcribe (chain : List (Estimate σ)) (place : Nat) :
    ChainsMatch Underlies chain (transcribe place chain) := by
  induction chain generalizing place with
  | nil => exact .nil
  | cons estimate rest ih =>
    refine .cons ?_ (ih (place + 1))
    rintro call _ t rfl
    rw [Estimate.exec_transcribed]
    exact ⟨rfl, rfl⟩

/-- With a transcript, scores, faults, memories and notices are the same. -/
theorem score_transcribed (scope : Scope) (chain : List (Estimate σ)) (path : List String)
    (parent : Option TypeDef) (selections : List Selection) :
    Matches Underlies (scope.score chain path parent selections)
      (scope.score (transcribe 0 chain) path parent selections) :=
  scope.score_matches tolerant_underlies (chainsMatch_transcribe chain 0).prices path parent selections

/-- A run that succeeds does so with a transcript, too. -/
theorem score_transcribed_success {scope : Scope} {chain : List (Estimate σ)} {path : List String}
    {parent : Option TypeDef} {selections : List Selection} {s after : Session σ} {score : Score}
    (success : (scope.score chain path parent selections).exec s = (.ok score, after))
    (log : List Entry) : ∃ log',
      (scope.score (transcribe 0 chain) path parent selections).exec ⟨(s.memory, log), s.notices⟩ =
        (.ok score, ⟨(after.memory, log'), after.notices⟩) := by
  have same := score_transcribed scope chain path parent selections s ⟨(s.memory, log), s.notices⟩ rfl
  rcases transcribed : (scope.score (transcribe 0 chain) path parent selections).exec
    ⟨(s.memory, log), s.notices⟩ with ⟨outcome, ⟨memory, log'⟩, notices⟩
  rw [success, transcribed] at same
  obtain ⟨ended, left⟩ := same
  cases ended
  cases left
  exact ⟨log', rfl⟩

theorem Value.finite?_eq_some {v : Value} {x : Number} (found : v.finite? = .ok (some x)) :
    v = .num x ∧ v.IsFiniteNumber := by
  have outcome := v.finite?_outcome
  rw [found] at outcome
  obtain ⟨rfl, finite⟩ := outcome x rfl
  cases x with
  | int n => exact ⟨rfl, trivial⟩
  | float y => exact ⟨rfl, Except.ok.inj finite⟩

/-- The answers of a chain of estimators, from left to right, and the number that counts. It is the last
answer, and no answer before it is a finite number. Without such a number, all have answered. -/
inductive Settled (length : Nat) : List Value → Option Number → Prop
  | decided {declined : List Value} {cost : Number}
      (others : ∀ answer ∈ declined, ¬ answer.IsFiniteNumber)
      (finite : (Value.num cost).IsFiniteNumber) (placed : declined.length < length) :
      Settled length (declined ++ [.num cost]) (some cost)
  | declined {answers : List Value} (others : ∀ answer ∈ answers, ¬ answer.IsFiniteNumber)
      (all : answers.length = length) : Settled length answers none

theorem Settled.cons {length : Nat} {answers : List Value} {found : Option Number} {answer : Value}
    (settled : Settled length answers found) (other : ¬ answer.IsFiniteNumber) :
    Settled (length + 1) (answer :: answers) found := by
  cases settled with
  | @decided declined cost others finite placed =>
    rw [← List.cons_append]
    exact .decided (List.forall_mem_cons.mpr ⟨other, others⟩) finite (Nat.succ_lt_succ placed)
  | declined others all =>
    exact .declined (List.forall_mem_cons.mpr ⟨other, others⟩) (congrArg (· + 1) all)

/-- The entries of a transcript for one run of a chain, with places from a given one on. The first estimator
is told of the call, and each further one finds the arguments as the one before has left them. -/
def entriesFrom : Nat → Call → List Reply → List Entry
  | _, _, [] => []
  | place, call, reply :: rest =>
    ⟨place, call, .ok reply⟩ :: entriesFrom (place + 1) (call.withArgs reply.args) rest

/-- A chain asks from left to right and stops at the first finite number. -/
theorem consult_settled {chain : List (Estimate σ)} {place : Nat} {call : Call}
    {t after : Session (σ × List Entry)} {found : Option Number}
    (success : (consult (transcribe place chain) call).exec t = (.ok found, after)) :
    ∃ replies : List Reply, after.memory.2 = t.memory.2 ++ entriesFrom place call replies ∧
      Settled chain.length (replies.map (·.answer)) found := by
  induction chain generalizing place call t with
  | nil =>
    obtain ⟨rfl, rfl⟩ := Run.exec_pure_success success
    exact ⟨[], by simp [entriesFrom], .declined (by simp) rfl⟩
  | cons estimate rest ih =>
    rw [transcribe, consult] at success
    obtain ⟨reply, _, asked, reading⟩ := Run.exec_bind_success success
    obtain ⟨number, between, read, going⟩ := Run.exec_bind_success reading
    obtain ⟨finite, rfl⟩ := Run.exec_ofExcept_success read
    have written : between.memory.2 = t.memory.2 ++ [⟨place, call, .ok reply⟩] := by
      rw [Estimate.exec_transcribed] at asked
      obtain ⟨answered, rfl⟩ := Prod.mk.inj asked
      rw [answered]
    cases number with
    | some cost =>
      obtain ⟨rfl, rfl⟩ := Run.exec_pure_success going
      obtain ⟨same, number⟩ := Value.finite?_eq_some finite
      refine ⟨[reply], written, ?_⟩
      rw [List.map_singleton, same]
      exact .decided (List.forall_mem_nil _) (same ▸ number) (Nat.succ_pos _)
    | none =>
      obtain ⟨replies, later, settled⟩ := ih going
      refine ⟨reply :: replies, ?_, settled.cons fun number => Value.finite?_ne_none number finite⟩
      rw [later, written, List.append_assoc]
      rfl

/-- A field costs the number that counts, or one more than its children. -/
theorem site_price_settled {chain : List (Estimate σ)} {site : Site} {child cost : Number}
    {t after : Session (σ × List Entry)}
    (success : (site.price (transcribe 0 chain) child).exec t = (.ok cost, after)) :
    ∃ replies : List Reply, after.memory.2 = t.memory.2 ++ entriesFrom 0 (site.call child) replies ∧
      ∃ found, Settled chain.length (replies.map (·.answer)) found ∧
        found.elim ((Number.int 1).add child) .ok = .ok cost := by
  obtain ⟨found, between, consulted, ended⟩ := Run.exec_bind_success success
  obtain ⟨replies, written, settled⟩ := consult_settled consulted
  cases found with
  | some number =>
    obtain ⟨rfl, rfl⟩ := Run.exec_pure_success ended
    exact ⟨replies, written, some cost, settled, rfl⟩
  | none =>
    obtain ⟨sum, rfl⟩ := Run.exec_ofExcept_success ended
    exact ⟨replies, written, none, settled, sum⟩

/-- One run of a chain: at the field of an address, with the visits directly below it. -/
structure Turn where
  address : List Nat
  site : Site
  below : List Visit
  child : Number
  replies : List Reply
  cost : Number

namespace Turn

/-- The field whose turn it is. -/
def field (turn : Turn) : List Nat × Site × List Visit := (turn.address, turn.site, turn.below)

/-- What a turn adds to the transcript. -/
def entries (turn : Turn) : List Entry := entriesFrom 0 (turn.site.call turn.child) turn.replies

end Turn

namespace Visit

mutual

/-- What a visit at an address is worth after some turns. A field is worth what its turn came to. -/
def Worth (turns : List Turn) (address : List Nat) : Visit → Option Number → Prop
  | .excluded _, added => added = none
  | .unexpanded _, added => added = none
  | .unresolved _, added => added = some (.int 1)
  | .field _ site below, added => ∃ turn ∈ turns, turn.field = (address, site, below) ∧
      added = some turn.cost
  | .group _ below, added => ∃ cost, Sums turns address 0 below (.int 0) cost ∧ added = some cost

/-- What visits directly below an address, from a position on, add up to. -/
def Sums (turns : List Turn) (address : List Nat) : Nat → List Visit → Number → Number → Prop
  | _, [], total, result => result = total
  | i, v :: rest, total, result => ∃ added next, Worth turns (address ++ [i]) v added ∧
      added.elim (.ok total) total.add = .ok next ∧ Sums turns address (i + 1) rest next result

end

mutual

/-- The fields at and below a visit, what is below a field before the field. Each comes with its address from
the visit on, and with the visits directly below it. -/
def post : Visit → List (List Nat × Site × List Visit)
  | .field _ site below => postAll 0 below ++ [([], site, below)]
  | .group _ below => postAll 0 below
  | .excluded _ => []
  | .unresolved _ => []
  | .unexpanded _ => []

/-- The same for visits in order, from a position on. -/
def postAll : Nat → List Visit → List (List Nat × Site × List Visit)
  | _, [] => []
  | i, v :: rest => (post v).map (fun f => (i :: f.1, f.2)) ++ postAll (i + 1) rest

end

mutual

theorem Worth.mono {turns more : List Turn} (subset : turns ⊆ more) {address : List Nat} :
    ∀ {v : Visit} {added : Option Number}, v.Worth turns address added → v.Worth more address added
  | .excluded _, _, worth => worth
  | .unexpanded _, _, worth => worth
  | .unresolved _, _, worth => worth
  | .field _ _ _, _, worth => by
    rw [Worth] at worth ⊢
    obtain ⟨turn, member, rest⟩ := worth
    exact ⟨turn, subset member, rest⟩
  | .group _ below, _, worth => by
    rw [Worth] at worth ⊢
    obtain ⟨cost, sums, rest⟩ := worth
    exact ⟨cost, Sums.mono subset sums, rest⟩

/-- Further turns do not change what visits add up to. -/
theorem Sums.mono {turns more : List Turn} (subset : turns ⊆ more) {address : List Nat} :
    ∀ {visits : List Visit} {i : Nat} {total result : Number},
    Sums turns address i visits total result → Sums more address i visits total result
  | [], _, _, _, sums => sums
  | _ :: _, _, _, _, sums => by
    rw [Sums] at sums ⊢
    obtain ⟨added, next, worth, sum, others⟩ := sums
    exact ⟨added, next, Worth.mono subset worth, sum, Sums.mono subset others⟩

end

end Visit

/-- A turn in which a chain of a given length is asked as it should be: it is told what the visits directly
below the field add up to, and it comes to the number that counts or to one more than that sum. -/
structure Turn.Fair (length : Nat) (turns : List Turn) (turn : Turn) : Prop where
  child : Visit.Sums turns turn.address 0 turn.below (.int 0) turn.child
  cost : ∃ found, Settled length (turn.replies.map (·.answer)) found ∧
    found.elim ((Number.int 1).add turn.child) .ok = .ok turn.cost

theorem Turn.Fair.mono {length : Nat} {turns more : List Turn} {turn : Turn}
    (fair : turn.Fair length turns) (subset : turns ⊆ more) : turn.Fair length more :=
  ⟨fair.child.mono subset, fair.cost⟩

/-- Fields have their turns one after the other, and this is all that is written to the transcript. -/
structure Ran (length : Nat) (fields : List (List Nat × Site × List Visit)) (turns : List Turn)
    (before after : List Entry) : Prop where
  written : after = before ++ turns.flatMap Turn.entries
  fields : turns.map Turn.field = fields
  fair : ∀ turn ∈ turns, turn.Fair length turns

namespace Ran

variable {length : Nat} {turns turns' : List Turn} {before between after : List Entry}
  {fields fields' : List (List Nat × Site × List Visit)}

theorem nil : Ran length [] [] before before := ⟨by simp, rfl, List.forall_mem_nil _⟩

theorem append (first : Ran length fields turns before between)
    (second : Ran length fields' turns' between after) :
    Ran length (fields ++ fields') (turns ++ turns') before after := by
  refine ⟨?_, ?_, ?_⟩
  · rw [second.written, first.written, List.flatMap_append, List.append_assoc]
  · rw [List.map_append, first.fields, second.fields]
  · refine List.forall_mem_append.mpr ⟨?_, ?_⟩
    · exact fun turn member => (first.fair turn member).mono (List.subset_append_left _ _)
    · exact fun turn member => (second.fair turn member).mono (List.subset_append_right _ _)

/-- What is below a field has its turns, then the field has its own. -/
theorem snoc (below : Ran length fields turns before between) {turn : Turn}
    (written : after = between ++ turn.entries) (fair : turn.Fair length turns) :
    Ran length (fields ++ [turn.field]) (turns ++ [turn]) before after := by
  refine ⟨?_, ?_, ?_⟩
  · rw [written, below.written, List.flatMap_append, List.append_assoc, List.flatMap_singleton]
  · rw [List.map_append, below.fields, List.map_singleton]
  · refine List.forall_mem_append.mpr ⟨?_, ?_⟩
    · exact fun other member => (below.fair other member).mono (List.subset_append_left _ _)
    · exact List.forall_mem_singleton.mpr (fair.mono (List.subset_append_left _ _))

end Ran

/-- A field with its address continued above. -/
def underAddress (address : List Nat) (f : List Nat × Site × List Visit) :
    List Nat × Site × List Visit :=
  (address ++ f.1, f.2)

namespace Visit

theorem postAll_under (address : List Nat) (i : Nat) (v : Visit) (rest : List Visit) :
    (postAll i (v :: rest)).map (underAddress address) =
      v.post.map (underAddress (address ++ [i])) ++
        (postAll (i + 1) rest).map (underAddress address) := by
  rw [postAll, List.map_append, List.map_map]
  congr 2
  funext f
  simp [underAddress]

section Pricing

variable (chain : List (Estimate σ))

mutual

theorem price_turns : ∀ (v : Visit) (address : List Nat) {t after : Session (σ × List Entry)}
    {added : Option Number}, (v.price (transcribe 0 chain)).exec t = (.ok added, after) →
    ∃ turns, Ran chain.length (v.post.map (underAddress address)) turns t.memory.2 after.memory.2 ∧
      v.Worth turns address added
  | .excluded notices, address, t, after, added, success => by
    rw [price, Run.exec_bind_ok _ (Run.exec_noteAll notices t)] at success
    obtain ⟨rfl, rfl⟩ := Run.exec_pure_success success
    exact ⟨[], .nil, rfl⟩
  | .unresolved notices, address, t, after, added, success => by
    rw [price, Run.exec_bind_ok _ (Run.exec_noteAll notices t)] at success
    obtain ⟨rfl, rfl⟩ := Run.exec_pure_success success
    exact ⟨[], .nil, rfl⟩
  | .unexpanded notices, address, t, after, added, success => by
    rw [price, Run.exec_bind_ok _ (Run.exec_noteAll notices t)] at success
    obtain ⟨rfl, rfl⟩ := Run.exec_pure_success success
    exact ⟨[], .nil, rfl⟩
  | .field notices site below, address, t, after, added, success => by
    rw [price, Run.exec_bind_ok _ (Run.exec_noteAll notices t)] at success
    obtain ⟨child, between, priced, going⟩ := Run.exec_bind_success success
    obtain ⟨cost, _, asked, ended⟩ := Run.exec_bind_success going
    obtain ⟨rfl, rfl⟩ := Run.exec_pure_success ended
    -- All turns below the field come first, and its own turn closes them off.
    obtain ⟨turns, ran, sums⟩ := priceAll_turns below address 0 (.int 0) priced
    obtain ⟨replies, written, settled⟩ := site_price_settled asked
    have fair : Turn.Fair chain.length turns ⟨address, site, below, child, replies, cost⟩ :=
      ⟨sums, settled⟩
    refine ⟨turns ++ [⟨address, site, below, child, replies, cost⟩], ?_, ?_⟩
    · have own : [([], site, below)].map (underAddress address) = [(address, site, below)] := by
        simp [underAddress]
      rw [post, List.map_append, own]
      exact ran.snoc written fair
    · rw [Worth]
      exact ⟨_, List.mem_append_right _ (List.mem_singleton_self _), rfl, rfl⟩
  | .group notices below, address, t, after, added, success => by
    rw [price, Run.exec_bind_ok _ (Run.exec_noteAll notices t)] at success
    obtain ⟨cost, _, priced, ended⟩ := Run.exec_bind_success success
    obtain ⟨rfl, rfl⟩ := Run.exec_pure_success ended
    obtain ⟨turns, ran, sums⟩ := priceAll_turns below address 0 (.int 0) priced
    refine ⟨turns, ?_, ?_⟩
    · rw [post]
      exact ran
    · rw [Worth]
      exact ⟨cost, sums, rfl⟩

/-- Pricing goes by turns, in the order of `postAll`, and comes to the sum. -/
theorem priceAll_turns : ∀ (visits : List Visit) (address : List Nat) (i : Nat) (total : Number)
    {t after : Session (σ × List Entry)} {result : Number},
    (priceAll (transcribe 0 chain) total visits).exec t = (.ok result, after) →
    ∃ turns, Ran chain.length ((postAll i visits).map (underAddress address)) turns t.memory.2
        after.memory.2 ∧
      Sums turns address i visits total result
  | [], address, i, total, t, after, result, success => by
    rw [priceAll] at success
    obtain ⟨rfl, rfl⟩ := Run.exec_pure_success success
    exact ⟨[], .nil, rfl⟩
  | v :: rest, address, i, total, t, after, result, success => by
    rw [priceAll] at success
    obtain ⟨added, between, priced, going⟩ := Run.exec_bind_success success
    obtain ⟨turns, first, worth⟩ := price_turns v (address ++ [i]) priced
    obtain ⟨next, sum, others⟩ : ∃ next, added.elim (.ok total) total.add = .ok next ∧
        (priceAll (transcribe 0 chain) next rest).exec between = (.ok result, after) := by
      cases added with
      | none => exact ⟨total, rfl, going⟩
      | some cost =>
        obtain ⟨next, _, summed, others⟩ := Run.exec_bind_success going
        obtain ⟨sum, rfl⟩ := Run.exec_ofExcept_success summed
        exact ⟨next, sum, others⟩
    obtain ⟨turns', second, sums⟩ := priceAll_turns rest address (i + 1) next others
    refine ⟨turns ++ turns', ?_, ?_⟩
    · rw [postAll_under]
      exact first.append second
    · rw [Sums]
      exact ⟨added, next, worth.mono (List.subset_append_left _ _), sum,
        sums.mono (List.subset_append_right _ _)⟩

end

end Pricing

end Visit

end QueryCost
