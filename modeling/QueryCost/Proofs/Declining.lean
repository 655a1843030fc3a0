import QueryCost.Proofs.Matching
import QueryCost.Proofs.Overflow

/-!
# Estimators that decline and estimators that settle

In a chain the first finite number counts. So an estimator that never answers with one can stand anywhere,
as long as it leaves to the others what they share with it: the arguments of the field, and what they
remember. Nothing that stands behind an estimator that always answers with a finite number is ever asked.

What a chain falls back on is one more than the children, which is what the flat estimator with base one
answers. The two differ in one point: the fallback is taken as it is, while an answer is asked whether it is
finite, and an integer beyond the range of doubles faults there. An answer that is not finite is no problem:
the flat estimator then declines, and the fallback gives the same value again.
-/
namespace QueryCost

variable {σ τ : Type}

open Run (Matches Tolerant)

/-- An integer or a finite double. A Boolean is none. -/
def Value.IsFiniteNumber : Value → Prop
  | .num (.int _) => True
  | .num (.float x) => x.isFinite = true
  | _ => False

theorem Value.finite?_of_not_isFiniteNumber {v : Value} (other : ¬ v.IsFiniteNumber) :
    v.finite? = .ok none := by
  cases v with
  | num x =>
    cases x with
    | int n => exact absurd trivial other
    | float x => rw [finite?_float, if_neg (show ¬ x.isFinite = true from other)]
  | _ => rfl

/-- A finite number is not passed over, though it may be too large to be asked. -/
theorem Value.finite?_ne_none {v : Value} (finite : v.IsFiniteNumber) : v.finite? ≠ .ok none := by
  intro declined
  cases v with
  | num x =>
    cases x with
    | int n =>
      rw [finite?_int (inRange_of_finite? declined)] at declined
      cases declined
    | float x =>
      rw [finite?_float, if_pos (show x.isFinite = true from finite)] at declined
      cases declined
  | _ => exact finite

theorem Value.finite?_large {n : Int} (beyond : ¬ Number.InRange n) :
    (Value.num (.int n)).finite? = .error .overflow := by
  have asked := (Value.num (.int n)).finite?_outcome
  cases finite : (Value.num (.int n)).finite? with
  | error fault =>
    rw [finite] at asked
    exact congrArg _ asked
  | ok found => exact absurd (inRange_of_finite? finite) beyond

namespace Estimate

/-- The estimator always answers, and never with a finite number. -/
def Declines (estimate : Estimate σ) : Prop :=
  ∀ call s, ∃ reply after, (estimate call).exec s = (.ok reply, after) ∧
    ¬ reply.answer.IsFiniteNumber

/-- The estimator may keep a memory of its own, and leaves that of others as it is. -/
def KeepsToItself (estimate : Estimate (σ × τ)) : Prop :=
  ∀ call s, ((estimate call).exec s).2.memory.1 = s.memory.1

/-- The estimator leaves the arguments of the field as it finds them. -/
def LeavesArguments (estimate : Estimate σ) : Prop :=
  ∀ call s reply after, (estimate call).exec s = (.ok reply, after) → reply.args = call.args

/-- Whenever the estimator answers, it does so with a finite number. -/
def Settles (estimate : Estimate σ) : Prop :=
  ∀ call s reply after, (estimate call).exec s = (.ok reply, after) → reply.answer.IsFiniteNumber

/-- The estimator beside another memory. -/
def onFirst (estimate : Estimate σ) : Estimate (σ × τ) := fun call => (estimate call).onFirst fun _ => id

theorem leavesArguments_reading (answer : Call → Run σ Value) : (reading answer).LeavesArguments := by
  intro call s reply after success
  obtain ⟨v, _, _, ended⟩ := Run.exec_bind_success success
  obtain ⟨rfl, -⟩ := Run.exec_pure_success ended
  rfl

end Estimate

/-- The first part of the one memory is the other memory. Notices may differ. -/
def FirstMemory (s : Session σ) (t : Session (σ × τ)) : Prop := t.memory.1 = s.memory

theorem tolerant_firstMemory : Tolerant (FirstMemory : Session σ → Session (σ × τ) → Prop) :=
  fun _ _ _ same => same

section Chains

variable {before after : List (Estimate σ)}

theorem chainsMatch_onFirst (chain : List (Estimate σ)) :
    ChainsMatch FirstMemory chain (chain.map Estimate.onFirst : List (Estimate (σ × τ))) := by
  refine List.forall₂_map_right_iff.mpr (List.forall₂_same.mpr fun estimate _ call s t same => ?_)
  have apart := Matches.sameMemory (estimate call) s ⟨t.memory.1, t.notices⟩ (Eq.symm same)
  exact ⟨apart.1, apart.2.symm⟩

/-- From every session that is related to another one, the estimator declines, leaves the arguments as they
are and leaves a session that is still related to the other one. -/
def Estimate.DeclinesBeside (S : Session σ → Session τ → Prop) (extra : Estimate τ) : Prop :=
  ∀ call s t, S s t → ∃ reply after, (extra call).exec t = (.ok reply, after) ∧ S s after ∧
    reply.args = call.args ∧ ¬ reply.answer.IsFiniteNumber

/-- Its own memory is no concern of the other estimators. -/
theorem Estimate.Declines.beside {extra : Estimate (σ × τ)} (declines : extra.Declines)
    (keeps : extra.KeepsToItself) (leaves : extra.LeavesArguments) :
    extra.DeclinesBeside (FirstMemory : Session σ → Session (σ × τ) → Prop) := by
  intro call s t same
  obtain ⟨reply, after, answered, other⟩ := declines call t
  have kept := keeps call t
  rw [answered] at kept
  exact ⟨reply, after, answered, kept.trans same, leaves call t reply after answered, other⟩

section Parts

variable {S : Session σ → Session τ → Prop} {before' after' : List (Estimate τ)} {extra : Estimate τ}

/-- An estimator that declines is passed over. -/
theorem consult_declining (declines : extra.DeclinesBeside S) (others : ChainsMatch S after after')
    (call : Call) : Matches S (consult after call) (consult (extra :: after') call) := by
  intro s t related
  obtain ⟨reply, between, answered, kept, left, other⟩ := declines call s t related
  have declined : (Run.ofExcept reply.answer.finite? : Run τ (Option Number)).exec between =
      (.ok none, between) := by
    rw [Run.exec_ofExcept, Value.finite?_of_not_isFiniteNumber other]
  rw [consult, Run.exec_bind_ok _ answered, Run.exec_bind_ok _ declined, left]
  exact consult_matches others call s between kept

theorem prices_insert (declines : extra.DeclinesBeside S) (first : ChainsMatch S before before')
    (others : ChainsMatch S after after') :
    PricesMatch S (before ++ after) (before' ++ extra :: after') :=
  fun _ _ => Site.price_matches
    (consult_append_matches first (consult_declining declines others) _)

end Parts

/-- Behind an estimator that settles, no other is asked. -/
theorem consult_settling {estimate : Estimate σ} (settles : estimate.Settles) (call : Call) :
    Matches Eq (consult (estimate :: after) call) (consult [estimate] call) := by
  rintro s _ rfl
  rw [consult, consult, Run.exec_bind, Run.exec_bind]
  rcases answered : (estimate call).exec s with ⟨fault | reply, between⟩
  · exact ⟨rfl, rfl⟩
  have finite := Value.finite?_ne_none (settles call s reply between answered)
  dsimp only
  rw [Run.exec_bind, Run.exec_bind, Run.exec_ofExcept]
  cases asked : reply.answer.finite? with
  | error fault => exact ⟨rfl, rfl⟩
  | ok found =>
    cases found with
    | none => exact absurd asked finite
    | some cost => exact ⟨rfl, rfl⟩

theorem prices_drop {estimate : Estimate σ} (settles : estimate.Settles) :
    PricesMatch Eq (before ++ estimate :: after) (before ++ [estimate]) := by
  have same : ChainsMatch Eq before before :=
    List.forall₂_same.mpr fun estimate _ call => .refl (estimate call)
  exact fun _ _ => Site.price_matches
    (consult_append_matches same (consult_settling settles) _)

/-- On numbers, an answer is the price as a value. -/
theorem answer_call (chain : List (Estimate σ)) (site : Site) (child : Number) :
    answer chain (site.call child) = (do return Value.num (← site.price chain child)) := by
  have sum : (Value.int 1).add (site.call child).child = ((Number.int 1).add child).map .num :=
    Value.add_num (.int 1) child
  unfold answer Site.price
  rw [bind_assoc]
  congr 1
  funext found
  cases found with
  | some cost => rfl
  | none =>
    dsimp only
    rw [sum]
    cases (Number.int 1).add child <;> rfl

/-- The flat estimator looks at the children only. -/
theorem consult_flat (base : Value) (call : Call) :
    (consult [.flat base] call : Run σ (Option Number)) = (do
      let v ← Run.ofExcept (base.add call.child)
      Run.ofExcept v.finite?) := by
  simp only [consult, Estimate.flat, Estimate.reading, bind_assoc, pure_bind, Call.answer_reply]
  congr 1
  funext v
  rcases v.finite? with fault | _ | cost <;> rfl

/-- Behind a chain, the flat estimator is asked if that has no finite answer. -/
theorem consult_append_flat (chain : List (Estimate σ)) (base : Value) (call : Call) :
    consult (chain ++ [.flat base]) call = (do
      match (← consult chain call) with
      | some cost => return some cost
      | none => consult [.flat base] call) := by
  induction chain generalizing call with
  | nil => rfl
  | cons estimate rest ih =>
    have same : ∀ args, (consult [.flat base] (call.withArgs args) : Run σ (Option Number)) =
        consult [.flat base] call := by
      intro args
      rw [consult_flat, consult_flat]
      rfl
    -- Only the chain itself is to be unfolded.
    generalize consult [.flat base] call = last at same ⊢
    simp only [List.cons_append, consult, bind_assoc]
    congr 1
    funext reply
    congr 1
    funext found
    cases found with
    | none =>
      dsimp only
      rw [ih, same]
    | some cost => rfl

theorem exec_consult_flat_error {site : Site} {child : Number} {fault : Fault}
    (failed : (Number.int 1).add child = .error fault) (s : Session σ) :
    (consult [.flat (.int 1)] (site.call child)).exec s = (.error fault, s) := by
  have sum : (Value.int 1).add (site.call child).child = .error fault := by
    rw [Value.int, Site.call, Value.add_num, failed]
    rfl
  rw [consult_flat, sum]
  rfl

theorem exec_consult_flat {site : Site} {child cost : Number}
    (sum : (Number.int 1).add child = .ok cost) (s : Session σ) :
    (consult [.flat (.int 1)] (site.call child)).exec s = ((Value.num cost).finite?, s) := by
  have sum : (Value.int 1).add (site.call child).child = .ok (.num cost) := by
    rw [Value.int, Site.call, Value.add_num, sum]
    rfl
  rw [consult_flat, sum, Run.ofExcept, pure_bind, Run.exec_ofExcept]

/-- The flat estimator answers with the fallback, if that is finite. It faults on an integer beyond the range
of doubles. -/
theorem Site.price_append_flat (chain : List (Estimate σ)) (site : Site) (child : Number) (s : Session σ)
    (range : ∀ n after, (site.price chain child).exec s = (.ok (.int n), after) → Number.InRange n) :
    (site.price (chain ++ [.flat (.int 1)]) child).exec s = (site.price chain child).exec s := by
  have unfolded : ∀ chain : List (Estimate σ), (site.price chain child).exec s =
      (consult chain (site.call child) >>= fun found => match found with
        | some cost => return cost
        | none => Run.ofExcept ((Number.int 1).add child)).exec s := fun _ => rfl
  rw [unfolded] at range ⊢
  rw [unfolded, consult_append_flat, bind_assoc, Run.exec_bind, Run.exec_bind]
  rw [Run.exec_bind] at range
  rcases consulted : (consult chain (site.call child)).exec s with ⟨fault | found, after⟩
  · rfl
  cases found with
  | some cost => rfl
  | none =>
    rw [consulted] at range
    dsimp only at range ⊢
    rw [Run.exec_ofExcept] at range ⊢
    cases sum : (Number.int 1).add child with
    | error fault => rw [Run.exec_bind_error _ (exec_consult_flat_error sum after)]
    | ok cost =>
      rw [Run.exec_bind, exec_consult_flat sum]
      cases cost with
      | int n => rw [Value.finite?_int (range n after (by rw [sum]))]; rfl
      | float x =>
        -- If the sum has become infinite, it is declined, and the fallback gives the same sum again.
        rw [Value.finite?_float]
        cases x.isFinite <;> rfl

end Chains

namespace Visit

mutual

/-- When the visit is priced from a session, no field that is come to costs an integer beyond the range of
doubles. -/
def CostsFit (chain : List (Estimate σ)) : Visit → Session σ → Prop
  | .field notices site below, s =>
    CostsFitAll chain (.int 0) below (s.noting notices) ∧
    ∀ child between, (priceAll chain (.int 0) below).exec (s.noting notices) = (.ok child, between) →
      ∀ n after, (site.price chain child).exec between = (.ok (.int n), after) → Number.InRange n
  | .group notices below, s => CostsFitAll chain (.int 0) below (s.noting notices)
  | _, _ => True

def CostsFitAll (chain : List (Estimate σ)) : Number → List Visit → Session σ → Prop
  | _, [], _ => True
  | total, v :: rest, s =>
    CostsFit chain v s ∧ ∀ added after, (price chain v).exec s = (.ok added, after) →
      ∀ next, added.elim (.ok total) total.add = .ok next → CostsFitAll chain next rest after

end

mutual

theorem costsFit_of_prices {chain : List (Estimate σ)} (within : ∀ site child s n after,
    (Site.price chain site child).exec s = (.ok (.int n), after) → Number.InRange n) :
    ∀ (v : Visit) (s : Session σ), v.CostsFit chain s
  | .excluded _, _ => trivial
  | .unresolved _, _ => trivial
  | .unexpanded _, _ => trivial
  | .field _ site below, _ =>
    ⟨costsFitAll_of_prices within below _ _, fun child between _ => within site child between⟩
  | .group _ below, _ => costsFitAll_of_prices within below _ _

/-- It is enough that no price is too large, whatever the children cost. -/
theorem costsFitAll_of_prices {chain : List (Estimate σ)} (within : ∀ site child s n after,
    (Site.price chain site child).exec s = (.ok (.int n), after) → Number.InRange n) :
    ∀ (visits : List Visit) (total : Number) (s : Session σ), CostsFitAll chain total visits s
  | [], _, _ => trivial
  | v :: rest, _, s =>
    ⟨costsFit_of_prices within v s, fun _ after _ next _ => costsFitAll_of_prices within rest next after⟩

end

mutual

theorem price_append_flat (chain : List (Estimate σ)) : ∀ (v : Visit) (s : Session σ),
    v.CostsFit chain s →
    (v.price (chain ++ [.flat (.int 1)])).exec s = (v.price chain).exec s
  | .excluded notices, _, _ => by rw [price, price]
  | .unresolved notices, _, _ => by rw [price, price]
  | .unexpanded notices, _, _ => by rw [price, price]
  | .field notices site below, s, fit => by
    rw [CostsFit] at fit
    rw [price, price]
    refine Run.exec_bind_congr rfl fun _ noted ends => ?_
    rw [Run.exec_noteAll] at ends
    cases ends
    refine Run.exec_bind_congr (priceAll_append_flat chain below (.int 0) _ fit.1) ?_
    intro child between priced
    refine Run.exec_bind_congr ?_ fun _ _ _ => rfl
    exact site.price_append_flat chain child between (fit.2 child between priced)
  | .group notices below, s, fit => by
    rw [CostsFit] at fit
    rw [price, price]
    refine Run.exec_bind_congr rfl fun _ noted ends => ?_
    rw [Run.exec_noteAll] at ends
    cases ends
    exact Run.exec_bind_congr (priceAll_append_flat chain below (.int 0) _ fit) fun _ _ _ => rfl

/-- The flat estimator at the end of a chain changes no price. -/
theorem priceAll_append_flat (chain : List (Estimate σ)) :
    ∀ (visits : List Visit) (total : Number) (s : Session σ), CostsFitAll chain total visits s →
    (priceAll (chain ++ [.flat (.int 1)]) total visits).exec s = (priceAll chain total visits).exec s
  | [], total, _, _ => by rw [priceAll, priceAll]
  | v :: rest, total, s, fit => by
    rw [CostsFitAll] at fit
    rw [priceAll, priceAll]
    refine Run.exec_bind_congr (price_append_flat chain v s fit.1) fun added after priced => ?_
    cases added with
    | none => exact priceAll_append_flat chain rest total after (fit.2 none after priced total rfl)
    | some cost =>
      refine Run.exec_bind_congr rfl fun next between summed => ?_
      obtain ⟨sum, rfl⟩ := Run.exec_ofExcept_success summed
      exact priceAll_append_flat chain rest next _ (fit.2 (some cost) _ priced next sum)

end

end Visit

namespace Rule

/-- When an operation is scored from a session, no field that is come to costs an integer beyond the range of
doubles. -/
def CostsFit (rule : Rule σ) (schema : Schema) (fragments : List Fragment) (op : Operation)
    (s : Session σ) : Prop :=
  ∀ root, (rule.schema.getD schema).root? op.kind = some root → ∀ vars between,
    (op.variablesFor (rule.schema.getD schema) rule.vars).exec s = (.ok vars, between) →
    Visit.CostsFitAll rule.chain (.int 0) (Scope.expand ⟨rule.schema.getD schema, fragments, vars⟩ []
      (some root) op.selections) between

/-- The same of operations that are scored one after the other. -/
def CostsFitAll (rule : Rule σ) (schema : Schema) (fragments : List Fragment) :
    List Operation → Session σ → Prop
  | [], _ => True
  | op :: rest, s =>
    rule.CostsFit schema fragments op s ∧
    ∀ score? after, (rule.score? schema fragments op).exec s = (.ok score?, after) →
      CostsFitAll rule schema fragments rest after

variable {rule : Rule σ} {schema : Schema} {fragments : List Fragment}

theorem score?_append_flat {op : Operation} {s : Session σ}
    (fit : rule.CostsFit schema fragments op s) :
    ((rule.withChain (rule.chain ++ [.flat (.int 1)])).score? schema fragments op).exec s =
      (rule.score? schema fragments op).exec s := by
  cases rooted : (rule.schema.getD schema).root? op.kind with
  | none =>
    rw [score?_of_rootless op rooted, @score?_of_rootless _
      (rule.withChain (rule.chain ++ [Estimate.flat (.int 1)])) _ _ op rooted]
  | some root =>
    rw [score?_of_root op rooted, @score?_of_root _
      (rule.withChain (rule.chain ++ [Estimate.flat (.int 1)])) _ _ op _ rooted]
    refine Run.exec_bind_congr rfl fun vars between read => ?_
    refine Run.exec_bind_congr ?_ fun _ _ _ => rfl
    refine Run.exec_bind_congr ?_ fun _ _ _ => rfl
    exact Visit.priceAll_append_flat _ _ _ _ (fit root rooted vars between read)

/-- The flat estimator at the end of the chain changes no score. -/
theorem scored_append_flat {ops : List Operation} {s : Session σ}
    (fit : rule.CostsFitAll schema fragments ops s) :
    ((rule.withChain (rule.chain ++ [.flat (.int 1)])).scored schema fragments ops).exec s =
      (rule.scored schema fragments ops).exec s := by
  induction ops generalizing s with
  | nil => rfl
  | cons op rest ih =>
    rw [CostsFitAll] at fit
    rw [scored, scored]
    refine Run.exec_bind_congr (score?_append_flat fit.1) fun score? after ended => ?_
    exact Run.exec_bind_congr (ih (fit.2 score? after ended)) fun _ _ _ => rfl

/-- An estimator that declines can stand anywhere, if it leaves to the others what they share. -/
theorem scored_insert {before after : List (Estimate σ)} {extra : Estimate (σ × τ)}
    (parts : rule.chain = before ++ after) (declines : extra.Declines) (keeps : extra.KeepsToItself)
    (leaves : extra.LeavesArguments) (ops : List Operation) (s : Session σ) (own : τ) :
    let inserted := ((rule.withChain (before.map Estimate.onFirst ++ extra ::
      after.map Estimate.onFirst)).scored schema fragments ops).exec ⟨(s.memory, own), s.notices⟩
    inserted.1 = ((rule.scored schema fragments ops).exec s).1 ∧
      inserted.2.memory.1 = ((rule.scored schema fragments ops).exec s).2.memory := by
  have prices := prices_insert (declines.beside keeps leaves) (chainsMatch_onFirst before)
    (chainsMatch_onFirst after)
  rw [← parts] at prices
  have same := scored_matches tolerant_firstMemory prices schema fragments ops s
    ⟨(s.memory, own), s.notices⟩ rfl
  exact ⟨same.1.symm, same.2⟩

/-- Whatever operations a document has, with their scores in order: an estimator that always declines can be
inserted anywhere in the chain, and all scores and faults stay the same, as long as it leaves the arguments
as it finds them and keeps to a memory of its own; so they do if everything is dropped that stands behind an
estimator whose answers are finite numbers; and if the flat estimator with base one is appended, provided that
no cost is an integer beyond the range of doubles. What the other estimators remember stays the same as
well. -/
theorem declining_transparent (rule : Rule σ) (schema : Schema) (fragments : List Fragment)
    (ops : List Operation) :
    (∀ {τ : Type} (before after : List (Estimate σ)) (extra : Estimate (σ × τ)),
      rule.chain = before ++ after → extra.Declines → extra.KeepsToItself → extra.LeavesArguments →
      ∀ s own,
      let inserted := ((rule.withChain (before.map Estimate.onFirst ++ extra ::
        after.map Estimate.onFirst)).scored schema fragments ops).exec ⟨(s.memory, own), s.notices⟩
      inserted.1 = ((rule.scored schema fragments ops).exec s).1 ∧
        inserted.2.memory.1 = ((rule.scored schema fragments ops).exec s).2.memory) ∧
    (∀ (before after : List (Estimate σ)) (estimate : Estimate σ),
      rule.chain = before ++ estimate :: after → estimate.Settles → ∀ s,
      ((rule.withChain (before ++ [estimate])).scored schema fragments ops).exec s =
        (rule.scored schema fragments ops).exec s) ∧
    ∀ s, rule.CostsFitAll schema fragments ops s →
      ((rule.withChain (rule.chain ++ [.flat (.int 1)])).scored schema fragments ops).exec s =
        (rule.scored schema fragments ops).exec s := by
  refine ⟨?_, ?_, fun s fit => scored_append_flat fit⟩
  · intro τ before after extra parts declines keeps leaves s own
    exact scored_insert parts declines keeps leaves ops s own
  · intro before after estimate parts settles s
    have same : PricesMatch Eq rule.chain (before ++ [estimate]) := parts ▸ prices_drop settles
    exact ((scored_matches Run.tolerant_eq same schema fragments ops).exec_eq s).symm

/-- Between one that declines and one that fails on everything stands an estimator that settles. -/
def settled : Rule Memory :=
  ⟨[Formula.constant .null, .constant (.int 3), .inert].map Formula.estimate, ⟨.int 10, 10⟩, none,
    [("n", .int 2)]⟩

/-- An estimator that counts its calls and answers with a Boolean. -/
def counting : Estimate (Memory × Nat) := .reading fun _ => do
  modify fun memory => (memory.1, memory.2 + 1)
  return .bool true

theorem declining_transparent_settled :
    counting.Declines ∧ counting.KeepsToItself ∧ counting.LeavesArguments ∧
    (Formula.constant (.int 3)).estimate.Settles ∧
    settled.CostsFitAll itemSchema [] (nestedQuery 1).operations ⟨.empty, #[]⟩ ∧
    ∃ scored : List (Operation × Score), scored.map (·.2) = [⟨.int 3, 2⟩] ∧
    (((settled.withChain ([(Formula.constant .null).estimate].map Estimate.onFirst ++
      counting :: [(Formula.constant (.int 3)).estimate, Formula.inert.estimate].map
        Estimate.onFirst)).scored itemSchema [] (nestedQuery 1).operations).exec
          ⟨(.empty, 0), #[]⟩).1 = .ok scored ∧
    (((settled.withChain ([(Formula.constant .null).estimate] ++
      [(Formula.constant (.int 3)).estimate])).scored itemSchema []
        (nestedQuery 1).operations).exec ⟨.empty, #[]⟩).1 = .ok scored ∧
    (((settled.withChain (settled.chain ++ [.flat (.int 1)])).scored itemSchema []
      (nestedQuery 1).operations).exec ⟨.empty, #[]⟩).1 = .ok scored := by
  have declines : counting.Declines := fun _ _ => ⟨_, _, rfl, id⟩
  have keeps : counting.KeepsToItself := fun _ _ => rfl
  have leaves : counting.LeavesArguments := Estimate.leavesArguments_reading _
  have settles : (Formula.constant (.int 3)).estimate.Settles := by
    rintro _ _ _ _ ⟨⟩
    trivial
  have three : Number.InRange 3 := by decide +kernel
  have priced : ∀ (site : Site) child, (site.price settled.chain child).Returns (.int 3) := by
    intro site child
    have asked : (consult settled.chain (site.call child)).Returns (some (.int 3)) :=
      consult_of_null (.pure _) (consult_of_int (.pure _) three)
    exact asked.bind (.pure _)
  have fit : settled.CostsFitAll itemSchema [] (nestedQuery 1).operations ⟨.empty, #[]⟩ := by
    refine ⟨fun _ _ _ _ _ => Visit.costsFitAll_of_prices ?_ _ _ _, fun _ _ _ => trivial⟩
    intro site child s n after ended
    cases (priced site child).unique ended
    exact three
  obtain ⟨inserted, dropped, appended⟩ := declining_transparent settled itemSchema []
    (nestedQuery 1).operations
  have plain : ((settled.scored itemSchema [] (nestedQuery 1).operations).exec
      ⟨.empty, #[]⟩).1.toOption.map (·.map (·.2)) = some [⟨.int 3, 2⟩] := by
    decide +kernel
  have same := inserted [_] [_, _] counting rfl declines keeps leaves ⟨.empty, #[]⟩ 0
  rcases ended : (settled.scored itemSchema [] (nestedQuery 1).operations).exec ⟨.empty, #[]⟩ with
    ⟨fault | scored, after⟩
  · rw [ended] at plain
    cases plain
  rw [ended] at plain same
  refine ⟨declines, keeps, leaves, settles, fit, scored, Option.some.inj plain, same.1, ?_, ?_⟩
  · rw [dropped [_] [_] _ rfl settles, ended]
  · rw [appended _ fit, ended]

/-- An estimator that takes all arguments away and has no opinion. -/
def clearing : Estimate Memory := fun _ => return ⟨.null, []⟩

/-- An estimator that takes a step in the sequence of another one and has no opinion. -/
def advancing : Estimate Memory := .reading fun _ => do
  modify fun memory => memory.advance 0
  return .null

/-- The default estimators, with ten for the number of items. -/
def tenItems : Rule Memory :=
  ⟨Formula.defaults.map Formula.estimate, ⟨.int 1000, 10000⟩, none, [("n", .int 10)]⟩

/-- No opinion at first, and then five. -/
def hesitant : Rule Memory :=
  ⟨[(Formula.sequence 0 [.null, .int 5]).estimate], ⟨.int 1000, 10000⟩, none, []⟩

/-- The costs of the operations of a document. -/
def costs (rule : Rule Memory) (schema : Schema) (doc : Document) : Option (List Number) :=
  ((rule.scored schema doc.fragments doc.operations).exec ⟨.empty, #[]⟩).1.toOption.map
    (·.map (·.2.cost))

/-- Two estimators that always decline. In front of the others, one changes a cost through the arguments and
the other one through the memory. -/
theorem declining_interferes :
    clearing.Declines ∧
    (tenItems.costs itemSchema (nestedQuery 1) = some [.int 11] ∧
      (tenItems.withChain (clearing :: tenItems.chain)).costs itemSchema (nestedQuery 1) =
        some [.int 2]) ∧
    advancing.Declines ∧ advancing.LeavesArguments ∧
    (hesitant.costs itemSchema (nestedQuery 0) = some [.int 1] ∧
      (hesitant.withChain (advancing :: hesitant.chain)).costs itemSchema (nestedQuery 0) =
        some [.int 5]) := by
  refine ⟨fun _ _ => ⟨_, _, rfl, id⟩, ⟨?_, ?_⟩, fun _ _ => ⟨_, _, rfl, id⟩,
    Estimate.leavesArguments_reading _, ?_, ?_⟩
  all_goals decide +kernel

end Rule

end QueryCost
