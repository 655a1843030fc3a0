import Mathlib.Data.List.Forall2
import QueryCost.Proofs.Verdict

/-!
# Runs that match

Two runs may keep different memories and still end in the same way. A relation between their sessions says
what they have in common, and `Run.Matches` that both runs, from related sessions, end alike and leave related
sessions. Runs that are built in the same way from matching parts match (`Matches.bind`), so it is enough
to compare what is asked of the estimators: if two chains give every field matching prices, then they give
matching scores to selections and to operations.
-/
namespace QueryCost

variable {σ τ α β : Type}

/-- The session with further notices. -/
def Session.noting (s : Session σ) (notices : List Notice) : Session σ :=
  ⟨s.memory, s.notices ++ notices.toArray⟩

namespace Run

variable {S : Session σ → Session τ → Prop}

/-- From related sessions both runs end in the same way, and they leave related sessions. -/
def Matches (S : Session σ → Session τ → Prop) (x : Run σ α) (y : Run τ α) : Prop :=
  ∀ s t, S s t → (x.exec s).1 = (y.exec t).1 ∧ S (x.exec s).2 (y.exec t).2

/-- Sessions stay related if the same notices are added to both. -/
def Tolerant (S : Session σ → Session τ → Prop) : Prop :=
  ∀ s t notices, S s t → S (s.noting notices) (t.noting notices)

namespace Matches

theorem pure (a : α) : Matches S (Pure.pure a) (Pure.pure a) := fun _ _ related => ⟨rfl, related⟩

theorem ofExcept (e : Except Fault α) : Matches S (Run.ofExcept e) (Run.ofExcept e) := by
  intro s t related
  rw [exec_ofExcept, exec_ofExcept]
  exact ⟨rfl, related⟩

theorem noteAll (tolerant : Tolerant S) (notices : List Notice) :
    Matches S (Run.noteAll notices) (Run.noteAll notices) := by
  intro s t related
  rw [exec_noteAll, exec_noteAll]
  exact ⟨rfl, tolerant s t notices related⟩

theorem note (tolerant : Tolerant S) (notice : Notice) :
    Matches S (Run.note notice) (Run.note notice) :=
  noteAll tolerant [notice]

theorem bind {x : Run σ α} {y : Run τ α} {f : α → Run σ β} {g : α → Run τ β}
    (first : Matches S x y) (rest : ∀ a, Matches S (f a) (g a)) : Matches S (x >>= f) (y >>= g) := by
  intro s t related
  have ends := first s t related
  rw [exec_bind, exec_bind]
  rcases left : x.exec s with ⟨outcome, s'⟩
  rcases right : y.exec t with ⟨outcome', t'⟩
  rw [left, right] at ends
  obtain ⟨same, related⟩ := ends
  dsimp only at same related
  subst same
  cases outcome with
  | error fault => exact ⟨rfl, related⟩
  | ok a => exact rest a s' t' related

theorem refl (x : Run σ α) : Matches Eq x x := by
  rintro s _ rfl
  exact ⟨rfl, rfl⟩

/-- Runs that match on the same sessions are the same. -/
theorem exec_eq {x y : Run σ α} (same : Matches Eq x y) (s : Session σ) : x.exec s = y.exec s :=
  Prod.ext (same s s rfl).1 (same s s rfl).2

end Matches

theorem tolerant_eq : Tolerant (Eq : Session σ → Session σ → Prop) := by
  rintro s _ notices rfl
  rfl

end Run

open Run (Matches Tolerant)

/-- The sessions differ in their notices at most. -/
def SameMemory (s t : Session σ) : Prop := s.memory = t.memory

theorem tolerant_sameMemory : Tolerant (SameMemory : Session σ → Session σ → Prop) :=
  fun _ _ _ same => same

/-- No run sees the notices before it. -/
theorem Run.Matches.sameMemory (x : Run σ α) : Matches SameMemory x x :=
  fun _ _ same => ⟨congrArg (fun memory => (x memory).outcome) same,
    congrArg (fun memory => (x memory).memory) same⟩

/-- Chains of the same length whose estimators match one by one. -/
def ChainsMatch (S : Session σ → Session τ → Prop) :
    List (Estimate σ) → List (Estimate τ) → Prop :=
  List.Forall₂ fun e e' => ∀ call, Matches S (e call) (e' call)

/-- Two chains price every field alike. -/
def PricesMatch (S : Session σ → Session τ → Prop) (chain : List (Estimate σ))
    (chain' : List (Estimate τ)) : Prop :=
  ∀ (site : Site) (child : Number), Matches S (site.price chain child) (site.price chain' child)

section Prices

variable {S : Session σ → Session τ → Prop} {chain : List (Estimate σ)} {chain' : List (Estimate τ)}

/-- Chains match if their first parts do and their second parts match for every call that is left to them. -/
theorem consult_append_matches {after : List (Estimate σ)} {after' : List (Estimate τ)}
    (first : ChainsMatch S chain chain')
    (others : ∀ call, Matches S (consult after call) (consult after' call)) (call : Call) :
    Matches S (consult (chain ++ after) call) (consult (chain' ++ after') call) := by
  induction first generalizing call with
  | nil => exact others call
  | cons same _ ih =>
    rw [List.cons_append, List.cons_append, consult, consult]
    refine (same call).bind fun reply => (Matches.ofExcept _).bind fun found => ?_
    cases found with
    | none => exact ih _
    | some cost => exact .pure _

theorem consult_matches (chains : ChainsMatch S chain chain') (call : Call) :
    Matches S (consult chain call) (consult chain' call) := by
  have nothing : ∀ call, Matches S (consult [] call) (consult [] call) := fun _ => .pure none
  have whole := consult_append_matches chains nothing call
  rwa [List.append_nil, List.append_nil] at whole

/-- A field costs what the chain says, or one more than its children. -/
theorem Site.price_matches {site : Site} {child : Number}
    (consulted : Matches S (consult chain (site.call child)) (consult chain' (site.call child))) :
    Matches S (site.price chain child) (site.price chain' child) := by
  refine consulted.bind fun found => ?_
  cases found with
  | none => exact .ofExcept _
  | some cost => exact .pure cost

theorem ChainsMatch.prices (chains : ChainsMatch S chain chain') : PricesMatch S chain chain' :=
  fun _ _ => Site.price_matches (consult_matches chains _)

namespace Visit

mutual

theorem price_matches (tolerant : Tolerant S) (prices : PricesMatch S chain chain') : ∀ v : Visit,
    Matches S (v.price chain) (v.price chain')
  | .excluded notices => by
    unfold price
    exact (Matches.noteAll tolerant notices).bind fun _ => .pure _
  | .unresolved notices => by
    unfold price
    exact (Matches.noteAll tolerant notices).bind fun _ => .pure _
  | .unexpanded notices => by
    unfold price
    exact (Matches.noteAll tolerant notices).bind fun _ => .pure _
  | .field notices site below => by
    unfold price
    refine (Matches.noteAll tolerant notices).bind fun _ => ?_
    refine (priceAll_matches tolerant prices below (.int 0)).bind fun child => ?_
    exact (prices site child).bind fun _ => .pure _
  | .group notices below => by
    unfold price
    refine (Matches.noteAll tolerant notices).bind fun _ => ?_
    exact (priceAll_matches tolerant prices below (.int 0)).bind fun _ => .pure _

/-- Chains that price fields alike price visits alike. -/
theorem priceAll_matches (tolerant : Tolerant S) (prices : PricesMatch S chain chain') :
    ∀ (visits : List Visit) (total : Number),
    Matches S (priceAll chain total visits) (priceAll chain' total visits)
  | [], total => by
    unfold priceAll
    exact .pure total
  | v :: rest, total => by
    unfold priceAll
    refine (price_matches tolerant prices v).bind fun added => ?_
    cases added with
    | none => exact priceAll_matches tolerant prices rest total
    | some cost =>
      exact (Matches.ofExcept _).bind fun next => priceAll_matches tolerant prices rest next

end

end Visit

theorem Scope.score_matches (tolerant : Tolerant S) (prices : PricesMatch S chain chain')
    (scope : Scope) (path : List String) (parent : Option TypeDef) (selections : List Selection) :
    Matches S (scope.score chain path parent selections)
      (scope.score chain' path parent selections) := by
  unfold Scope.score
  exact (Visit.priceAll_matches tolerant prices _ _).bind fun _ => .pure _

end Prices

namespace Rule

variable {S : Session σ → Session τ → Prop} {rule : Rule σ}

/-- The rule with another chain. -/
def withChain (rule : Rule σ) (chain : List (Estimate τ)) : Rule τ :=
  ⟨chain, rule.limits, rule.schema, rule.vars⟩

theorem variablesFor_matches (tolerant : Tolerant S) (schema : Schema) (op : Operation)
    (sent : Entries) :
    Matches S (op.variablesFor schema sent) (op.variablesFor schema sent) := by
  unfold Operation.variablesFor
  cases op.coerceVariables? schema sent with
  | none => exact (Matches.note tolerant _).bind fun _ => .pure _
  | some coerced => exact .pure coerced

theorem score?_matches (tolerant : Tolerant S) {chain : List (Estimate τ)}
    (prices : PricesMatch S rule.chain chain) (schema : Schema) (fragments : List Fragment)
    (op : Operation) :
    Matches S (rule.score? schema fragments op)
      ((rule.withChain chain).score? schema fragments op) := by
  cases rooted : (rule.schema.getD schema).root? op.kind with
  | none =>
    rw [score?_of_rootless op rooted, @score?_of_rootless _ (rule.withChain chain) _ _ op rooted]
    exact .pure none
  | some root =>
    rw [score?_of_root op rooted, @score?_of_root _ (rule.withChain chain) _ _ op _ rooted]
    refine (variablesFor_matches tolerant _ op rule.vars).bind fun vars => ?_
    refine (Scope.score_matches tolerant prices _ _ _ _).bind fun score => ?_
    exact (Matches.note tolerant _).bind fun _ => .pure _

/-- All operations of a document get the same scores. -/
theorem scored_matches (tolerant : Tolerant S) {chain : List (Estimate τ)}
    (prices : PricesMatch S rule.chain chain) (schema : Schema) (fragments : List Fragment)
    (ops : List Operation) :
    Matches S (rule.scored schema fragments ops)
      ((rule.withChain chain).scored schema fragments ops) := by
  induction ops with
  | nil => exact .pure []
  | cons op rest ih =>
    unfold scored
    refine (score?_matches tolerant prices schema fragments op).bind fun score? => ?_
    refine ih.bind fun others => ?_
    cases score? with
    | none => exact .pure _
    | some score => exact .pure _

end Rule

end QueryCost
