import QueryCost.Proofs.Decided

/-!
# Tariffs

A chain whose prices are integers, and follow from the field and the cost of its children alone, charges by
a tariff. The price of visits is then a bill: the sum of what the visits cost one by one, each computed from
the bills below it. A tariff need not have a price for everything, since a cost beyond the range of doubles
is a fault; a bill with such a field in it has that fault.
-/
namespace QueryCost

variable {σ : Type}

/-- What a field costs above children of an integer cost. -/
abbrev Tariff := Site → Int → Except Fault Int

/-- Bills of visits are in `D`. -/
structure Tariff.Within (tariff : Tariff) (D : Int → Prop) : Prop where
  zero : D 0
  one : D 1
  add : ∀ {m n}, D m → D n → D (m + n)
  cost : ∀ {site child cost}, D child → tariff site child = .ok cost → D cost

namespace Visit

mutual

/-- What a visit adds to a bill. -/
def bill (tariff : Tariff) : Visit → Except Fault Int
  | .excluded _ => return 0
  | .unresolved _ => return 1
  | .unexpanded _ => return 0
  | .field _ site below => do tariff site (← billAll tariff below)
  | .group _ below => billAll tariff below

def billAll (tariff : Tariff) : List Visit → Except Fault Int
  | [] => return 0
  | v :: rest => do
    let cost ← bill tariff v
    return cost + (← billAll tariff rest)

end

variable {tariff : Tariff}

theorem billAll_cons_success {v : Visit} {rest : List Visit} {total : Int}
    (success : billAll tariff (v :: rest) = .ok total) :
    ∃ cost others, bill tariff v = .ok cost ∧ billAll tariff rest = .ok others ∧
      total = cost + others := by
  rw [billAll] at success
  obtain ⟨cost, first, success⟩ := except_bind_success success
  obtain ⟨others, second, success⟩ := except_bind_success success
  exact ⟨cost, others, first, second, (Except.ok.inj success).symm⟩

theorem billAll_cons {v : Visit} {rest : List Visit} {cost others : Int}
    (first : bill tariff v = .ok cost) (second : billAll tariff rest = .ok others) :
    billAll tariff (v :: rest) = .ok (cost + others) := by
  rw [billAll, first, second]
  rfl

theorem bill_field_success {notices : List Notice} {site : Site} {below : List Visit} {total : Int}
    (success : bill tariff (.field notices site below) = .ok total) :
    ∃ child, billAll tariff below = .ok child ∧ tariff site child = .ok total := by
  rw [bill] at success
  exact except_bind_success success

mutual

theorem bill_within {D : Int → Prop} (within : tariff.Within D) : ∀ (v : Visit) {cost : Int},
    bill tariff v = .ok cost → D cost
  | .excluded _, _, success => by
    cases success
    exact within.zero
  | .unresolved _, _, success => by
    cases success
    exact within.one
  | .unexpanded _, _, success => by
    cases success
    exact within.zero
  | .field _ site below, _, success => by
    obtain ⟨child, children, priced⟩ := bill_field_success success
    exact within.cost (billAll_within within below children) priced
  | .group _ below, _, success => by
    rw [bill] at success
    exact billAll_within within below success

theorem billAll_within {D : Int → Prop} (within : tariff.Within D) :
    ∀ (visits : List Visit) {total : Int}, billAll tariff visits = .ok total → D total
  | [], _, success => by
    cases success
    exact within.zero
  | v :: rest, _, success => by
    obtain ⟨cost, others, first, second, rfl⟩ := billAll_cons_success success
    exact within.add (bill_within within v first) (billAll_within within rest second)

end

mutual

theorem bill_exists {D : Int → Prop} (within : tariff.Within D)
    (total : ∀ site child, D child → ∃ cost, tariff site child = .ok cost) : ∀ v : Visit,
    ∃ cost, bill tariff v = .ok cost
  | .excluded _ => ⟨0, rfl⟩
  | .unresolved _ => ⟨1, rfl⟩
  | .unexpanded _ => ⟨0, rfl⟩
  | .field _ site below => by
    obtain ⟨child, children⟩ := billAll_exists within total below
    obtain ⟨cost, priced⟩ := total site child (billAll_within within below children)
    refine ⟨cost, ?_⟩
    rw [bill, children]
    exact priced
  | .group _ below => by
    rw [bill]
    exact billAll_exists within total below

/-- There is a bill for all visits if there is a price for every field. -/
theorem billAll_exists {D : Int → Prop} (within : tariff.Within D)
    (total : ∀ site child, D child → ∃ cost, tariff site child = .ok cost) :
    ∀ visits : List Visit, ∃ sum, billAll tariff visits = .ok sum
  | [] => ⟨0, rfl⟩
  | v :: rest => by
    obtain ⟨cost, first⟩ := bill_exists within total v
    obtain ⟨others, second⟩ := billAll_exists within total rest
    exact ⟨cost + others, billAll_cons first second⟩

end

end Visit

/-- Above children whose cost is in `D`, the chain prices every field by the tariff, from every session.
All costs that come of it are in `D` again. -/
structure Charges (chain : List (Estimate σ)) (tariff : Tariff) (D : Int → Prop) : Prop
    extends tariff.Within D where
  price : ∀ {site : Site} {child}, D child →
    (site.price chain (.int child)).Decides ((tariff site child).map .int)

namespace Charges

open Visit (bill billAll billAll_within)

variable {chain : List (Estimate σ)} {tariff : Tariff} {D : Int → Prop}

mutual

/-- A visit adds what its bill says, where nothing counts as zero. -/
theorem price_decides (charges : Charges chain tariff D) : ∀ v : Visit,
    ∃ added, (v.price chain).Decides added ∧
      added.map (·.getD (.int 0)) = (bill tariff v).map .int
  | .excluded notices => by
    unfold Visit.price
    exact ⟨.ok none, .bind_ok (.noteAll notices) (.pure none), rfl⟩
  | .unresolved notices => by
    unfold Visit.price
    exact ⟨.ok (some (.int 1)), .bind_ok (.noteAll notices) (.pure _), rfl⟩
  | .unexpanded notices => by
    unfold Visit.price
    exact ⟨.ok none, .bind_ok (.noteAll notices) (.pure none), rfl⟩
  | .field notices site below => by
    unfold Visit.price
    have children := charges.priceAll_decides below charges.zero
    cases below_bill : billAll tariff below with
    | error fault =>
      rw [below_bill] at children
      refine ⟨.error fault, .bind_ok (.noteAll notices) (.bind_error _ children), ?_⟩
      rw [bill, below_bill]
      rfl
    | ok child =>
      rw [below_bill, Except.map, Int.zero_add] at children
      have priced : (site.price chain (.int child)).Decides ((tariff site child).map .int) :=
        charges.price (billAll_within charges.toWithin below below_bill)
      have total : bill tariff (.field notices site below) = tariff site child := by
        rw [bill, below_bill]
        rfl
      rw [total]
      cases cost : tariff site child with
      | error fault =>
        rw [cost] at priced
        exact ⟨.error fault,
          .bind_ok (.noteAll notices) (.bind_ok children (.bind_error _ priced)), rfl⟩
      | ok n =>
        rw [cost] at priced
        exact ⟨.ok (some (.int n)),
          .bind_ok (.noteAll notices) (.bind_ok children (.bind_ok priced (.pure _))), rfl⟩
  | .group notices below => by
    unfold Visit.price
    rw [bill]
    have children := charges.priceAll_decides below charges.zero
    cases total : billAll tariff below with
    | error fault =>
      rw [total] at children
      exact ⟨.error fault, .bind_ok (.noteAll notices) (.bind_error _ children), rfl⟩
    | ok n =>
      rw [total, Except.map, Int.zero_add] at children
      exact ⟨.ok (some (.int n)), .bind_ok (.noteAll notices) (.bind_ok children (.pure _)), rfl⟩

/-- Pricing visits adds their bill to the total. -/
theorem priceAll_decides (charges : Charges chain tariff D) : ∀ (visits : List Visit) {total : Int},
    D total → (Visit.priceAll chain (.int total) visits).Decides
      ((billAll tariff visits).map fun n => .int (total + n))
  | [], total, _ => by
    unfold Visit.priceAll
    simpa [billAll, Except.map, pure, Except.pure] using Run.Decides.pure (σ := σ) (Number.int total)
  | v :: rest, total, inside => by
    unfold Visit.priceAll
    obtain ⟨added, first, sum⟩ := charges.price_decides v
    cases cost : bill tariff v with
    | error fault =>
      rw [cost] at sum
      cases added with
      | ok cost? => cases sum
      | error other =>
        cases sum
        rw [billAll, cost]
        exact .bind_error _ first
    | ok n =>
      have next : (billAll tariff (v :: rest)).map (fun k => Number.int (total + k)) =
          (billAll tariff rest).map fun k => .int (total + n + k) := by
        rw [billAll, cost]
        cases billAll tariff rest with
        | error fault => rfl
        | ok others =>
          simp only [bind, Except.bind, pure, Except.pure, Except.map, Int.add_assoc]
      have others := charges.priceAll_decides rest
        (charges.add inside (Visit.bill_within charges.toWithin v cost))
      rw [cost] at sum
      rw [next]
      cases added with
      | error fault => cases sum
      | ok cost? =>
        cases cost? with
        | none =>
          obtain rfl : 0 = n := Number.int.inj (Except.ok.inj sum)
          rw [Int.add_zero] at others ⊢
          exact .bind_ok first others
        | some x =>
          obtain rfl : x = .int n := Except.ok.inj sum
          exact .bind_ok first (.bind_ok (.ofExcept _) others)

end

/-- The score of selections is the bill of their visits, and the number of these. -/
theorem score_decides (charges : Charges chain tariff D) (scope : Scope) (path : List String)
    (parent : Option TypeDef) (selections : List Selection) :
    (scope.score chain path parent selections).Decides
      ((billAll tariff (scope.expand path parent selections)).map fun total =>
        ⟨.int total, Visit.nodesAll (scope.expand path parent selections)⟩) := by
  have priced := charges.priceAll_decides (scope.expand path parent selections) charges.zero
  unfold Scope.score
  cases total : billAll tariff (scope.expand path parent selections) with
  | error fault =>
    rw [total] at priced
    exact .bind_error _ priced
  | ok n =>
    rw [total, Except.map, Int.zero_add] at priced
    exact .bind_ok priced (.pure _)

theorem score?_decides {rule : Rule σ} (charges : Charges rule.chain tariff D) {schema : Schema}
    {root : TypeDef} (fragments : List Fragment) (op : Operation)
    (rooted : (rule.schema.getD schema).root? op.kind = some root) :
    (rule.score? schema fragments op).Decides
      ((billAll tariff
          ((rule.scope schema fragments op).expand [] (some root) op.selections)).map fun total =>
        some ⟨.int total, Visit.nodesAll
          ((rule.scope schema fragments op).expand [] (some root) op.selections)⟩) := by
  have scored := charges.score_decides (rule.scope schema fragments op) [] (some root) op.selections
  rw [Rule.score?_of_root op rooted]
  refine .bind_ok (.of_returns (Rule.variablesFor_returns _ _ _)) ?_
  cases total : billAll tariff
      ((rule.scope schema fragments op).expand [] (some root) op.selections) with
  | error fault =>
    rw [total] at scored
    exact .bind_error _ scored
  | ok n =>
    rw [total] at scored
    exact .bind_ok scored (.bind_ok (.note _) (.pure _))

/-- With a price for every field, there is a score for every operation with a root type. -/
theorem score?_returns {rule : Rule σ} (charges : Charges rule.chain tariff D)
    (total : ∀ site child, D child → ∃ cost, tariff site child = .ok cost) (schema : Schema)
    (fragments : List Fragment) (op : Operation) :
    ∃ score?, (rule.score? schema fragments op).Returns score? := by
  cases rooted : (rule.schema.getD schema).root? op.kind with
  | none =>
    rw [Rule.score?_of_rootless op rooted]
    exact ⟨none, .pure none⟩
  | some root =>
    obtain ⟨n, billed⟩ := Visit.billAll_exists charges.toWithin total
      ((rule.scope schema fragments op).expand [] (some root) op.selections)
    have decided := charges.score?_decides fragments op rooted
    rw [billed] at decided
    exact ⟨_, decided.returns⟩

end Charges

/-- Without an opinion of the estimator, the tariff is one more than the children. -/
theorem Rule.undecided_price (site : Site) (child : Int) :
    (site.price undecided.chain (.int child)).Decides (.ok (.int (1 + child))) :=
  .of_returns (.bind (consult_of_null (.pure _) (.pure none)) (.ofExcept rfl))

end QueryCost
