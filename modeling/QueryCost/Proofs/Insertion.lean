import QueryCost.Proofs.Edits
import QueryCost.Proofs.Tariffs

/-!
# Insertions

One more selection, anywhere in a document, makes no operation cheaper or smaller, if no field has a negative
cost and no field costs less above children that cost more. The new selection may stand in a fragment that is
expanded many times, and it may spread a fragment that leads back to it; the other selections are expanded as
before. So the visits before the insertion are among those after it, in the same order and below the same
fields, and the higher bills below are handed on by every field above.
-/
namespace QueryCost

variable {σ : Type}

/-- The edit that puts a selection in front of others. -/
def Selection.Insertion (selections selections' : List Selection) : Prop :=
  ∃ s, selections' = s :: selections

namespace Tariff

/-- No cost is negative, and above children that cost less a field has a price that is not higher. -/
def Rising (tariff : Tariff) : Prop :=
  ∀ site child child' cost', 0 ≤ child → child ≤ child' → tariff site child' = .ok cost' →
    ∃ cost, tariff site child = .ok cost ∧ 0 ≤ cost ∧ cost ≤ cost'

theorem Rising.within {tariff : Tariff} (rising : tariff.Rising) : tariff.Within (0 ≤ ·) where
  zero := Int.le_refl 0
  one := by decide
  add := Int.add_nonneg
  cost := by
    intro site child cost nonneg priced
    obtain ⟨same, again, bound, -⟩ := rising site child child cost nonneg (Int.le_refl _) priced
    rw [priced] at again
    cases again
    exact bound

end Tariff

namespace Visit

/-- The visits are no more than the others, and their bill is not higher. -/
structure NotAbove (tariff : Tariff) (visits visits' : List Visit) : Prop where
  nodes : nodesAll visits ≤ nodesAll visits'
  bill : ∀ total', billAll tariff visits' = .ok total' →
    ∃ total, billAll tariff visits = .ok total ∧ total ≤ total'

variable {tariff : Tariff}

namespace NotAbove

theorem insert (rising : tariff.Rising) (v : Visit) (visits : List Visit) :
    NotAbove tariff visits (v :: visits) where
  nodes := by
    rw [nodesAll]
    omega
  bill := by
    intro total' success
    obtain ⟨cost, others, first, second, rfl⟩ := billAll_cons_success success
    have nonneg : 0 ≤ cost := bill_within rising.within v first
    exact ⟨others, second, by omega⟩

/-- One visit in place of another. -/
theorem head {v v' : Visit} (rest : List Visit) (nodes : v.nodes ≤ v'.nodes)
    (bill : ∀ cost', v'.bill tariff = .ok cost' → ∃ cost, v.bill tariff = .ok cost ∧ cost ≤ cost') :
    NotAbove tariff (v :: rest) (v' :: rest) where
  nodes := by
    rw [nodesAll, nodesAll]
    omega
  bill := by
    intro total' success
    obtain ⟨cost', others, first, second, rfl⟩ := billAll_cons_success success
    obtain ⟨cost, lower, le⟩ := bill cost' first
    exact ⟨cost + others, billAll_cons lower second, by omega⟩

theorem congruence (rising : tariff.Rising) : Congruence (NotAbove tariff) where
  refl visits := ⟨Nat.le_refl _, fun total success => ⟨total, success, Int.le_refl _⟩⟩
  trans := by
    intro xs ys zs first second
    refine ⟨Nat.le_trans first.nodes second.nodes, fun total success => ?_⟩
    obtain ⟨between, middle, le⟩ := second.bill total success
    obtain ⟨lowest, least, le'⟩ := first.bill between middle
    exact ⟨lowest, least, Int.le_trans le' le⟩
  later := by
    intro v rest rest' others
    refine ⟨?_, fun total success => ?_⟩
    · have := others.nodes
      rw [nodesAll, nodesAll]
      omega
    · obtain ⟨cost, higher, first, second, rfl⟩ := billAll_cons_success success
      obtain ⟨lower, least, le⟩ := others.bill higher second
      exact ⟨cost + lower, billAll_cons first least, by omega⟩
  field := by
    intro notices site rest below below' inner
    refine head rest ?_ fun cost' success => ?_
    · have := inner.nodes
      rw [Visit.nodes, Visit.nodes]
      omega
    · obtain ⟨child', children', priced'⟩ := bill_field_success success
      obtain ⟨child, children, le⟩ := inner.bill child' children'
      have nonneg : 0 ≤ child := billAll_within rising.within below children
      obtain ⟨cost, priced, -, le'⟩ := rising site child child' cost' nonneg le priced'
      refine ⟨cost, ?_, le'⟩
      rw [Visit.bill, children]
      exact priced
  group := by
    intro notices rest below below' inner
    refine head rest ?_ fun cost' success => ?_
    · have := inner.nodes
      rw [Visit.nodes, Visit.nodes]
      omega
    · rw [Visit.bill] at success ⊢
      exact inner.bill cost' success

end NotAbove

end Visit

namespace Scope

open Visit (NotAbove)

variable {scope : Scope} {tariff : Tariff}

/-- Insertions into fragments and into the selections themselves do not lower the bill. -/
theorem notAbove_inserted (rising : tariff.Rising) {table : List Fragment}
    (tables : List.Forall₂ (Fragment.Related (Selection.Changed Selection.Insertion))
      scope.fragments table) {selections selections' : List Selection}
    (changed : Selection.Changed Selection.Insertion selections selections')
    (path : List String) (parent : Option TypeDef) :
    NotAbove tariff (scope.expand path parent selections)
      ((scope.onTable table).expand path parent selections') := by
  refine expand_changed (NotAbove.congruence rising) ?_ tables changed path parent
  rintro xs ys ⟨s, rfl⟩ path parent
  rw [expand_cons]
  exact NotAbove.insert rising _ _

end Scope

/-- Neither the cost nor the number of nodes is above that of the other score. -/
structure Score.NotAbove (score score' : Score) : Prop where
  cost : score.cost.le score'.cost = true
  nodes : score.nodes ≤ score'.nodes

theorem Limits.Exceeded.mono {limits : Limits} {score score' : Score}
    (beyond : limits.Exceeded score) (le : score.NotAbove score') : limits.Exceeded score' := by
  rcases beyond with nodes | cost
  · exact .inl (Nat.lt_of_lt_of_le nodes le.nodes)
  · exact .inr (Number.lt_of_lt_of_le cost le.cost)

theorem Limits.within_of_notAbove {limits : Limits} {scored scored' : List (Operation × Score)}
    (lower : List.Forall₂ (fun x x' => x.2.NotAbove x'.2) scored scored')
    (within : ∀ x' ∈ scored', ¬ limits.Exceeded x'.2) : ∀ x ∈ scored, ¬ limits.Exceeded x.2 := by
  induction lower with
  | nil => simp
  | cons le _ ih =>
    rw [List.forall_mem_cons] at within ⊢
    exact ⟨fun beyond => within.1 (beyond.mono le), ih within.2⟩

namespace Rule

open Visit (billAll)

variable {rule : Rule σ} {tariff : Tariff} {schema : Schema} {fragments table : List Fragment}

/-- An operation that gets a score after an insertion got one before it, which is not above that. -/
theorem score?_inserted (charges : Charges rule.chain tariff (0 ≤ ·)) (rising : tariff.Rising)
    (tables : List.Forall₂ (Fragment.Related (Selection.Changed Selection.Insertion)) fragments table)
    {op op' : Operation} (related : Operation.Related (Selection.Changed Selection.Insertion) op op')
    {t after' : Session σ} {score?' : Option Score}
    (success : (rule.score? schema table op').exec t = (.ok score?', after')) (s : Session σ) :
    ∃ score? after, (rule.score? schema fragments op).exec s = (.ok score?, after) ∧
      Option.Rel Score.NotAbove score? score?' := by
  obtain ⟨other, changed⟩ := related
  generalize op'.selections = selections' at other changed
  subst other
  cases rooted : (rule.schema.getD schema).root? op.kind with
  | none =>
    rw [score?_of_rootless { op with selections := selections' } rooted] at success
    obtain ⟨rfl, -⟩ := Run.exec_pure_success success
    rw [score?_of_rootless op rooted]
    exact ⟨none, s, rfl, .none⟩
  | some root =>
    -- The operation keeps its variables, so the two scopes differ in their fragments only.
    have le : Visit.NotAbove tariff
        ((rule.scope schema fragments op).expand [] (some root) op.selections)
        ((rule.scope schema table { op with selections := selections' }).expand [] (some root)
          selections') :=
      Scope.notAbove_inserted rising tables changed [] (some root)
    have after := charges.score?_decides table { op with selections := selections' } rooted
    have before := charges.score?_decides fragments op rooted
    have ended := after.eq_of_exec success
    dsimp only at ended
    cases total' : billAll tariff ((rule.scope schema table
        { op with selections := selections' }).expand [] (some root) selections') with
    | error fault =>
      rw [total'] at ended
      cases ended
    | ok n' =>
      rw [total'] at ended
      obtain rfl := Except.ok.inj ended
      obtain ⟨n, total, lower⟩ := le.bill n' total'
      rw [total] at before
      obtain ⟨rest, scored⟩ := before.exec_eq s
      exact ⟨_, rest, scored, .some ⟨Number.le_int lower, le.nodes⟩⟩

theorem scored_inserted (charges : Charges rule.chain tariff (0 ≤ ·)) (rising : tariff.Rising)
    (tables : List.Forall₂ (Fragment.Related (Selection.Changed Selection.Insertion)) fragments table)
    {ops ops' : List Operation}
    (related : List.Forall₂ (Operation.Related (Selection.Changed Selection.Insertion)) ops ops')
    {t after' : Session σ} {scored' : List (Operation × Score)}
    (success : (rule.scored schema table ops').exec t = (.ok scored', after')) (s : Session σ) :
    ∃ scored after, (rule.scored schema fragments ops).exec s = (.ok scored, after) ∧
      List.Forall₂ (fun x x' => x.2.NotAbove x'.2) scored scored' := by
  induction related generalizing t after' scored' s with
  | nil =>
    obtain ⟨rfl, -⟩ := Run.exec_pure_success success
    exact ⟨[], s, rfl, .nil⟩
  | @cons op op' ops ops' first others ih =>
    obtain ⟨score?', _, priced', success⟩ := Run.exec_bind_success success
    obtain ⟨others', _, remaining', success⟩ := Run.exec_bind_success success
    obtain ⟨score?, between, priced, le⟩ := score?_inserted charges rising tables first priced' s
    obtain ⟨others, after, remaining, lower⟩ := ih remaining' between
    unfold scored
    rw [Run.exec_bind_ok _ priced, Run.exec_bind_ok _ remaining]
    cases le with
    | none =>
      obtain ⟨rfl, -⟩ := Run.exec_pure_success success
      exact ⟨others, after, rfl, lower⟩
    | some le =>
      obtain ⟨rfl, -⟩ := Run.exec_pure_success success
      exact ⟨_, after, rfl, .cons le lower⟩

/-- One more selection in an operation or in a fragment, at any depth, lowers no score. An operation that
gets a score afterwards got one before, of a cost and of a number of nodes that are not above it. So a check
that comes to an end afterwards did so before, and a document that was reported still is. If the tariff has
a price for every field then all operations get their scores. -/
theorem check_inserted_not_lower (rule : Rule σ) (tariff : Tariff)
    (charges : ∀ (site : Site) (child : Int), 0 ≤ child →
      (site.price rule.chain (.int child)).Decides ((tariff site child).map .int))
    (rising : tariff.Rising) (schema : Schema) {doc doc' : Document}
    (inserted : doc.Edited Selection.Insertion doc') :
    List.Forall₂ (fun op op' => ∀ t score?' after',
        (rule.score? schema doc'.fragments op').exec t = (.ok score?', after') →
        ∀ s, ∃ score? after, (rule.score? schema doc.fragments op).exec s = (.ok score?, after) ∧
          Option.Rel Score.NotAbove score? score?')
      doc.operations doc'.operations ∧
    (∀ t p' after', (rule.check schema doc').exec t = (.ok p', after') →
      ∀ s, ∃ p after, (rule.check schema doc).exec s = (.ok p, after) ∧
        (p'.violation = none → p.violation = none)) ∧
    ((∀ site child, 0 ≤ child → ∃ cost, tariff site child = .ok cost) →
      (∀ op ∈ doc'.operations, ∃ score?, (rule.score? schema doc'.fragments op).Returns score?) ∧
      ∃ p, (rule.check schema doc').Returns p) := by
  have charges : Charges rule.chain tariff (0 ≤ ·) :=
    { rising.within with price := fun nonneg => charges _ _ nonneg }
  refine ⟨?_, ?_, ?_⟩
  · refine inserted.operations.imp fun op op' related t score?' after' success s => ?_
    exact score?_inserted charges rising inserted.fragments related success s
  · intro t p' after' success s
    obtain ⟨scored', priced', rfl⟩ := check_success success
    obtain ⟨scored, after, priced, lower⟩ :=
      scored_inserted charges rising inserted.fragments inserted.operations priced' s
    refine ⟨_, after, check_of_scored priced, ?_⟩
    rw [Progress.recordAll_violation_eq_none_iff rfl, Progress.recordAll_violation_eq_none_iff rfl]
    exact Limits.within_of_notAbove lower
  · intro total
    have priced := fun op (_ : op ∈ doc'.operations) =>
      charges.score?_returns total schema doc'.fragments op
    exact ⟨priced, check_returns priced⟩

/-- An operation that selects the field and spreads a fragment of the given selections. -/
def spreading (selections : List Selection) : Document :=
  ⟨[.operation ⟨.query, none, [], [], [.spread "F" [], .field ⟨none, "a", [], []⟩ []], ⟨1, 1⟩⟩,
    .fragment ⟨"F", "Query", [], selections⟩]⟩

/-- The fragment comes to spread itself; the document was too large before, and stays so. -/
theorem check_inserted_not_lower_cycle :
    ∃ p, (undecided.check queryOnly (spreading [.field ⟨none, "a", [], []⟩ [], .spread "F" []])).Returns
      p ∧ p.violation ≠ none := by
  have rising : Tariff.Rising fun _ child => .ok (1 + child) := by
    intro site child child' cost' nonneg le priced'
    cases priced'
    exact ⟨1 + child, rfl, by omega, by omega⟩
  have inserted : (spreading [.field ⟨none, "a", [], []⟩ []]).Edited Selection.Insertion
      (spreading [.field ⟨none, "a", [], []⟩ [], .spread "F" []]) :=
    .later _ (.fragment _ [] (.later _ (.here ⟨.spread "F" [], rfl⟩)))
  obtain ⟨-, kept, total⟩ := check_inserted_not_lower undecided (fun _ child => .ok (1 + child))
    (fun site child _ => undecided_price site child) rising queryOnly inserted
  obtain ⟨-, p, returned⟩ := total fun _ child _ => ⟨1 + child, rfl⟩
  refine ⟨p, returned, fun silent => ?_⟩
  obtain ⟨_, ended⟩ := returned ⟨(), #[]⟩
  obtain ⟨before, _, checked, clean⟩ := kept _ _ _ ended ⟨(), #[]⟩
  have scored : (undecided.scored queryOnly (spreading [.field ⟨none, "a", [], []⟩ []]).fragments
      (spreading [.field ⟨none, "a", [], []⟩ []]).operations).exec ⟨(), #[]⟩ =
        (.ok [(_, ⟨.int 2, 3⟩)], _) := rfl
  rw [check_of_scored scored] at checked
  cases checked
  have within := (Progress.recordAll_violation_eq_none_iff rfl).mp (clean silent) _
    List.mem_cons_self
  exact within (by decide)

end Rule

end QueryCost
