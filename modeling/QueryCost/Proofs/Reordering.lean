import QueryCost.Proofs.Appending
import QueryCost.Proofs.Edits
import QueryCost.Proofs.Tariffs

/-!
# The order of selections

With integer costs that follow from the field and its children, selections add up, so it makes no difference
in which order they are written. Doubles would not do: their sums depend on the order. A change of order
may also bring another fault to the front, and so it is the results that are compared: a score is found
in one order exactly if the same score is found in the other.
-/
namespace QueryCost

variable {σ : Type}

theorem toOption_bind {α β : Type} (x : Except Fault α) (f : α → Except Fault β) :
    (x >>= f).toOption = x.toOption.bind fun a => (f a).toOption := by
  cases x <;> rfl

theorem toOption_map {α β : Type} (x : Except Fault α) (f : α → β) :
    (x.map f).toOption = x.toOption.map f := by
  cases x <;> rfl

/-- Runs with the same result, if they have one, return the same. -/
theorem Run.Decides.returns_iff {α : Type} {x y : Run σ α} {e e' : Except Fault α} {a : α}
    (first : x.Decides e) (second : y.Decides e') (same : e.toOption = e'.toOption) :
    x.Returns a ↔ y.Returns a := by
  have transfer : ∀ {x y : Run σ α} {e e' : Except Fault α}, x.Decides e → y.Decides e' →
      e.toOption = e'.toOption → x.Returns a → y.Returns a := by
    intro x y e e' first second same returned s
    obtain ⟨after, ended⟩ := returned s
    obtain rfl := first.eq_of_exec ended
    cases e' with
    | error fault => cases same
    | ok b =>
      obtain rfl := Option.some.inj same
      exact second.exec_eq s
  exact ⟨transfer first second same, transfer second first same.symm⟩

/-- Selections in another order, at any depth. -/
abbrev Selection.Reordered : List Selection → List Selection → Prop :=
  Selection.Changed List.Perm

namespace Visit

variable {tariff : Tariff}

theorem toOption_billAll_cons (v : Visit) (rest : List Visit) :
    (billAll tariff (v :: rest)).toOption =
      (bill tariff v).toOption.bind fun cost =>
        (billAll tariff rest).toOption.map fun others => cost + others := by
  rw [billAll, toOption_bind]
  cases billAll tariff rest <;> rfl

/-- As many nodes, and the same bill if there is one. -/
structure SameBill (tariff : Tariff) (visits visits' : List Visit) : Prop where
  nodes : nodesAll visits = nodesAll visits'
  bill : (billAll tariff visits).toOption = (billAll tariff visits').toOption

theorem billAll_append (first second : List Visit) :
    billAll tariff (first ++ second) = (do
      let cost ← billAll tariff first
      return cost + (← billAll tariff second)) := by
  induction first with
  | nil => cases whole : billAll tariff second <;> simp [billAll, whole]
  | cons v rest ih =>
    simp only [List.cons_append, billAll, ih, bind_assoc, pure_bind, Int.add_assoc]

namespace SameBill

/-- One visit in place of another. -/
theorem head {v v' : Visit} (rest : List Visit) (nodes : v.nodes = v'.nodes)
    (bill : (v.bill tariff).toOption = (v'.bill tariff).toOption) :
    SameBill tariff (v :: rest) (v' :: rest) where
  nodes := by rw [nodesAll, nodesAll, nodes]
  bill := by rw [toOption_billAll_cons, toOption_billAll_cons, bill]

theorem congruence : Congruence (SameBill tariff) where
  refl visits := ⟨rfl, rfl⟩
  trans first second := ⟨first.nodes.trans second.nodes, first.bill.trans second.bill⟩
  later := by
    intro v rest rest' others
    constructor
    · rw [nodesAll, nodesAll, others.nodes]
    · rw [toOption_billAll_cons, toOption_billAll_cons, others.bill]
  field := by
    intro notices site rest below below' inner
    refine head rest ?_ ?_
    · rw [Visit.nodes, Visit.nodes, inner.nodes]
    · rw [Visit.bill, Visit.bill, toOption_bind, toOption_bind, inner.bill]
  group := by
    intro notices rest below below' inner
    refine head rest ?_ ?_
    · rw [Visit.nodes, Visit.nodes, inner.nodes]
    · rw [Visit.bill, Visit.bill, inner.bill]

theorem swap (v w : Visit) (rest : List Visit) :
    SameBill tariff (v :: w :: rest) (w :: v :: rest) where
  nodes := by
    simp only [nodesAll]
    omega
  bill := by
    simp only [toOption_billAll_cons]
    cases (v.bill tariff).toOption with
    | none => cases (w.bill tariff).toOption <;> rfl
    | some first =>
      cases (w.bill tariff).toOption with
      | none => rfl
      | some second =>
        cases (billAll tariff rest).toOption with
        | none => rfl
        | some others => simp [Int.add_left_comm]

theorem of_perm {visits visits' : List Visit} (perm : visits.Perm visits') :
    SameBill tariff visits visits' := by
  induction perm with
  | nil => exact congruence.refl []
  | cons v _ ih => exact congruence.later v ih
  | swap v w rest => exact swap w v rest
  | trans _ _ first second => exact congruence.trans first second

end SameBill

end Visit

namespace Scope

open Visit (billAll SameBill)

variable {scope : Scope} {tariff : Tariff}

theorem expand_perm {selections selections' : List Selection} (perm : selections.Perm selections')
    (path : List String) (parent : Option TypeDef) :
    (scope.expand path parent selections).Perm (scope.expand path parent selections') := by
  induction perm with
  | nil => exact .refl _
  | cons s _ ih =>
    rw [expand_cons, expand_cons]
    exact ih.cons _
  | swap s t rest =>
    simp only [expand_cons]
    exact .swap _ _ _
  | trans _ _ first second => exact first.trans second

/-- Selections in another order, also inside of fragments. -/
theorem sameBill_reordered {table : List Fragment}
    (tables : List.Forall₂ (Fragment.Related Selection.Reordered) scope.fragments table)
    {selections selections' : List Selection}
    (reordered : Selection.Reordered selections selections') (path : List String)
    (parent : Option TypeDef) :
    SameBill tariff (scope.expand path parent selections)
      ((scope.onTable table).expand path parent selections') :=
  expand_changed SameBill.congruence
    (fun perm path parent => SameBill.of_perm (expand_perm perm path parent)) tables reordered path
    parent

/-- With integer costs that follow from a tariff, selections add up: what comes of two lists of selections
in a row is the sum of what comes of each. No order of selections makes a difference, neither at the top
nor inside of fields and fragments, and there is always a score if the tariff has a price for everything. -/
theorem score_additive_and_orderless (chain : List (Estimate σ)) (tariff : Tariff)
    (charges : ∀ (site : Site) (child : Int),
      (site.price chain (.int child)).Decides ((tariff site child).map .int))
    (scope : Scope) (path : List String) (parent : Option TypeDef) :
    (∃ outcome : List Selection → Except Fault (Int × Nat),
      (∀ selections, (scope.score chain path parent selections).Decides
        ((outcome selections).map fun x => ⟨.int x.1, x.2⟩)) ∧
      ∀ first second, outcome (first ++ second) = do
        let x ← outcome first
        let y ← outcome second
        return (x.1 + y.1, x.2 + y.2)) ∧
    (∀ table selections selections' score,
      List.Forall₂ (Fragment.Related Selection.Reordered) scope.fragments table →
      Selection.Reordered selections selections' →
      ((scope.score chain path parent selections).Returns score ↔
        ((scope.onTable table).score chain path parent selections').Returns score)) ∧
    ((∀ site child, ∃ cost, tariff site child = .ok cost) →
      ∀ selections, ∃ score, (scope.score chain path parent selections).Returns score) := by
  have charges : Charges chain tariff fun _ => True :=
    ⟨⟨trivial, trivial, fun _ _ => trivial, fun _ _ => trivial⟩, fun _ => charges _ _⟩
  refine ⟨⟨fun selections => (billAll tariff (scope.expand path parent selections)).map fun total =>
    (total, Visit.nodesAll (scope.expand path parent selections)), ?_, ?_⟩, ?_, ?_⟩
  · intro selections
    have decided := charges.score_decides scope path parent selections
    cases total : billAll tariff (scope.expand path parent selections) <;>
      simpa only [total, Except.map] using decided
  · intro first second
    simp only [expand_append, Visit.billAll_append, Visit.nodesAll_append]
    cases billAll tariff (scope.expand path parent first) with
    | error fault => rfl
    | ok cost => cases billAll tariff (scope.expand path parent second) <;> rfl
  · intro table selections selections' score tables reordered
    -- Another order may meet another fault first, so only results are compared.
    have same : SameBill tariff _ _ := sameBill_reordered tables reordered path parent
    refine (charges.score_decides scope path parent selections).returns_iff
      (charges.score_decides (scope.onTable table) path parent selections') ?_
    rw [same.nodes, toOption_map, toOption_map, same.bill]
  · intro total selections
    obtain ⟨n, billed⟩ := Visit.billAll_exists charges.toWithin (fun site child _ => total site child)
      (scope.expand path parent selections)
    have decided := charges.score_decides scope path parent selections
    rw [billed] at decided
    exact ⟨_, decided.returns⟩

/-- Selections of a field and a fragment; the fragment has a field and a fragment, which has it again. -/
def mutualSpreads (first second : List Selection) : Scope :=
  ⟨Rule.queryOnly, [⟨"F", "Query", [], first⟩, ⟨"G", "Query", [], second⟩], []⟩

/-- Two fragments that spread each other, with all selections turned around. -/
theorem score_additive_and_orderless_mutual :
    ((mutualSpreads [.spread "G" [], .field ⟨none, "a", [], []⟩ []]
        [.spread "F" [], .field ⟨none, "a", [], []⟩ []]).score Rule.undecided.chain [] (some ⟨"Query",
          .object [] [⟨"a", .named "Int", [], none, none, []⟩], none⟩)
        [.field ⟨none, "a", [], []⟩ [], .spread "F" []]).Returns ⟨.int 3, 6⟩ := by
  have turned : ∀ s t : Selection, Selection.Reordered [s, t] [t, s] :=
    fun s t => .single (.here (.swap t s []))
  obtain ⟨-, orderless, -⟩ := score_additive_and_orderless Rule.undecided.chain
    (fun _ child => .ok (1 + child)) Rule.undecided_price
    (mutualSpreads [.field ⟨none, "a", [], []⟩ [], .spread "G" []]
      [.field ⟨none, "a", [], []⟩ [], .spread "F" []]) [] _
  refine (orderless _ [.spread "F" [], .field ⟨none, "a", [], []⟩ []] _ _ ?_ (turned _ _)).mp ?_
  · exact .cons ⟨rfl, rfl, turned _ _⟩ (.cons ⟨rfl, rfl, turned _ _⟩ .nil)
  · exact fun s => ⟨_, rfl⟩

end Scope

end QueryCost
