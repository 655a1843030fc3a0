import Mathlib.Data.Set.Card
import QueryCost.Proofs.ClosedSets
import QueryCost.Proofs.SharedPath

/-!
# What the node count counts

`Occurs` gives an address to every selection that a walk comes to: its position in the selection set where it
stands, behind the positions that lead to that set. A selection that is left out has an address too, but
none lead on from it (`entered?`), and a fragment that is spread in two places has its selections at two
addresses. The count of nodes is the number of these addresses (`ncard_addresses`). Estimators play no part
in it.
-/
namespace QueryCost

variable {σ : Type}

namespace Scope

/-- The selection set that is entered from a selection. What is excluded is not entered, nor is a field that
its type does not have, an unknown fragment, or a fragment on the path. -/
def entered? (scope : Scope) (path : List String) (parent : Option TypeDef) (s : Selection) :
    Option Frame :=
  if (exclusion scope.vars s.directives).excluded then none
  else match s with
    | .field head below => (resolve? parent head.name).map fun found =>
      ⟨path, scope.schema.type? found.2.type.base, below⟩
    | .inline condition _ below => some ⟨path, scope.conditioned condition parent, below⟩
    | .spread name _ =>
      if name ∈ path then none
      else (scope.fragment? name).map fun f =>
        ⟨name :: path, scope.schema.type? f.condition, f.selections⟩

/-- An address at which a walk from a frame comes to a selection. -/
inductive Occurs (scope : Scope) : Frame → List Nat → Prop
  | here {f : Frame} {i : Nat} {s : Selection} (placed : f.selections[i]? = some s) :
      Occurs scope f [i]
  | inside {f g : Frame} {i : Nat} {s : Selection} {address : List Nat}
      (placed : f.selections[i]? = some s) (enters : scope.entered? f.path f.parent s = some g)
      (inner : Occurs scope g address) : Occurs scope f (i :: address)

/-- All addresses to which a walk comes. -/
def addresses (scope : Scope) (f : Frame) : Set (List Nat) := { address | scope.Occurs f address }

variable {scope : Scope} {path : List String} {parent : Option TypeDef}

theorem Occurs.ne_nil {f : Frame} {address : List Nat} (occurs : scope.Occurs f address) :
    address ≠ [] := by
  cases occurs <;> exact List.cons_ne_nil _ _

theorem addresses_nil : scope.addresses ⟨path, parent, []⟩ = ∅ := by
  ext address
  refine ⟨?_, False.elim⟩
  rintro (⟨⟨⟩⟩ | ⟨⟨⟩, -, -⟩)

/-- At the first position stands the first selection, and below it what is entered from there. -/
theorem occurs_zero {s : Selection} {rest : List Selection} {address : List Nat} :
    scope.Occurs ⟨path, parent, s :: rest⟩ (0 :: address) ↔
      address = [] ∨ ∃ g, scope.entered? path parent s = some g ∧ scope.Occurs g address := by
  constructor
  · rintro (_ | ⟨⟨⟩, enters, inner⟩)
    · exact .inl rfl
    · exact .inr ⟨_, enters, inner⟩
  · rintro (rfl | ⟨g, enters, inner⟩)
    · exact .here rfl
    · exact .inside rfl enters inner

theorem occurs_succ {s : Selection} {rest : List Selection} {i : Nat} {address : List Nat} :
    scope.Occurs ⟨path, parent, s :: rest⟩ ((i + 1) :: address) ↔
      scope.Occurs ⟨path, parent, rest⟩ (i :: address) := by
  constructor
  · rintro (placed | ⟨placed, enters, inner⟩)
    · exact .here placed
    · exact .inside placed enters inner
  · rintro (placed | ⟨placed, enters, inner⟩)
    · exact .here placed
    · exact .inside placed enters inner

/-- The address in a selection set with one more selection in front. -/
def later (address : List Nat) : List Nat := address.modifyHead (· + 1)

theorem later_injective : Function.Injective later := by
  intro first second same
  cases first <;> cases second <;> simp_all [later]

/-- The addresses below a selection, without its own position. -/
def addressesBelow (scope : Scope) (path : List String) (parent : Option TypeDef) (s : Selection) :
    Set (List Nat) :=
  { address | ∃ g, scope.entered? path parent s = some g ∧ scope.Occurs g address }

theorem addresses_cons (s : Selection) (rest : List Selection) :
    scope.addresses ⟨path, parent, s :: rest⟩ =
      insert [0] (List.cons 0 '' scope.addressesBelow path parent s ∪
        later '' scope.addresses ⟨path, parent, rest⟩) := by
  ext address
  rw [Set.mem_insert_iff, Set.mem_union]
  constructor
  · intro occurs
    match address, occurs with
    | [], occurs => exact absurd rfl occurs.ne_nil
    | 0 :: address, occurs =>
      rcases occurs_zero.mp occurs with rfl | inner
      · exact .inl rfl
      · exact .inr (.inl ⟨address, inner, rfl⟩)
    | (i + 1) :: address, occurs => exact .inr (.inr ⟨i :: address, occurs_succ.mp occurs, rfl⟩)
  · rintro (rfl | ⟨below, inner, rfl⟩ | ⟨other, occurs, rfl⟩)
    · exact occurs_zero.mpr (.inl rfl)
    · exact occurs_zero.mpr (.inr inner)
    · cases other with
      | nil => exact absurd rfl occurs.ne_nil
      | cons i address => exact occurs_succ.mpr occurs

/-- The selection itself, what is below it and what follows are apart. -/
theorem encard_addresses_cons (s : Selection) (rest : List Selection) :
    (scope.addresses ⟨path, parent, s :: rest⟩).encard =
      (scope.addressesBelow path parent s).encard +
        (scope.addresses ⟨path, parent, rest⟩).encard + 1 := by
  have apart : Disjoint (List.cons 0 '' scope.addressesBelow path parent s)
      (later '' scope.addresses ⟨path, parent, rest⟩) := by
    rw [Set.disjoint_left]
    rintro _ ⟨below, -, rfl⟩ ⟨other, -, same⟩
    cases other <;> simp [later] at same
  have fresh : [0] ∉ List.cons 0 '' scope.addressesBelow path parent s ∪
      later '' scope.addresses ⟨path, parent, rest⟩ := by
    rintro (⟨below, ⟨g, -, occurs⟩, same⟩ | ⟨other, -, same⟩)
    · exact occurs.ne_nil (List.cons.inj same).2
    · cases other <;> simp [later] at same
  rw [addresses_cons, Set.encard_insert_of_notMem fresh, Set.encard_union_eq apart,
    Function.Injective.encard_image List.cons_injective, later_injective.encard_image]

/-- What is entered from a selection adds its nodes to the one of the selection. -/
theorem nodes_visitAt (s : Selection) :
    (scope.visitAt path parent s).nodes = 1 + match scope.entered? path parent s with
      | none => 0
      | some g => Visit.nodesAll (scope.expand g.path g.parent g.selections) := by
  unfold entered?
  cases left : (exclusion scope.vars s.directives).excluded with
  | true => simp [visitAt_excluded path parent left, Visit.nodes]
  | false =>
    cases s with
    | field head below =>
      rw [Selection.directives] at left
      cases resolved : resolve? parent head.name with
      | none =>
        rw [visitAt_unresolved path parent below left resolved]
        simp [resolved, Visit.nodes]
      | some found =>
        obtain ⟨t, field⟩ := found
        rw [visitAt_resolved path parent below left resolved]
        simp [resolved, Visit.nodes]
    | inline condition directives below =>
      rw [Selection.directives] at left
      rw [visitAt_inline path parent condition below left]
      simp [Visit.nodes]
    | spread name directives =>
      rw [Selection.directives] at left
      by_cases onPath : name ∈ path
      · rw [visitAt_onPath path parent left onPath]
        simp [onPath, Visit.nodes]
      cases defined : scope.fragment? name with
      | none =>
        rw [visitAt_undefined path parent left defined]
        simp [defined, Visit.nodes]
      | some f =>
        rw [visitAt_expanded path parent left onPath defined]
        simp [onPath, defined, Visit.nodes]

/-- A selection set that is entered ranks below the one that the selection stands in. -/
theorem rank_lt_of_entered {s : Selection} {rest : List Selection} {g : Frame}
    (enters : scope.entered? path parent s = some g) :
    scope.rank g < scope.rank ⟨path, parent, s :: rest⟩ := by
  unfold entered? at enters
  split at enters
  · cases enters
  next included =>
    rw [Bool.not_eq_true] at included
    cases s with
    | field head below =>
      obtain ⟨⟨t, field⟩, resolved, rfl⟩ := Option.map_eq_some_iff.mp enters
      exact Nat.add_lt_add_left (Selection.sizeAll_lt_of_field List.mem_cons_self) _
    | inline condition directives below =>
      cases enters
      exact Nat.add_lt_add_left (Selection.sizeAll_lt_of_inline List.mem_cons_self) _
    | spread name directives =>
      dsimp only at enters
      split at enters
      · cases enters
      next fresh =>
        obtain ⟨f, defined, rfl⟩ := Option.map_eq_some_iff.mp enters
        exact Calls.rank_lt (.spread name directives f List.mem_cons_self included fresh defined)

/-- There are as many addresses as nodes. -/
theorem encard_addresses (f : Frame) :
    (scope.addresses f).encard = Visit.nodesAll (scope.expand f.path f.parent f.selections) := by
  induction bound : scope.rank f using Nat.strong_induction_on generalizing f with
  | _ n ih =>
    subst bound
    obtain ⟨path, parent, selections⟩ := f
    cases selections with
    | nil => simp [addresses_nil, Visit.nodesAll]
    | cons s rest =>
      have fewer : scope.rank ⟨path, parent, rest⟩ < scope.rank ⟨path, parent, s :: rest⟩ :=
        Nat.add_lt_add_left (Selection.sizeAll_lt_cons s rest) _
      have others := ih _ fewer ⟨path, parent, rest⟩ rfl
      have below : (scope.addressesBelow path parent s).encard + 1 =
          (scope.visitAt path parent s).nodes := by
        rw [nodes_visitAt]
        cases enters : scope.entered? path parent s with
        | none => simp [addressesBelow, enters]
        | some g =>
          have same : scope.addressesBelow path parent s = scope.addresses g := by
            simp [addressesBelow, enters, addresses]
          rw [same, ih _ (rank_lt_of_entered enters) g rfl, add_comm, Nat.cast_add, Nat.cast_one]
      rw [encard_addresses_cons, others, expand_cons, Visit.nodesAll, Nat.cast_add, ← below,
        add_right_comm]

theorem finite_addresses (f : Frame) : (scope.addresses f).Finite :=
  Set.finite_of_encard_eq_coe (encard_addresses f)

theorem ncard_addresses (f : Frame) :
    (scope.addresses f).ncard = Visit.nodesAll (scope.expand f.path f.parent f.selections) := by
  rw [Set.ncard, encard_addresses, ENat.toNat_natCast]

end Scope

/-- An estimator that does not raise. -/
def Estimate.Total (estimate : Estimate σ) : Prop :=
  ∀ call s, ∃ reply after, (estimate call).exec s = (.ok reply, after)

theorem Estimate.total_constant (answer : Value) : (Estimate.constant answer : Estimate σ).Total :=
  fun _ s => ⟨_, s, rfl⟩

theorem Estimate.Total.ensures {estimate : Estimate σ} (total : estimate.Total) (call : Call) :
    (estimate call).Ensures fun reply => reply.answer.FiniteWithin fun _ => True := by
  intro s
  obtain ⟨reply, after, ended⟩ := total call s
  rw [ended]
  exact fun _ _ _ => trivial

/-- With estimators that do not raise, only a sum can go wrong. -/
theorem Visit.priceAll_ensures_of_total {chain : List (Estimate σ)}
    (total : ∀ estimate ∈ chain, estimate.Total) (start : Number) (visits : List Visit) :
    (Visit.priceAll chain start visits).Ensures fun _ => True := by
  refine Visit.priceAll_ensures Number.closed_all.toSumClosed visits ?_ trivial
  intro f _ child _
  refine Site.price_ensures Number.closed_all.toSumClosed trivial ?_
  intro estimate member call _
  exact (total estimate member).ensures call

/-- The count goes on from its start, and nothing else depends on it. -/
theorem Visit.exec_priceFrom (chain : List (Estimate σ)) (total : Number) (count : Int)
    (visits : List Visit) (s : Session σ) :
    (Visit.priceFrom chain total count visits).exec s =
      (((Visit.priceAll chain total visits).exec s).1.map fun cost =>
        (cost, count + Visit.nodesAll visits), ((Visit.priceAll chain total visits).exec s).2) := by
  unfold Visit.priceFrom
  rw [Run.exec_bind]
  rcases (Visit.priceAll chain total visits).exec s with ⟨fault | cost, after⟩ <;> rfl

namespace Scope

open Walk

/-- The count of nodes is its start plus the number of selections that are come to. They are counted by their
addresses, so each one counts once for every way that leads to it, also if it is left out; what is below
it counts only if it is entered. The same count comes with every outcome of every chain, whether the
count is added up in the end or handed through the walk. Where it starts makes no difference to the cost, and
with estimators that do not raise there is a cost unless a sum overflows. -/
theorem node_count_eq_addresses (scope : Scope) (chain : List (Estimate σ)) (path : List String)
    (parent : Option TypeDef) (selections : List Selection) :
    (scope.addresses ⟨path, parent, selections⟩).Finite ∧
    ∀ s : Session σ, ∃ (outcome : Except Fault Number) (after : Session σ),
      ((∀ estimate ∈ chain, estimate.Total) → OverflowOr (fun _ => True) outcome) ∧
      (∀ start, (scope.scoreFrom chain path start parent selections).exec s =
        (outcome.map fun cost =>
          (cost, start + (scope.addresses ⟨path, parent, selections⟩).ncard), after)) ∧
      ∀ fuel, scope.fuelBound selections ≤ fuel → ∀ start,
        (scope.walkWithin chain fuel parent selections start).exec ⟨s, path.toFinset⟩ =
          ((outcome.mapError .fault).map fun cost =>
            (cost, start + (scope.addresses ⟨path, parent, selections⟩).ncard),
            ⟨after, path.toFinset⟩) := by
  refine ⟨finite_addresses _, fun s => ?_⟩
  rw [ncard_addresses]
  rcases ended : (Visit.priceAll chain (.int 0) (scope.expand path parent selections)).exec s with
    ⟨outcome, after⟩
  have priced : ∀ start, (Visit.priceFrom chain (.int 0) start
      (scope.expand path parent selections)).exec s = (outcome.map fun cost =>
        (cost, start + Visit.nodesAll (scope.expand path parent selections)), after) := by
    intro start
    rw [Visit.exec_priceFrom, ended]
  refine ⟨outcome, after, ?_, ?_, ?_⟩
  · intro total
    have ensured := Visit.priceAll_ensures_of_total total (.int 0)
      (scope.expand path parent selections) s
    rwa [ended] at ensured
  · intro start
    rw [scoreFrom_eq_priceFrom]
    exact priced start
  · intro fuel enough start
    have below := Nat.lt_of_lt_of_le (scope.rank_lt_fuelBound ⟨path, parent, selections⟩) enough
    rw [walkWithin_follows chain below start s, exec_ofRun, priced]
    cases outcome <;> rfl

/-- A fragment with a field and a spread of itself, and one with a field. -/
def recurring : Scope :=
  ⟨⟨[⟨"T", .object [] [⟨"a", .named "Int", [], none, none, []⟩, ⟨"t", .named "T", [], none, none, []⟩],
      none⟩], none, none, none, []⟩,
    [⟨"A", "T", [], [.field ⟨none, "a", [], []⟩ [], .spread "A" []]⟩,
      ⟨"B", "T", [], [.field ⟨none, "a", [], []⟩ []]⟩], []⟩

/-- An excluded field, a field that the type does not have, a fragment that is on the path, an unknown one,
one that is expanded twice, and a field with selections below it. -/
def assorted : List Selection :=
  [.field ⟨none, "a", [], [⟨"skip", [("if", .bool true)]⟩]⟩ [.field ⟨none, "a", [], []⟩ []],
    .field ⟨none, "b", [], []⟩ [.field ⟨none, "a", [], []⟩ []], .spread "B" [], .spread "C" [],
    .spread "A" [], .inline none [] [.spread "A" []],
    .field ⟨none, "t", [], []⟩ [.field ⟨none, "a", [], []⟩ [], .spread "B" []]]

theorem node_count_eq_addresses_assorted :
    recurring.fuelBound assorted ≤ 19 ∧
    (Estimate.constant .null : Estimate Unit).Total ∧
    (recurring.addresses ⟨["B"], recurring.schema.type? "T", assorted⟩).ncard = 14 ∧
    ((recurring.walkWithin [(Estimate.constant .null : Estimate Unit)] 19
      (recurring.schema.type? "T") assorted (-3)).exec ⟨⟨(), #[]⟩, ["B"].toFinset⟩).1 =
        .ok (.int 5, 11) := by
  have enough : recurring.fuelBound assorted ≤ 19 := by decide
  obtain ⟨-, counted⟩ := node_count_eq_addresses recurring
    [(Estimate.constant .null : Estimate Unit)] ["B"] (recurring.schema.type? "T") assorted
  obtain ⟨outcome, after, -, scored, walked⟩ := counted ⟨(), #[]⟩
  have computed : (recurring.scoreFrom [(Estimate.constant .null : Estimate Unit)] ["B"] (-3)
      (recurring.schema.type? "T") assorted).exec ⟨(), #[]⟩ = (.ok (.int 5, 11), ⟨(), #[]⟩) := rfl
  rw [scored] at computed
  cases outcome with
  | error fault => cases computed
  | ok cost =>
    simp only [Except.map, Prod.mk.injEq, Except.ok.injEq] at computed
    obtain ⟨⟨rfl, count⟩, -⟩ := computed
    refine ⟨enough, Estimate.total_constant _, by omega, ?_⟩
    rw [walked 19 enough (-3), count]
    rfl

end Scope

end QueryCost
