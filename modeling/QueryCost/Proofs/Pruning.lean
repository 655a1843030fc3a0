import QueryCost.Estimate.Formula
import QueryCost.Proofs.Edits
import QueryCost.Proofs.Matching
import QueryCost.Proofs.SharedPath

/-!
# Excluded selections can be deleted

`Selection.pruneAll` deletes what directives exclude, at every depth. Deleting from an operation and from all
fragments leaves the visits that remain as they were (`Scope.expand_prune`): exactly the excluded visits
are gone, wherever a fragment brought them in, and no other visit looks into them. An excluded visit adds
nothing to the cost and asks no estimator, so prices are the same; each one was a node.

What excluded visits may leave is a notice, which no estimator sees.

A fragment matters only if a spread leads into it (`Scope.Expands`), which an excluded one does not.
-/
namespace QueryCost

variable {σ : Type}

open Run (Matches)

namespace Selection

mutual

/-- A selection without what is excluded below it. -/
def prune (vars : Entries) : Selection → Selection
  | .field head below => .field head (pruneAll vars below)
  | .inline condition directives below => .inline condition directives (pruneAll vars below)
  | .spread name directives => .spread name directives

/-- Selections without the excluded ones, at every depth. -/
def pruneAll (vars : Entries) : List Selection → List Selection
  | [] => []
  | s :: rest =>
    if (exclusion vars s.directives).excluded then pruneAll vars rest
    else prune vars s :: pruneAll vars rest

end

/-- The first selection is exchanged for another one. Both are excluded. -/
inductive Swapped (vars : Entries) : List Selection → List Selection → Prop
  | head {s s' : Selection} (rest : List Selection)
      (excluded : (exclusion vars s.directives).excluded = true)
      (excluded' : (exclusion vars s'.directives).excluded = true) :
      Swapped vars (s :: rest) (s' :: rest)

end Selection

def Fragment.prune (vars : Entries) (f : Fragment) : Fragment :=
  { f with selections := Selection.pruneAll vars f.selections }

namespace Visit

def isExcluded : Visit → Bool
  | .excluded _ => true
  | _ => false

mutual

/-- A visit without the excluded visits below it. -/
def kept : Visit → Visit
  | .field notices site below => .field notices site (keptAll below)
  | .group notices below => .group notices (keptAll below)
  | .excluded notices => .excluded notices
  | .unresolved notices => .unresolved notices
  | .unexpanded notices => .unexpanded notices

def keptAll : List Visit → List Visit
  | [] => []
  | v :: rest => if v.isExcluded then keptAll rest else kept v :: keptAll rest

end

mutual

/-- Number of excluded visits at and below a visit. -/
def removals : Visit → Nat
  | .excluded _ => 1
  | .field _ _ below => removalsAll below
  | .group _ below => removalsAll below
  | .unresolved _ => 0
  | .unexpanded _ => 0

def removalsAll : List Visit → Nat
  | [] => 0
  | v :: rest => removals v + removalsAll rest

end

theorem isExcluded_iff {v : Visit} : v.isExcluded = true ↔ ∃ notices, v = .excluded notices := by
  cases v <;> simp [isExcluded]

@[simp] theorem keptAll_excluded (notices : List Notice) (rest : List Visit) :
    keptAll (.excluded notices :: rest) = keptAll rest := by
  simp [keptAll, isExcluded]

theorem keptAll_included {v : Visit} (included : v.isExcluded = false) (rest : List Visit) :
    keptAll (v :: rest) = v.kept :: keptAll rest := by
  simp [keptAll, included]

mutual

theorem nodes_kept : ∀ v : Visit, v.isExcluded = false → v.nodes = v.kept.nodes + v.removals
  | .excluded _, included => by cases included
  | .unresolved _, _ => rfl
  | .unexpanded _, _ => rfl
  | .field notices site below, _ => by
    simp only [nodes, kept, removals]
    rw [nodesAll_keptAll below, Nat.add_assoc]
  | .group notices below, _ => by
    simp only [nodes, kept, removals]
    rw [nodesAll_keptAll below, Nat.add_assoc]

/-- Excluded visits have no visits below them, so each one accounts for a single node. -/
theorem nodesAll_keptAll : ∀ visits : List Visit,
    nodesAll visits = nodesAll (keptAll visits) + removalsAll visits
  | [] => rfl
  | v :: rest => by
    cases excluded : v.isExcluded with
    | true =>
      obtain ⟨notices, rfl⟩ := isExcluded_iff.mp excluded
      have single : (Visit.excluded notices).nodes = 1 := rfl
      rw [keptAll_excluded, nodesAll, removalsAll, nodesAll_keptAll rest, single, removals]
      omega
    | false =>
      rw [keptAll_included excluded, nodesAll, nodesAll, removalsAll, nodesAll_keptAll rest,
        nodes_kept v excluded]
      omega

end

theorem exec_price_excluded (chain : List (Estimate σ)) (notices : List Notice) (s : Session σ) :
    ((Visit.excluded notices).price chain).exec s = (.ok none, s.noting notices) := by
  rw [price, Run.exec_bind_ok _ (Run.exec_noteAll notices s)]
  rfl

section Prices

variable {chain : List (Estimate σ)}

mutual

theorem price_kept : ∀ v : Visit, Matches SameMemory (v.price chain) (v.kept.price chain)
  | .excluded notices => .sameMemory _
  | .unresolved notices => .sameMemory _
  | .unexpanded notices => .sameMemory _
  | .field notices site below => by
    rw [kept, price, price]
    refine (Matches.noteAll tolerant_sameMemory notices).bind fun _ => ?_
    refine (priceAll_keptAll below (.int 0)).bind fun child => ?_
    exact (Matches.sameMemory (site.price chain child)).bind fun _ => .pure _
  | .group notices below => by
    rw [kept, price, price]
    refine (Matches.noteAll tolerant_sameMemory notices).bind fun _ => ?_
    exact (priceAll_keptAll below (.int 0)).bind fun _ => .pure _

/-- Without the excluded visits, prices are the same and so is what estimators remember. -/
theorem priceAll_keptAll :
    ∀ (visits : List Visit) (total : Number),
    Matches SameMemory (priceAll chain total visits) (priceAll chain total (keptAll visits))
  | [], total => by
    rw [keptAll, priceAll]
    exact .pure total
  | v :: rest, total => by
    cases excluded : v.isExcluded with
    | true =>
      obtain ⟨notices, rfl⟩ := isExcluded_iff.mp excluded
      -- It leaves its notices on one side only, which the rest does not see.
      intro s t same
      rw [keptAll_excluded, priceAll, Run.exec_bind_ok _ (exec_price_excluded chain notices s)]
      exact priceAll_keptAll rest total (s.noting notices) t same
    | false =>
      rw [keptAll_included excluded, priceAll, priceAll]
      refine (price_kept v).bind fun added => ?_
      cases added with
      | none => exact priceAll_keptAll rest total
      | some cost =>
        exact (Matches.ofExcept _).bind fun next => priceAll_keptAll rest next

end

/-- Visits that differ in excluded ones only have the same prices. -/
theorem priceAll_of_keptAll_eq {visits visits' : List Visit}
    (same : keptAll visits = keptAll visits') (total : Number) :
    Matches SameMemory (priceAll chain total visits) (priceAll chain total visits') := by
  intro s t alike
  have left := @priceAll_keptAll σ chain visits total s t alike
  have right := @priceAll_keptAll σ chain visits' total t t rfl
  rw [same] at left
  exact ⟨left.1.trans right.1.symm, Eq.trans left.2 right.2.symm⟩

end Prices

/-- The same visits but for the excluded ones, of which there are as many. -/
def SameKept (visits visits' : List Visit) : Prop :=
  keptAll visits = keptAll visits' ∧ nodesAll visits = nodesAll visits'

theorem sameKept_congruence : Congruence SameKept where
  refl _ := ⟨rfl, rfl⟩
  trans first second := ⟨first.1.trans second.1, first.2.trans second.2⟩
  later v _ _ same := by
    refine ⟨?_, ?_⟩
    · rw [keptAll, keptAll, same.1]
    · rw [nodesAll, nodesAll, same.2]
  field notices site rest _ _ same := by
    refine ⟨?_, ?_⟩
    · rw [keptAll_included rfl, keptAll_included rfl, kept, kept, same.1]
    · rw [nodesAll, nodesAll, nodes, nodes, same.2]
  group notices rest _ _ same := by
    refine ⟨?_, ?_⟩
    · rw [keptAll_included rfl, keptAll_included rfl, kept, kept, same.1]
    · rw [nodesAll, nodesAll, nodes, nodes, same.2]

end Visit

namespace Scope

/-- The scope with fragments from which everything excluded is deleted. -/
def pruned (scope : Scope) : Scope :=
  scope.onTable (scope.fragments.map (Fragment.prune scope.vars))

variable {scope : Scope}

theorem fragment?_pruned (name : String) :
    scope.pruned.fragment? name = (scope.fragment? name).map (Fragment.prune scope.vars) := by
  unfold fragment? pruned onTable
  rw [← List.map_reverse, List.find?_map]
  rfl

theorem isExcluded_visit (spread : String → Option (List Visit)) (parent : Option TypeDef)
    (s : Selection) :
    (scope.visit spread parent s).isExcluded = (exclusion scope.vars s.directives).excluded := by
  cases s with
  | field head below =>
    rw [visit, Selection.directives]
    cases (exclusion scope.vars head.directives).excluded with
    | true => rfl
    | false => cases resolve? parent head.name <;> rfl
  | inline condition directives below =>
    rw [visit, Selection.directives]
    cases (exclusion scope.vars directives).excluded <;> rfl
  | spread name directives =>
    rw [visit, Selection.directives]
    cases (exclusion scope.vars directives).excluded with
    | true => rfl
    | false => cases spread name <;> rfl

mutual

theorem visit_prune {spread spread' : String → Option (List Visit)}
    (spreads : ∀ name, spread' name = (spread name).map Visit.keptAll) (parent : Option TypeDef) :
    ∀ s : Selection,
    scope.pruned.visit spread' parent (s.prune scope.vars) = (scope.visit spread parent s).kept
  | .field head below => by
    have inner := fun type => visitAll_prune spreads type below
    have vars : scope.pruned.vars = scope.vars := rfl
    have schema : scope.pruned.schema = scope.schema := rfl
    have sites : ∀ t field, scope.pruned.site t field head = scope.site t field head :=
      fun _ _ => rfl
    rw [Selection.prune, visit, visit]
    simp only [vars, schema, sites]
    cases (exclusion scope.vars head.directives).excluded with
    | true => rfl
    | false =>
      cases resolve? parent head.name with
      | none => rfl
      | some found => simp [Visit.kept, inner]
  | .inline condition directives below => by
    have inner := visitAll_prune spreads (scope.conditioned condition parent) below
    have vars : scope.pruned.vars = scope.vars := rfl
    have type : scope.pruned.conditioned condition parent = scope.conditioned condition parent := rfl
    rw [Selection.prune, visit, visit]
    simp only [vars, type, inner]
    cases (exclusion scope.vars directives).excluded <;> rfl
  | .spread name directives => by
    have vars : scope.pruned.vars = scope.vars := rfl
    rw [Selection.prune, visit, visit]
    simp only [vars, spreads]
    cases (exclusion scope.vars directives).excluded with
    | true => rfl
    | false => cases spread name <;> rfl

theorem visitAll_prune {spread spread' : String → Option (List Visit)}
    (spreads : ∀ name, spread' name = (spread name).map Visit.keptAll) (parent : Option TypeDef) :
    ∀ selections : List Selection,
    scope.pruned.visitAll spread' parent (Selection.pruneAll scope.vars selections) =
      Visit.keptAll (scope.visitAll spread parent selections)
  | [] => by rw [Selection.pruneAll, visitAll, visitAll, Visit.keptAll]
  | s :: rest => by
    have marked := @isExcluded_visit scope spread parent s
    rw [Selection.pruneAll, visitAll, Visit.keptAll, marked]
    cases (exclusion scope.vars s.directives).excluded with
    | true => exact visitAll_prune spreads parent rest
    | false =>
      rw [if_neg Bool.false_ne_true, if_neg Bool.false_ne_true, visitAll,
        visit_prune spreads parent s, visitAll_prune spreads parent rest]

end

/-- The induction is on how many spreads are nested. A deleted spread puts nothing on the path, and an
excluded one did not either, so spreads that are left find the path that they found before. -/
theorem expandWithin_prune (budget : Nat) (path : List String) (parent : Option TypeDef)
    (selections : List Selection) :
    scope.pruned.expandWithin budget path parent (Selection.pruneAll scope.vars selections) =
      Visit.keptAll (scope.expandWithin budget path parent selections) := by
  induction budget generalizing path parent selections with
  | zero => exact @visitAll_prune scope (fun _ => none) (fun _ => none) (fun _ => rfl) parent selections
  | succ budget ih =>
    rw [expandWithin_succ, expandWithin_succ]
    refine visitAll_prune (fun name => ?_) parent selections
    unfold spreadWith
    split
    · rfl
    rw [fragment?_pruned]
    cases scope.fragment? name with
    | none => rfl
    | some f => exact congrArg some (ih _ _ f.selections)

/-- What is left after deletion is visited as before. -/
theorem expand_prune (path : List String) (parent : Option TypeDef) (selections : List Selection) :
    scope.pruned.expand path parent (Selection.pruneAll scope.vars selections) =
      Visit.keptAll (scope.expand path parent selections) := by
  have count : scope.pruned.fragments.length = scope.fragments.length := List.length_map _
  rw [expand, count, expand]
  exact expandWithin_prune _ path parent selections

/-- Where an excluded selection is exchanged for another one, an excluded visit is. -/
theorem sameKept_swapped {xs ys : List Selection} (swapped : Selection.Swapped scope.vars xs ys)
    (path : List String) (parent : Option TypeDef) :
    Visit.SameKept (scope.expand path parent xs) (scope.expand path parent ys) := by
  obtain ⟨rest, excluded, excluded'⟩ := swapped
  rw [expand_cons, expand_cons, visitAt_excluded path parent excluded,
    visitAt_excluded path parent excluded']
  refine ⟨?_, ?_⟩
  · rw [Visit.keptAll_excluded, Visit.keptAll_excluded]
  · rw [Visit.nodesAll, Visit.nodesAll]
    rfl

/-- In a selection set that is entered from a frame stands a spread of the fragment, which is not excluded and
leads into it. -/
def Expands (scope : Scope) (f : Frame) (name : String) : Prop :=
  ∃ g directives, Relation.ReflTransGen scope.Calls f g ∧
    .spread name directives ∈ g.selections ∧
    (exclusion scope.vars directives).excluded = false ∧ name ∉ g.path

theorem Expands.of_call {f g : Frame} {name : String} (call : scope.Calls f g)
    (expands : scope.Expands g name) : scope.Expands f name := by
  obtain ⟨h, directives, reached, rest⟩ := expands
  exact ⟨h, directives, .head call reached, rest⟩

/-- An excluded spread leads into no fragment. -/
theorem not_expands_excluded {path : List String} {parent : Option TypeDef} {name other : String}
    {directives : List Directive}
    (excluded : (exclusion scope.vars directives).excluded = true) :
    ¬ scope.Expands ⟨path, parent, [.spread name directives]⟩ other := by
  rintro ⟨g, others, reached, member, included, -⟩
  rcases Relation.ReflTransGen.cases_head reached with rfl | ⟨h, call, -⟩
  · cases List.mem_singleton.mp member
    rw [excluded] at included
    cases included
  · cases call with
    | field head below t field member => cases List.mem_singleton.mp member
    | inline condition directives below member => cases List.mem_singleton.mp member
    | spread name directives body member included =>
      cases List.mem_singleton.mp member
      rw [excluded] at included
      cases included

theorem expand_congr_of_visitAt {table : List Fragment} {path : List String}
    {parent : Option TypeDef} {selections : List Selection}
    (same : ∀ s ∈ selections,
      (scope.onTable table).visitAt path parent s = scope.visitAt path parent s) :
    (scope.onTable table).expand path parent selections = scope.expand path parent selections := by
  induction selections with
  | nil => rw [expand_nil, expand_nil]
  | cons s rest ih =>
    rw [List.forall_mem_cons] at same
    rw [expand_cons, expand_cons, same.1, ih same.2]

/-- A selection is visited alike with another table if this holds of the frames that are called from its set
and the spread finds the same fragment. -/
theorem visitAt_congr_of_calls {table : List Fragment} {f : Frame} {s : Selection}
    (member : s ∈ f.selections)
    (entered : ∀ g, scope.Calls f g → (scope.onTable table).expand g.path g.parent g.selections =
      scope.expand g.path g.parent g.selections)
    (found : ∀ name, scope.Expands f name →
      (scope.onTable table).fragment? name = scope.fragment? name) :
    (scope.onTable table).visitAt f.path f.parent s = scope.visitAt f.path f.parent s := by
  cases left : (exclusion scope.vars s.directives).excluded with
  | true =>
    rw [visitAt_excluded _ _ left, @visitAt_excluded (scope.onTable table) _ _ s left]
    rfl
  | false =>
    cases s with
    | field head below =>
      rw [Selection.directives] at left
      cases resolved : resolve? f.parent head.name with
      | none =>
        rw [visitAt_unresolved _ _ below left resolved,
          @visitAt_unresolved (scope.onTable table) _ _ head below left resolved]
        rfl
      | some typed =>
        obtain ⟨t, field⟩ := typed
        rw [visitAt_resolved _ _ below left resolved,
          @visitAt_resolved (scope.onTable table) _ _ head below t field left resolved]
        have inner : (scope.onTable table).expand f.path (scope.schema.type? field.type.base) below =
            scope.expand f.path (scope.schema.type? field.type.base) below := by
          by_cases empty : below = []
          · rw [empty, expand_nil, expand_nil]
          · exact entered _ (.field head below t field member left resolved empty)
        exact congrArg (Visit.field _ _) inner
    | inline condition directives below =>
      rw [Selection.directives] at left
      rw [visitAt_inline _ _ condition below left,
        @visitAt_inline (scope.onTable table) _ _ condition directives below left]
      exact congrArg (Visit.group _) (entered _ (.inline condition directives below member left))
    | spread name directives =>
      rw [Selection.directives] at left
      by_cases onPath : name ∈ f.path
      · rw [visitAt_onPath _ _ left onPath,
          @visitAt_onPath (scope.onTable table) _ _ name directives left onPath]
        rfl
      have same := found name ⟨f, directives, .refl, member, left, onPath⟩
      cases defined : scope.fragment? name with
      | none =>
        rw [visitAt_undefined _ _ left defined,
          @visitAt_undefined (scope.onTable table) _ _ name directives left (same.trans defined)]
        rfl
      | some body =>
        rw [visitAt_expanded _ _ left onPath defined, @visitAt_expanded (scope.onTable table) _ _
          name directives body left onPath (same.trans defined)]
        exact congrArg (Visit.group _)
          (entered _ (.spread name directives body member left onPath defined))

/-- Only the fragments that are expanded matter. The induction is on the rank: what a called frame expands is
expanded by the caller. -/
theorem expand_congr_of_expands {table : List Fragment} (f : Frame)
    (found : ∀ name, scope.Expands f name →
      (scope.onTable table).fragment? name = scope.fragment? name) :
    (scope.onTable table).expand f.path f.parent f.selections =
      scope.expand f.path f.parent f.selections := by
  induction bound : scope.rank f using Nat.strong_induction_on generalizing f with
  | _ n ih =>
    subst bound
    have entered : ∀ g, scope.Calls f g → (scope.onTable table).expand g.path g.parent g.selections =
        scope.expand g.path g.parent g.selections := by
      intro g call
      exact ih _ call.rank_lt g (fun name expands => found name (expands.of_call call)) rfl
    exact expand_congr_of_visitAt fun s member => visitAt_congr_of_calls member entered found

section Scores

variable {chain : List (Estimate σ)}

theorem scoreFrom_pruned (path : List String)
    (parent : Option TypeDef) (selections : List Selection) (start : Int) :
    Matches SameMemory (scope.scoreFrom chain path start parent selections) (do
      let (cost, count) ← scope.pruned.scoreFrom chain path start parent
        (Selection.pruneAll scope.vars selections)
      return (cost, count + Visit.removalsAll (scope.expand path parent selections))) := by
  have counted := Visit.nodesAll_keptAll (scope.expand path parent selections)
  rw [scoreFrom_eq_priceFrom, scoreFrom_eq_priceFrom, expand_prune, Visit.priceFrom,
    Visit.priceFrom, bind_assoc]
  refine (Visit.priceAll_keptAll _ _).bind fun cost => ?_
  rw [pure_bind, counted, Int.natCast_add, ← Int.add_assoc]
  exact .pure _

theorem scoreFrom_of_sameKept {path : List String} {parent : Option TypeDef} {scope' : Scope}
    {selections selections' : List Selection}
    (same : Visit.SameKept (scope.expand path parent selections)
      (scope'.expand path parent selections')) (start : Int) :
    Matches SameMemory (scope.scoreFrom chain path start parent selections)
      (scope'.scoreFrom chain path start parent selections') := by
  rw [scoreFrom_eq_priceFrom, scoreFrom_eq_priceFrom, Visit.priceFrom, Visit.priceFrom]
  refine (Visit.priceAll_of_keptAll_eq same.1 _).bind fun cost => ?_
  rw [same.2]
  exact .pure _

end Scores

/-- Everything that directives exclude can be deleted, from an operation and from all fragments. The cost or
the fault stays the same, the memory of the estimators too, and so do their calls, each with its arguments,
its types and the cost of its children; the count is lower by one for every visit of a selection that was
deleted. And no selection that is excluded matters: it can be exchanged for any other that is excluded, in
the operation and in fragments, whatever its arguments and all that is below it, and nothing changes. Nor does
it matter what stands in fragments that are only spread where this is excluded. -/
theorem excluded_selections_deletable (scope : Scope) (chain : List (Estimate σ))
    (path : List String) (parent : Option TypeDef) (selections : List Selection) (start : Int) :
    Matches SameMemory (scope.scoreFrom chain path start parent selections) (do
      let (cost, count) ← scope.pruned.scoreFrom chain path start parent
        (Selection.pruneAll scope.vars selections)
      return (cost, count + Visit.removalsAll (scope.expand path parent selections))) ∧
    Matches SameMemory (scope.scoreFrom (loggedChain chain) path start parent selections) (do
      let (cost, count) ← scope.pruned.scoreFrom (loggedChain chain) path start parent
        (Selection.pruneAll scope.vars selections)
      return (cost, count + Visit.removalsAll (scope.expand path parent selections))) ∧
    (∀ table selections', List.Forall₂ (Fragment.Related
        (Selection.Changed (Selection.Swapped scope.vars))) scope.fragments table →
      Selection.Changed (Selection.Swapped scope.vars) selections selections' →
      Matches SameMemory (scope.scoreFrom chain path start parent selections)
        ((scope.onTable table).scoreFrom chain path start parent selections') ∧
      Matches SameMemory (scope.scoreFrom (loggedChain chain) path start parent selections)
        ((scope.onTable table).scoreFrom (loggedChain chain) path start parent selections')) ∧
    ∀ table, (∀ name, scope.Expands ⟨path, parent, selections⟩ name →
        (scope.onTable table).fragment? name = scope.fragment? name) →
      (scope.onTable table).scoreFrom chain path start parent selections =
        scope.scoreFrom chain path start parent selections ∧
      (scope.onTable table).scoreFrom (loggedChain chain) path start parent selections =
        scope.scoreFrom (loggedChain chain) path start parent selections := by
  refine ⟨scoreFrom_pruned path parent selections start,
    scoreFrom_pruned path parent selections start, ?_, ?_⟩
  · intro table selections' tables changed
    have same : Visit.SameKept (scope.expand path parent selections)
        ((scope.onTable table).expand path parent selections') :=
      expand_changed Visit.sameKept_congruence
        (fun swapped path parent => @sameKept_swapped (scope.onTable table) _ _ swapped path parent)
        tables changed path parent
    exact ⟨scoreFrom_of_sameKept same start, scoreFrom_of_sameKept same start⟩
  · intro table found
    have same := expand_congr_of_expands ⟨path, parent, selections⟩ found
    refine ⟨?_, ?_⟩
    · rw [scoreFrom_eq_priceFrom, scoreFrom_eq_priceFrom, same]
    · rw [scoreFrom_eq_priceFrom, scoreFrom_eq_priceFrom, same]

/-- A fragment with an excluded field and an excluded spread, and what is spread there. -/
def sparing : Scope :=
  ⟨oneFragment.schema, [⟨"A", "T", [], [.field ⟨none, "a", [], [⟨"skip", [("if", .var "yes")]⟩]⟩ [],
    .spread "B" [⟨"include", [("if", .var "no")]⟩], .field ⟨none, "a", [], []⟩ []]⟩,
    ⟨"B", "T", [], [.field ⟨none, "a", [], []⟩ []]⟩], [("yes", .bool true), ("no", .bool false)]⟩

/-- The fragment twice, and once where it is excluded. -/
def spared : List Selection :=
  [.spread "A" [], .inline none [⟨"skip", [("if", .bool true)]⟩] [.spread "A" []], .spread "A" []]

/-- Five of nine visits are excluded. With another selection in the place of an excluded one, the two
fields are recorded as before. And the fragment of an excluded spread may be missing. -/
theorem excluded_selections_deletable_spared :
    Visit.removalsAll (sparing.expand [] (sparing.schema.type? "T") spared) = 5 ∧
    ((sparing.scoreFrom [(Formula.recording .null).estimate] [] 0 (sparing.schema.type? "T")
      spared).exec ⟨.empty, #[]⟩).1 = .ok (.int 2, 9) ∧
    ((sparing.scoreFrom [(Formula.recording .null).estimate] [] 0 (sparing.schema.type? "T")
      spared).exec ⟨.empty, #[]⟩).2.memory =
    ((sparing.scoreFrom [(Formula.recording .null).estimate] [] 0 (sparing.schema.type? "T")
      [.spread "A" [], .spread "B" [⟨"skip", [("if", .bool true)]⟩], .spread "A" []]).exec
        ⟨.empty, #[]⟩).2.memory ∧
    (sparing.onTable []).scoreFrom [(Formula.recording .null).estimate] [] 0
      (sparing.schema.type? "T") [.spread "A" [⟨"skip", [("if", .bool true)]⟩]] =
    sparing.scoreFrom [(Formula.recording .null).estimate] [] 0 (sparing.schema.type? "T")
      [.spread "A" [⟨"skip", [("if", .bool true)]⟩]] := by
  obtain ⟨deleted, -, exchanged, -⟩ := excluded_selections_deletable sparing
    [(Formula.recording .null).estimate] []
    (sparing.schema.type? "T") spared 0
  have same := exchanged sparing.fragments [.spread "A" [],
    .spread "B" [⟨"skip", [("if", .bool true)]⟩], .spread "A" []]
    (List.forall₂_same.mpr fun _ _ => ⟨rfl, rfl, .refl⟩)
    (.single (.later _ (.here (.head _ rfl rfl))))
  obtain ⟨-, -, -, undefined⟩ := excluded_selections_deletable sparing
    [(Formula.recording .null).estimate] []
    (sparing.schema.type? "T") [.spread "A" [⟨"skip", [("if", .bool true)]⟩]] 0
  refine ⟨rfl, ?_, (same.1 ⟨.empty, #[]⟩ ⟨.empty, #[]⟩ rfl).2,
    (undefined [] fun name expands => absurd expands (not_expands_excluded rfl)).1⟩
  rw [(deleted ⟨.empty, #[]⟩ ⟨.empty, #[]⟩ rfl).1]
  rfl

end Scope

end QueryCost
