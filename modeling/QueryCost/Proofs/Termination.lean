import QueryCost.Proofs.Walk

/-!
# Termination of the walk

Fragments may spread themselves and each other in any way. A walk still ends: a spread on the path is
skipped, so the fragments being expanded are always different ones, and each nested selection set
decreases the fragments that are left, or keeps them and decreases the size. Counted as fuel, the
number of fragments times the largest body covers every walk, and more fuel makes no difference.
-/
namespace QueryCost.Scope

open Walk

variable {σ : Type}

/-- Fuel for walking through selections below any path: a body for each fragment, one step into each,
and the selections themselves. -/
def fuelBound (scope : Scope) (selections : List Selection) : Nat :=
  scope.fragments.length * (scope.largestBody + 1) + Selection.sizeAll selections + 1

theorem rank_lt_fuelBound (scope : Scope) (f : Frame) :
    scope.rank f < scope.fuelBound f.selections := by
  have left := Nat.mul_le_mul_right (scope.largestBody + 1) (scope.unexpanded_le f.path)
  unfold rank fuelBound
  omega

/-- A run that is taken as a walk never lacks fuel. -/
theorem ofRun_ne_exhausted {α : Type} (run : Run σ α) (t : Trail σ) :
    ((ofRun run).exec t).1 ≠ .error .exhausted := by
  rw [exec_ofRun]
  rcases run.exec t.session with ⟨_ | a, after⟩ <;> simp

/-- Every walk ends, whatever the fragments, the path and the estimators are. The frames that a frame
calls are the only ones its loop enters, each call decreases the fragments that are left or else the
size, and along a chain of calls the fragments being expanded are distinct and defined. Any fuel from
the bound on gives the same result, which is the price of the visits. -/
theorem walk_terminates (scope : Scope) (chain : List (Estimate σ)) (path : List String)
    (parent : Option TypeDef) (selections : List Selection) (count : Int) :
    (∀ f enter total count, (∀ g, scope.Calls f g → ∀ count, Follows g.path.toFinset
        (enter g.parent g.selections count)
        (scope.scoreFrom chain g.path count g.parent g.selections)) →
      Follows f.path.toFinset (scope.walkAll chain enter f.parent total count f.selections)
        (Visit.priceFrom chain total count (scope.expand f.path f.parent f.selections))) ∧
    (∀ f g, scope.Calls f g →
      Prod.Lex (· < ·) (· < ·) (scope.measure g) (scope.measure f)) ∧
    (∀ f, Relation.ReflTransGen scope.Calls ⟨path, parent, selections⟩ f →
      ∃ names, f.path = names ++ path ∧ names.Nodup ∧
        ∀ name ∈ names, name ∉ path ∧ (scope.fragment? name).isSome) ∧
    ∀ fuel, scope.fuelBound selections ≤ fuel → ∀ s : Session σ,
      ((scope.walkWithin chain fuel parent selections count).exec ⟨s, path.toFinset⟩).1 ≠
        .error .exhausted ∧
      (scope.walkWithin chain fuel parent selections count).exec ⟨s, path.toFinset⟩ =
        (ofRun (scope.scoreFrom chain path count parent selections)).exec ⟨s, path.toFinset⟩ := by
  refine ⟨?_, fun f g call => call.measure_lex, fun f calls => Calls.chain_path calls, ?_⟩
  · intro f enter total count entering
    apply walkAll_follows _ (fun _ member => member)
    intro g call count
    rw [← scoreFrom_eq_priceFrom]
    exact entering g call count
  · intro fuel enough s
    have below := scope.rank_lt_fuelBound ⟨path, parent, selections⟩
    have follows := walkWithin_follows chain (Nat.lt_of_lt_of_le below enough) count s
    rw [← scoreFrom_eq_priceFrom] at follows
    rw [follows]
    exact ⟨ofRun_ne_exhausted _ _, rfl⟩

/-- Two fragments that spread each other and themselves. -/
def tangled : Scope :=
  ⟨⟨[], none, none, none, []⟩,
    [⟨"A", "T", [], [.spread "B" [], .spread "A" []]⟩,
      ⟨"B", "T", [], [.spread "A" [], .spread "B" [], .inline none [] [.spread "A" []]]⟩], []⟩

theorem walk_terminates_tangled :
    tangled.fuelBound [.spread "A" [], .spread "B" []] ≤ 13 ∧
      ((tangled.walkWithin ([] : List (Estimate Unit)) 13 none [.spread "A" [], .spread "B" []]
        0).exec ⟨⟨(), #[]⟩, ∅⟩).1 ≠ .error .exhausted := by
  have enough : tangled.fuelBound [.spread "A" [], .spread "B" []] ≤ 13 := by decide
  exact ⟨enough, ((walk_terminates tangled [] [] none _ 0).2.2.2 13 enough ⟨(), #[]⟩).1⟩

end QueryCost.Scope
