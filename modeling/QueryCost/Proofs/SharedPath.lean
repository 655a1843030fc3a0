import QueryCost.Proofs.Termination

/-!
# One set for all paths

The walk keeps the fragments being expanded in one set that is changed in place. It must act like a
path that is handed down by value, also when an estimator fails in the middle of a nested fragment:
a name that stayed in the set would make later spreads of its fragment cost nothing.
-/
namespace QueryCost

variable {σ : Type}

/-- An estimate that writes each call to the end of a log, with the place of the estimate in its chain,
whether it then answers or fails. -/
def Estimate.logged (place : Nat) (estimate : Estimate σ) : Estimate (σ × List (Nat × Call)) :=
  fun call => (estimate call).onFirst fun _ log => log ++ [(place, call)]

/-- A chain that logs all calls of its estimates. -/
def loggedChain (chain : List (Estimate σ)) : List (Estimate (σ × List (Nat × Call))) :=
  chain.mapIdx Estimate.logged

namespace Scope

open Walk

/-- Walking with one set is pricing with a path by value. The result or the fault, the node count and
the session are the same, so are the calls of the estimators, and the set is what it was on every exit.
Hence the set is back at the path before each spread of a selection set, whatever its siblings expanded,
and the spread of a known fragment is expanded exactly if the fragment is not on the path. -/
theorem walk_eq_score_by_value (scope : Scope) (chain : List (Estimate σ)) (path : List String)
    (parent : Option TypeDef) (selections : List Selection) (fuel : Nat)
    (enough : scope.fuelBound selections ≤ fuel) :
    (∀ count s, (scope.walkWithin chain fuel parent selections count).exec ⟨s, path.toFinset⟩ =
      match (scope.scoreFrom chain path count parent selections).exec s with
      | (.ok result, after) => (.ok result, ⟨after, path.toFinset⟩)
      | (.error fault, after) => (.error (.fault fault), ⟨after, path.toFinset⟩)) ∧
    (∀ count s, ((scope.walkWithin (loggedChain chain) fuel parent selections count).exec
        ⟨s, path.toFinset⟩).2.session.memory.2 =
      ((scope.scoreFrom (loggedChain chain) path count parent selections).exec s).2.memory.2) ∧
    ∀ before name directives others body,
      selections = before ++ .spread name directives :: others →
      (exclusion scope.vars directives).excluded = false → scope.fragment? name = some body →
      (∀ total count s, ((scope.walkAll chain (scope.walkWithin chain fuel) parent total count
        before).exec ⟨s, path.toFinset⟩).2.visited = path.toFinset) ∧
      ∀ count, Follows path.toFinset
        (scope.walkSelection chain (scope.walkWithin chain fuel) parent count
          (.spread name directives)) (do
          Run.noteAll (exclusion scope.vars directives).notices
          if name ∈ path then return (none, count + 1)
          else
            let (cost, count) ← scope.scoreFrom chain (name :: path) (count + 1)
              (scope.schema.type? body.condition) body.selections
            return (some cost, count)) := by
  have below := Nat.lt_of_lt_of_le (scope.rank_lt_fuelBound ⟨path, parent, selections⟩) enough
  have whole : ∀ {τ : Type} (chain : List (Estimate τ)) count, Follows path.toFinset
      (scope.walkWithin chain fuel parent selections count)
      (scope.scoreFrom chain path count parent selections) := by
    intro τ chain count
    rw [scoreFrom_eq_priceFrom]
    exact walkWithin_follows chain below count
  -- Fuel that is enough for a frame is enough for the frames it calls.
  have entering : scope.Entering chain (scope.walkWithin chain fuel) ⟨path, parent, selections⟩ :=
    fun g call count => walkWithin_follows chain (Nat.lt_trans call.rank_lt below) count
  refine ⟨?_, ?_, ?_⟩
  · intro count s
    rw [whole chain count s, exec_ofRun]
    rcases (scope.scoreFrom chain path count parent selections).exec s with
      ⟨_ | result, after⟩ <;> rfl
  · intro count s
    rw [whole (loggedChain chain) count s, exec_ofRun]
    rcases (scope.scoreFrom (loggedChain chain) path count parent selections).exec s with
      ⟨_ | result, after⟩ <;> rfl
  · rintro before name directives others body rfl included defined
    refine ⟨?_, ?_⟩
    · intro total count s
      exact (walkAll_follows entering (fun other member => by simp [member]) total count).visited_eq s
    · intro count
      have follows := walkSelection_follows entering (s := .spread name directives) (by simp) count
      by_cases onPath : name ∈ path
      · simp only [priceAt, visitAt_onPath path parent included onPath, Visit.price, Visit.nodes,
          bind_assoc, pure_bind] at follows
        simpa [onPath] using follows
      · rw [priceAt_of_group (visitAt_expanded path parent included onPath defined)] at follows
        simpa [onPath, scoreFrom_eq_priceFrom] using follows

/-- A fragment with one field. -/
def oneFragment : Scope :=
  ⟨⟨[⟨"T", .object [] [⟨"a", .named "Int", [], none, none, []⟩], none⟩], none, none, none, []⟩,
    [⟨"A", "T", [], [.field ⟨none, "a", [], []⟩ []]⟩], []⟩

/-- An estimator that fails inside a fragment leaves the set as it was given. -/
theorem walk_eq_score_by_value_failing :
    (oneFragment.walkWithin [fun _ => throw (.raised "no price")] 6 none
      [.spread "A" [], .spread "A" []] 0).exec ⟨⟨(), #[]⟩, ["B"].toFinset⟩ =
      (.error (.fault (.raised "no price")), ⟨⟨(), #[]⟩, ["B"].toFinset⟩) := by
  have enough : oneFragment.fuelBound [.spread "A" [], .spread "A" []] ≤ 6 := by decide
  rw [(walk_eq_score_by_value oneFragment _ ["B"] none _ 6 enough).1]
  rfl

end Scope

end QueryCost
