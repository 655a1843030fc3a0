import QueryCost.Visit.Price
import QueryCost.Proofs.Frames
import QueryCost.Proofs.Run

/-!
# The walk over shared state

Selections can also be priced while they are walked through, without visits in between: one set holds
the names of the fragments being expanded during the whole walk, a name is added before the body of
its fragment and discarded when that is left, with a result or without. The walk is indexed by fuel,
one unit for each nested selection set, and running out of it is an outcome of its own.

`Follows` says that a walk does what a run does and leaves the set as it was. It is kept by all steps
of the walk, so with fuel beyond the rank of a frame the walk follows the price of its visits.
-/
namespace QueryCost

variable {σ α β : Type}

/-- Why a walk ends without a result. -/
inductive Halt where
  /-- There was no fuel left for a nested selection set. -/
  | exhausted
  | fault (f : Fault)

/-- What a walk changes: the session, and the names of the fragments being expanded. -/
structure Trail (σ : Type) where
  session : Session σ
  visited : Finset String

abbrev Walk (σ : Type) := ExceptT Halt (StateM (Trail σ))

namespace Walk

/-- How a walk ends from a trail, and the trail that it leaves in either case. -/
def exec (walk : Walk σ α) (trail : Trail σ) : Except Halt α × Trail σ :=
  walk.run trail

/-- A run as a walk; it does not see the fragments being expanded. -/
def ofRun (run : Run σ α) : Walk σ α := fun trail =>
  match run.exec trail.session with
  | (.ok a, session) => (.ok a, ⟨session, trail.visited⟩)
  | (.error fault, session) => (.error (.fault fault), ⟨session, trail.visited⟩)

/-- Walk through the body of a fragment. Its name is discarded however the body ends. -/
def expanding (name : String) (body : Walk σ α) : Walk σ α := fun trail =>
  match body.exec ⟨trail.session, insert name trail.visited⟩ with
  | (result, after) => (result, ⟨after.session, after.visited.erase name⟩)

theorem exec_bind (x : Walk σ α) (f : α → Walk σ β) (t : Trail σ) :
    (x >>= f).exec t = match x.exec t with
      | (.ok a, after) => (f a).exec after
      | (.error halt, after) => (.error halt, after) := by
  rcases h : x.run t with ⟨_ | a, after⟩
  all_goals
    simp only [ExceptT.run] at h
    simp only [exec, ExceptT.run, bind, ExceptT.bind, ExceptT.mk, StateT.bind, h]
    rfl

@[simp] theorem exec_get (t : Trail σ) : (get : Walk σ (Trail σ)).exec t = (.ok t, t) := rfl

theorem exec_ofRun (run : Run σ α) (t : Trail σ) :
    (ofRun run).exec t = match run.exec t.session with
      | (.ok a, session) => (.ok a, ⟨session, t.visited⟩)
      | (.error fault, session) => (.error (.fault fault), ⟨session, t.visited⟩) := rfl

theorem exec_expanding (name : String) (body : Walk σ α) (t : Trail σ) :
    (expanding name body).exec t = match body.exec ⟨t.session, insert name t.visited⟩ with
      | (result, after) => (result, ⟨after.session, after.visited.erase name⟩) := rfl

/-- From every session, with these fragments being expanded, the walk ends as the run does and the
fragments are the same again. -/
def Follows (visited : Finset String) (walk : Walk σ α) (run : Run σ α) : Prop :=
  ∀ s, walk.exec ⟨s, visited⟩ = (ofRun run).exec ⟨s, visited⟩

namespace Follows

variable {visited : Finset String}

theorem ofRun (run : Run σ α) : Follows visited (ofRun run) run := fun _ => rfl

theorem pure (a : α) : Follows visited (pure a : Walk σ α) (pure a) := fun _ => rfl

theorem bind {x : Walk σ α} {run : Run σ α} {f : α → Walk σ β} {next : α → Run σ β}
    (first : Follows visited x run) (rest : ∀ a, Follows visited (f a) (next a)) :
    Follows visited (x >>= f) (run >>= next) := by
  intro s
  rw [exec_bind, first s, exec_ofRun, exec_ofRun, Run.exec_bind]
  rcases run.exec s with ⟨_ | a, between⟩
  · rfl
  · exact rest a between

/-- However such a walk ends, it leaves the set as it found it. -/
theorem visited_eq {walk : Walk σ α} {run : Run σ α} (follows : Follows visited walk run)
    (s : Session σ) : (walk.exec ⟨s, visited⟩).2.visited = visited := by
  rw [follows s, exec_ofRun]
  rcases run.exec s with ⟨_ | a, after⟩ <;> rfl

/-- A walk that reads the set knows what it holds. -/
theorem read {next : Trail σ → Walk σ α} {run : Run σ α}
    (rest : ∀ s, Follows visited (next ⟨s, visited⟩) run) : Follows visited (get >>= next) run := by
  intro s
  rw [exec_bind, exec_get]
  exact rest s s

/-- A name that is not in the set is not there afterwards, so the set is the same again. -/
theorem expanding {name : String} {body : Walk σ α} {run : Run σ α} (fresh : name ∉ visited)
    (inside : Follows (insert name visited) body run) :
    Follows visited (expanding name body) run := by
  intro s
  rw [exec_expanding, inside s, exec_ofRun, exec_ofRun]
  rcases run.exec s with ⟨_ | a, after⟩
  · simp [Finset.erase_insert fresh]
  · simp [Finset.erase_insert fresh]

end Follows

end Walk

/-- Price visits on from a total, and count their nodes on from a number. -/
def Visit.priceFrom (chain : List (Estimate σ)) (total : Number) (count : Int)
    (visits : List Visit) : Run σ (Number × Int) := do
  let cost ← priceAll chain total visits
  return (cost, count + nodesAll visits)

theorem Visit.priceFrom_nil (chain : List (Estimate σ)) (total : Number) (count : Int) :
    priceFrom chain total count [] = pure (total, count) := by
  simp [priceFrom, priceAll, nodesAll]

theorem Visit.priceFrom_cons (chain : List (Estimate σ)) (total : Number) (count : Int) (v : Visit)
    (rest : List Visit) :
    priceFrom chain total count (v :: rest) = (do
      match (← v.price chain) with
      | none => priceFrom chain total (count + v.nodes) rest
      | some cost => do
        let total ← Run.ofExcept (total.add cost)
        priceFrom chain total (count + v.nodes) rest) := by
  have together : count + ((v.nodes + nodesAll rest : Nat) : Int) =
      count + v.nodes + nodesAll rest := by omega
  simp only [priceFrom, priceAll, nodesAll, bind_assoc, together]
  congr 1
  funext cost?
  cases cost? with
  | none => rfl
  | some cost => simp

namespace Scope

open Walk

/-- What enters a nested selection set: its type, its selections and the nodes counted so far. -/
abbrev Enter (σ : Type) := Option TypeDef → List Selection → Int → Walk σ (Number × Int)

/-- The children of a field; without any there is nothing to enter. -/
def walkChildren (enter : Enter σ) (type : Option TypeDef) (selections : List Selection)
    (count : Int) : Walk σ (Number × Int) :=
  if selections.isEmpty then return (.int 0, count) else enter type selections count

variable (scope : Scope) (chain : List (Estimate σ)) (enter : Enter σ) (parent : Option TypeDef)

/-- A field: its arguments, then its children, then the chain. -/
def walkField (head : FieldHead) (selections : List Selection) (count : Int) :
    Walk σ (Number × Int) :=
  match resolve? parent head.name with
  | none => return (.int 1, count)
  | some (t, field) => do
    ofRun (Run.noteAll (scope.site t field head).2)
    let (child, count) ←
      walkChildren enter (scope.schema.type? field.type.base) selections count
    let cost ← ofRun ((scope.site t field head).1.price chain child)
    return (cost, count)

/-- A selection that is not left out: what it adds to the cost, if anything, and the count after it. -/
def walkIncluded (count : Int) : Selection → Walk σ (Option Number × Int)
  | .field head selections => do
    let (cost, count) ← scope.walkField chain enter parent head selections count
    return (some cost, count)
  | .inline condition _ selections => do
    let (cost, count) ← enter (scope.conditioned condition parent) selections count
    return (some cost, count)
  | .spread name _ => do
    if name ∈ (← get).visited then return (none, count)
    match scope.fragment? name with
    | none => return (none, count)
    | some f => do
      let (cost, count) ←
        expanding name (enter (scope.schema.type? f.condition) f.selections count)
      return (some cost, count)

/-- Every selection is counted, also one that is left out. -/
def walkSelection (count : Int) (s : Selection) : Walk σ (Option Number × Int) := do
  let e := exclusion scope.vars s.directives
  ofRun (Run.noteAll e.notices)
  if e.excluded then return (none, count + 1)
  scope.walkIncluded chain enter parent (count + 1) s

/-- The selections of a set from left to right. -/
def walkAll : (total : Number) → (count : Int) → List Selection → Walk σ (Number × Int)
  | total, count, [] => return (total, count)
  | total, count, s :: rest => do
    match (← scope.walkSelection chain enter parent count s) with
    | (none, count) => walkAll total count rest
    | (some cost, count) => do
      let total ← ofRun (Run.ofExcept (total.add cost))
      walkAll total count rest

/-- Walk through a selection set with fuel for so many nested ones. -/
def walkWithin (scope : Scope) (chain : List (Estimate σ)) : (fuel : Nat) → Enter σ
  | 0, _, _, _ => throw .exhausted
  | fuel + 1, parent, selections, count =>
    scope.walkAll chain (scope.walkWithin chain fuel) parent (.int 0) count selections

variable {scope chain enter parent}

theorem scoreFrom_eq_priceFrom (scope : Scope) (chain : List (Estimate σ)) (path : List String)
    (count : Int) (parent : Option TypeDef) (selections : List Selection) :
    scope.scoreFrom chain path count parent selections =
      Visit.priceFrom chain (.int 0) count (scope.expand path parent selections) := by
  simp [scoreFrom, score, Visit.priceFrom]

/-- The nested selection sets that a frame calls are entered as their visits are priced. -/
def Entering (scope : Scope) (chain : List (Estimate σ)) (enter : Enter σ) (f : Frame) : Prop :=
  ∀ g, scope.Calls f g → ∀ count, Follows g.path.toFinset (enter g.parent g.selections count)
    (Visit.priceFrom chain (.int 0) count (scope.expand g.path g.parent g.selections))

/-- The price of a selection and the count after it. -/
def priceAt (scope : Scope) (chain : List (Estimate σ)) (f : Frame) (count : Int) (s : Selection) :
    Run σ (Option Number × Int) := do
  let cost ← (scope.visitAt f.path f.parent s).price chain
  return (cost, count + (scope.visitAt f.path f.parent s).nodes)

theorem priceAt_of_group {f : Frame} {s : Selection} {notices : List Notice} {below : List Visit}
    (visit : scope.visitAt f.path f.parent s = .group notices below) (count : Int) :
    scope.priceAt chain f count s = (do
      Run.noteAll notices
      let (cost, count) ← Visit.priceFrom chain (.int 0) (count + 1) below
      return (some cost, count)) := by
  simp [priceAt, visit, Visit.price, Visit.nodes, Visit.priceFrom, Int.add_assoc]

theorem priceAt_of_field {f : Frame} {s : Selection} {notices more : List Notice} {site : Site}
    {below : List Visit}
    (visit : scope.visitAt f.path f.parent s = .field (notices ++ more) site below) (count : Int) :
    scope.priceAt chain f count s = (do
      Run.noteAll notices
      Run.noteAll more
      let (child, count) ← Visit.priceFrom chain (.int 0) (count + 1) below
      let cost ← site.price chain child
      return (some cost, count)) := by
  simp [priceAt, visit, Visit.price, Visit.nodes, Visit.priceFrom, Int.add_assoc,
    Run.noteAll_append]

theorem walkField_follows {f : Frame} (entering : scope.Entering chain enter f)
    {head : FieldHead} {selections : List Selection} {t : TypeDef} {field : FieldDef}
    (member : .field head selections ∈ f.selections)
    (included : (exclusion scope.vars head.directives).excluded = false)
    (resolved : resolve? f.parent head.name = some (t, field)) (count : Int) :
    Follows f.path.toFinset (scope.walkSelection chain enter f.parent count (.field head selections))
      (scope.priceAt chain f count (.field head selections)) := by
  rw [priceAt_of_field (visitAt_resolved f.path f.parent selections included resolved)]
  simp only [walkSelection, Selection.directives, included, Bool.false_eq_true, if_false,
    walkIncluded, walkField, resolved, bind_assoc, pure_bind]
  apply Follows.bind (Follows.ofRun _)
  intro _
  apply Follows.bind (Follows.ofRun _)
  intro _
  apply Follows.bind
  · by_cases none : selections = []
    · subst none
      rw [expand_nil, Visit.priceFrom_nil]
      exact Follows.pure _
    · simp only [walkChildren, List.isEmpty_iff, none, if_false]
      exact entering _ (.field head selections t field member included resolved none) (count + 1)
  · rintro ⟨child, count⟩
    apply Follows.bind (Follows.ofRun _)
    intro cost
    exact Follows.pure _

theorem walkInline_follows {f : Frame} (entering : scope.Entering chain enter f)
    {condition : Option String} {directives : List Directive} {selections : List Selection}
    (member : .inline condition directives selections ∈ f.selections)
    (included : (exclusion scope.vars directives).excluded = false) (count : Int) :
    Follows f.path.toFinset
      (scope.walkSelection chain enter f.parent count (.inline condition directives selections))
      (scope.priceAt chain f count (.inline condition directives selections)) := by
  rw [priceAt_of_group (visitAt_inline f.path f.parent condition selections included)]
  simp only [walkSelection, Selection.directives, included, Bool.false_eq_true, if_false,
    walkIncluded]
  apply Follows.bind (Follows.ofRun _)
  intro _
  apply Follows.bind
  · exact entering _ (.inline condition directives selections member included) (count + 1)
  · intro _
    exact Follows.pure _

/-- The set holds the fragments on the path, so the walk skips a spread exactly if the expansion does,
and the body of a fragment is entered with its name added to both. -/
theorem walkSpread_follows {f : Frame} (entering : scope.Entering chain enter f)
    {name : String} {directives : List Directive} (member : .spread name directives ∈ f.selections)
    (included : (exclusion scope.vars directives).excluded = false) (count : Int) :
    Follows f.path.toFinset
      (scope.walkSelection chain enter f.parent count (.spread name directives))
      (scope.priceAt chain f count (.spread name directives)) := by
  simp only [walkSelection, Selection.directives, included, Bool.false_eq_true, if_false,
    walkIncluded]
  by_cases onPath : name ∈ f.path
  · simp only [priceAt, visitAt_onPath f.path f.parent included onPath, Visit.price, Visit.nodes,
      bind_assoc, pure_bind]
    apply Follows.bind (Follows.ofRun _)
    intro _
    apply Follows.read
    intro s
    simp only [List.mem_toFinset, onPath, if_true]
    exact Follows.pure _
  · cases defined : scope.fragment? name with
    | none =>
      simp only [priceAt, visitAt_undefined f.path f.parent included defined, Visit.price,
        Visit.nodes, bind_assoc, pure_bind]
      apply Follows.bind (Follows.ofRun _)
      intro _
      apply Follows.read
      intro s
      simp only [List.mem_toFinset, onPath, if_false]
      exact Follows.pure _
    | some body =>
      have inside := entering _ (.spread name directives body member included onPath defined)
        (count + 1)
      rw [List.toFinset_cons] at inside
      rw [priceAt_of_group (visitAt_expanded f.path f.parent included onPath defined)]
      apply Follows.bind (Follows.ofRun _)
      intro _
      apply Follows.read
      intro s
      simp only [List.mem_toFinset, onPath, if_false]
      apply Follows.bind (Follows.expanding (by simpa using onPath) inside)
      intro _
      exact Follows.pure _

theorem walkSelection_follows {f : Frame} (entering : scope.Entering chain enter f) {s : Selection}
    (member : s ∈ f.selections) (count : Int) :
    Follows f.path.toFinset (scope.walkSelection chain enter f.parent count s)
      (scope.priceAt chain f count s) := by
  cases left : (exclusion scope.vars s.directives).excluded with
  | true =>
    simp only [walkSelection, left, if_true, priceAt, visitAt_excluded f.path f.parent left,
      Visit.price, Visit.nodes, bind_assoc, pure_bind]
    exact Follows.bind (Follows.ofRun _) fun _ => Follows.pure _
  | false =>
    cases s with
    | field head selections =>
      cases resolved : resolve? f.parent head.name with
      | none =>
        rw [Selection.directives] at left
        simp only [walkSelection, Selection.directives, left, Bool.false_eq_true, if_false,
          walkIncluded, walkField, resolved, priceAt,
          visitAt_unresolved f.path f.parent selections left resolved, Visit.price, Visit.nodes,
          bind_assoc, pure_bind]
        exact Follows.bind (Follows.ofRun _) fun _ => Follows.pure _
      | some found => exact walkField_follows entering member left resolved count
    | inline condition directives selections =>
      exact walkInline_follows entering member left count
    | spread name directives => exact walkSpread_follows entering member left count

/-- The loop over a selection set prices its visits from left to right. -/
theorem walkAll_follows {f : Frame} (entering : scope.Entering chain enter f)
    {selections : List Selection} (members : ∀ s ∈ selections, s ∈ f.selections) (total : Number)
    (count : Int) :
    Follows f.path.toFinset (scope.walkAll chain enter f.parent total count selections)
      (Visit.priceFrom chain total count (scope.expand f.path f.parent selections)) := by
  induction selections generalizing total count with
  | nil =>
    rw [expand_nil, Visit.priceFrom_nil]
    exact Follows.pure _
  | cons s rest ih =>
    have first := walkSelection_follows entering (members s (by simp)) count
    have remaining := ih fun other later => members other (by simp [later])
    have split : Visit.priceFrom chain total count (scope.expand f.path f.parent (s :: rest)) = (do
        match (← scope.priceAt chain f count s) with
        | (none, count) =>
          Visit.priceFrom chain total count (scope.expand f.path f.parent rest)
        | (some cost, count) => do
          let total ← Run.ofExcept (total.add cost)
          Visit.priceFrom chain total count (scope.expand f.path f.parent rest)) := by
      rw [expand_cons, Visit.priceFrom_cons, priceAt]
      simp only [bind_assoc, pure_bind]
      congr 1
      funext cost?
      cases cost? <;> rfl
    rw [split, walkAll]
    apply Follows.bind first
    rintro ⟨cost?, count⟩
    cases cost? with
    | none => exact remaining total count
    | some cost => exact Follows.bind (Follows.ofRun _) fun total => remaining total count

/-- With fuel beyond the rank of a frame, the walk does what the price of the frame's visits does:
every nested frame has a lower rank, so the fuel that is left covers it as well. -/
theorem walkWithin_follows (chain : List (Estimate σ)) {fuel : Nat} {f : Frame}
    (enough : scope.rank f < fuel) (count : Int) :
    Follows f.path.toFinset (scope.walkWithin chain fuel f.parent f.selections count)
      (Visit.priceFrom chain (.int 0) count (scope.expand f.path f.parent f.selections)) := by
  induction fuel generalizing f count with
  | zero => omega
  | succ fuel ih =>
    rw [walkWithin]
    apply walkAll_follows _ (fun _ member => member)
    intro g call count
    have lower := call.rank_lt
    exact ih (by omega) count

end Scope

end QueryCost
