import QueryCost.Rule
import QueryCost.Proofs.NumberOrder
import QueryCost.Proofs.Run

/-!
# The verdict of the rule

A rule decides on a document from the scores of its operations alone. `Rule.scored` collects these
scores in document order; `Rule.check_eq_scored` says that the rule does nothing else but take them in,
one after the other. What taking in a list of scores leads to is then a fact about lists: the first
score beyond a limit is reported, and without one the highest cost completes the document.
-/
namespace QueryCost

variable {σ : Type}

/-- A score that the limits do not allow. -/
def Limits.Exceeded (limits : Limits) (score : Score) : Prop :=
  limits.nodes < score.nodes ∨ limits.maximum.lt score.cost = true

namespace Limits

instance (limits : Limits) (score : Score) : Decidable (limits.Exceeded score) :=
  inferInstanceAs (Decidable (_ ∨ _))

/-- What is reported of a score beyond the limits: the nodes if there are too many, else the cost. -/
def report (limits : Limits) (score : Score) : Excess :=
  if limits.nodes < score.nodes then .nodes limits.nodes score.nodes
  else .cost limits.maximum score.cost

theorem excess?_of_exceeded {limits : Limits} {score : Score} (beyond : limits.Exceeded score) :
    limits.excess? score = some (limits.report score) := by
  unfold excess? report
  by_cases nodes : limits.nodes < score.nodes
  · simp [nodes]
  · have cost : limits.maximum.lt score.cost = true := beyond.resolve_left nodes
    simp [nodes, cost]

theorem excess?_of_not_exceeded {limits : Limits} {score : Score}
    (within : ¬ limits.Exceeded score) : limits.excess? score = none := by
  unfold Exceeded at within
  rw [not_or] at within
  simp [excess?, within.1, within.2]

end Limits

namespace Progress

/-- Take in scores one after the other. -/
def recordAll (limits : Limits) (p : Progress) (scored : List (Operation × Score)) : Progress :=
  scored.foldl (fun p x => p.record limits x.1.location x.2) p

@[simp] theorem recordAll_nil (limits : Limits) (p : Progress) : p.recordAll limits [] = p := rfl

@[simp] theorem recordAll_cons (limits : Limits) (p : Progress) (x : Operation × Score)
    (rest : List (Operation × Score)) :
    p.recordAll limits (x :: rest) = (p.record limits x.1.location x.2).recordAll limits rest := rfl

theorem recordAll_append (limits : Limits) (p : Progress) (xs ys : List (Operation × Score)) :
    p.recordAll limits (xs ++ ys) = (p.recordAll limits xs).recordAll limits ys :=
  List.foldl_append

/-- A score within the limits is no reason for a report. -/
theorem record_violation_of_within {limits : Limits} {score : Score} (p : Progress)
    (location : Location) (within : ¬ limits.Exceeded score) :
    (p.record limits location score).violation = p.violation := by
  simp [record, Limits.excess?_of_not_exceeded within]

/-- The first score beyond the limits is reported. -/
theorem record_violation_of_exceeded {limits : Limits} {score : Score} {p : Progress}
    (location : Location) (clean : p.violation = none) (beyond : limits.Exceeded score) :
    (p.record limits location score).violation = some ⟨limits.report score, location⟩ := by
  simp [record, clean, Limits.excess?_of_exceeded beyond]

theorem recordAll_violation_of_within {limits : Limits} (p : Progress)
    {scored : List (Operation × Score)} (within : ∀ x ∈ scored, ¬ limits.Exceeded x.2) :
    (p.recordAll limits scored).violation = p.violation := by
  induction scored generalizing p with
  | nil => rfl
  | cons x rest ih =>
    rw [recordAll_cons, ih _ (fun y member => within y (by simp [member]))]
    exact record_violation_of_within p x.1.location (within x (by simp))

/-- A report stays, whatever comes after it. -/
theorem recordAll_violation_of_reported (limits : Limits) {p : Progress} {v : Violation}
    (scored : List (Operation × Score)) (reported : p.violation = some v) :
    (p.recordAll limits scored).violation = some v := by
  induction scored generalizing p with
  | nil => exact reported
  | cons x rest ih =>
    rw [recordAll_cons]
    apply ih
    simp [record, reported]

/-- Without a report before, there is none afterwards exactly if all scores are within the limits. -/
theorem recordAll_violation_eq_none_iff {limits : Limits} {p : Progress} (clean : p.violation = none)
    {scored : List (Operation × Score)} :
    (p.recordAll limits scored).violation = none ↔ ∀ x ∈ scored, ¬ limits.Exceeded x.2 := by
  constructor
  · intro silent x member beyond
    obtain ⟨before, others, rfl⟩ := List.append_of_mem member
    rw [recordAll_append, recordAll_cons] at silent
    have reported : ∃ v, ((p.recordAll limits before).record limits x.1.location x.2).violation =
        some v := by
      cases earlier : (p.recordAll limits before).violation with
      | none => exact ⟨_, record_violation_of_exceeded x.1.location earlier beyond⟩
      | some v => exact ⟨v, by simp [record, earlier]⟩
    obtain ⟨v, reported⟩ := reported
    rw [recordAll_violation_of_reported limits others reported] at silent
    cases silent
  · intro within
    rw [recordAll_violation_of_within p within, clean]

theorem recordAll_isHighest (limits : Limits) (scored : List (Operation × Score)) {p : Progress}
    {costs : List Number} (before : p.highest.IsHighest costs) :
    (p.recordAll limits scored).highest.IsHighest (costs ++ scored.map (·.2.cost)) := by
  induction scored generalizing p costs with
  | nil => simpa using before
  | cons x rest ih =>
    have step : (p.record limits x.1.location x.2).highest.IsHighest (costs ++ [x.2.cost]) :=
      before.snoc x.2.cost
    simpa using ih step

end Progress

namespace Rule

/-- The operations that have a root type, with their scores, in document order. -/
def scored (rule : Rule σ) (schema : Schema) (fragments : List Fragment) :
    List Operation → Run σ (List (Operation × Score))
  | [] => return []
  | op :: rest => do
    let score? ← rule.score? schema fragments op
    let others ← scored rule schema fragments rest
    match score? with
    | none => return others
    | some score => return (op, score) :: others

/-- The schema has a root type for the operation. -/
def hasRoot (rule : Rule σ) (schema : Schema) (op : Operation) : Bool :=
  ((rule.schema.getD schema).root? op.kind).isSome

/-- Entering operations one after the other is scoring them all and taking in the scores. Both go on
after a report, and both stop at the first fault. -/
theorem enterAll_eq_scored (rule : Rule σ) (schema : Schema) (fragments : List Fragment)
    (ops : List Operation) (p : Progress) :
    ops.foldlM (rule.enter schema fragments) p = (do
      let scored ← rule.scored schema fragments ops
      return p.recordAll rule.limits scored) := by
  induction ops generalizing p with
  | nil => simp [scored]
  | cons op rest ih =>
    simp only [List.foldlM_cons, enter, scored, bind_assoc, ih]
    congr 1
    funext score?
    cases score? with
    | none => simp
    | some score => simp

theorem check_eq_scored (rule : Rule σ) (schema : Schema) (doc : Document) :
    rule.check schema doc = (do
      let scored ← rule.scored schema doc.fragments doc.operations
      return Progress.start.recordAll rule.limits scored) :=
  enterAll_eq_scored rule schema doc.fragments doc.operations .start

/-- A check that comes to an end has taken in the scores. -/
theorem check_success {rule : Rule σ} {schema : Schema} {doc : Document} {s after : Session σ}
    {p : Progress} (success : (rule.check schema doc).exec s = (.ok p, after)) :
    ∃ scored, (rule.scored schema doc.fragments doc.operations).exec s = (.ok scored, after) ∧
      p = Progress.start.recordAll rule.limits scored := by
  rw [check_eq_scored] at success
  obtain ⟨scored, _, priced, ended⟩ := Run.exec_bind_success success
  obtain ⟨rfl, rfl⟩ := Run.exec_pure_success ended
  exact ⟨scored, priced, rfl⟩

theorem check_of_scored {rule : Rule σ} {schema : Schema} {doc : Document} {s after : Session σ}
    {scored : List (Operation × Score)}
    (priced : (rule.scored schema doc.fragments doc.operations).exec s = (.ok scored, after)) :
    (rule.check schema doc).exec s =
      (.ok (Progress.start.recordAll rule.limits scored), after) := by
  rw [check_eq_scored, Run.exec_bind_ok _ priced, Run.exec_pure]

theorem scored_returns {rule : Rule σ} {schema : Schema} {fragments : List Fragment}
    {ops : List Operation}
    (priced : ∀ op ∈ ops, ∃ score?, (rule.score? schema fragments op).Returns score?) :
    ∃ scored, (rule.scored schema fragments ops).Returns scored := by
  induction ops with
  | nil => exact ⟨[], .pure []⟩
  | cons op rest ih =>
    rw [List.forall_mem_cons] at priced
    obtain ⟨score?, first⟩ := priced.1
    obtain ⟨others, remaining⟩ := ih priced.2
    cases score? with
    | none => exact ⟨others, first.bind (remaining.bind (.pure _))⟩
    | some score => exact ⟨(op, score) :: others, first.bind (remaining.bind (.pure _))⟩

/-- A check of operations that can all be priced comes to an end. -/
theorem check_returns {rule : Rule σ} {schema : Schema} {doc : Document}
    (priced : ∀ op ∈ doc.operations,
      ∃ score?, (rule.score? schema doc.fragments op).Returns score?) :
    ∃ p, (rule.check schema doc).Returns p := by
  obtain ⟨scored, returned⟩ := scored_returns priced
  rw [check_eq_scored]
  exact ⟨_, returned.bind (.pure _)⟩

/-- What an operation is priced against: its own variables, or all as sent if they do not fit. -/
def scope (rule : Rule σ) (schema : Schema) (fragments : List Fragment) (op : Operation) : Scope :=
  ⟨rule.schema.getD schema, fragments,
    (op.coerceVariables? (rule.schema.getD schema) rule.vars).getD rule.vars⟩

/-- Pricing the operation's selections on its root type gives this score from some session. -/
def Priced (rule : Rule σ) (schema : Schema) (fragments : List Fragment) (op : Operation)
    (score : Score) : Prop :=
  ∃ root s after, (rule.schema.getD schema).root? op.kind = some root ∧
    ((rule.scope schema fragments op).score rule.chain [] (some root) op.selections).exec s =
      (.ok score, after)

theorem variablesFor_success {schema : Schema} {op : Operation} {sent vars : Entries}
    {s after : Session σ} (success : (op.variablesFor schema sent).exec s = (.ok vars, after)) :
    vars = (op.coerceVariables? schema sent).getD sent := by
  unfold Operation.variablesFor at success
  cases coerced : op.coerceVariables? schema sent with
  | none =>
    simp only [coerced] at success
    obtain ⟨_, _, _, success⟩ := Run.exec_bind_success success
    exact (Run.exec_pure_success success).1
  | some entries =>
    simp only [coerced] at success
    exact (Run.exec_pure_success success).1

theorem score?_of_rootless {rule : Rule σ} {schema : Schema} {fragments : List Fragment}
    (op : Operation) (rootless : (rule.schema.getD schema).root? op.kind = none) :
    rule.score? schema fragments op = return none := by
  simp only [Rule.score?, rootless]

theorem score?_of_root {rule : Rule σ} {schema : Schema} {fragments : List Fragment}
    (op : Operation) {root : TypeDef}
    (rooted : (rule.schema.getD schema).root? op.kind = some root) :
    rule.score? schema fragments op = (do
      let vars ← op.variablesFor (rule.schema.getD schema) rule.vars
      let score ← Scope.score ⟨rule.schema.getD schema, fragments, vars⟩ rule.chain [] (some root)
        op.selections
      Run.note (.operation op.name score.cost score.nodes)
      return some score) := by
  simp only [Rule.score?, rooted]

/-- An operation without a root type gets no score, any other the price of its selections. -/
theorem score?_success {rule : Rule σ} {schema : Schema} {fragments : List Fragment}
    {op : Operation} {s after : Session σ} {score? : Option Score}
    (success : (rule.score? schema fragments op).exec s = (.ok score?, after)) :
    (rule.hasRoot schema op = false ∧ score? = none) ∨
    (rule.hasRoot schema op = true ∧
      ∃ score, score? = some score ∧ rule.Priced schema fragments op score) := by
  unfold Rule.score? at success
  unfold hasRoot
  cases root : (rule.schema.getD schema).root? op.kind with
  | none =>
    simp only [root] at success
    exact Or.inl ⟨rfl, (Run.exec_pure_success success).1⟩
  | some t =>
    simp only [root] at success
    obtain ⟨vars, _, coerced, success⟩ := Run.exec_bind_success success
    obtain ⟨score, _, priced, success⟩ := Run.exec_bind_success success
    obtain ⟨_, _, _, success⟩ := Run.exec_bind_success success
    rw [variablesFor_success coerced] at priced
    exact Or.inr ⟨rfl, score, (Run.exec_pure_success success).1, t, _, _, root, priced⟩

/-- Exactly the operations with a root type are scored, in document order, each at its own price. -/
theorem scored_success {rule : Rule σ} {schema : Schema} {fragments : List Fragment}
    {ops : List Operation} {s after : Session σ} {scored : List (Operation × Score)}
    (success : (rule.scored schema fragments ops).exec s = (.ok scored, after)) :
    scored.map (·.1) = ops.filter (rule.hasRoot schema) ∧
      ∀ x ∈ scored, rule.Priced schema fragments x.1 x.2 := by
  induction ops generalizing s after scored with
  | nil =>
    obtain ⟨rfl, -⟩ := Run.exec_pure_success success
    simp
  | cons op rest ih =>
    obtain ⟨score?, _, first, success⟩ := Run.exec_bind_success success
    obtain ⟨others, _, remaining, success⟩ := Run.exec_bind_success success
    obtain ⟨operations, prices⟩ := ih remaining
    rcases score?_success first with ⟨rootless, rfl⟩ | ⟨rooted, score, rfl, priced⟩
    · obtain ⟨rfl, -⟩ := Run.exec_pure_success success
      exact ⟨by simp [operations, rootless], prices⟩
    · obtain ⟨rfl, -⟩ := Run.exec_pure_success success
      refine ⟨by simp [operations, rooted], ?_⟩
      intro x member
      rcases List.mem_cons.mp member with rfl | old
      · exact priced
      · exact prices x old

/-- The verdict on a document follows from the scores of the operations that have a root type. If no
score is beyond a limit, nothing is reported and the document is completed with the highest of zero
and all costs. Otherwise the first operation beyond a limit is reported, for its nodes before its cost,
and the document is not completed. A fault in pricing is the only other way to end. -/
theorem check_verdict (rule : Rule σ) (schema : Schema) (doc : Document) (s after : Session σ) :
    (∀ fault, (rule.scored schema doc.fragments doc.operations).exec s = (.error fault, after) →
      (rule.check schema doc).exec s = (.error fault, after)) ∧
    ∀ scored, (rule.scored schema doc.fragments doc.operations).exec s = (.ok scored, after) →
      scored.map (·.1) = doc.operations.filter (rule.hasRoot schema) ∧
      (∀ x ∈ scored, rule.Priced schema doc.fragments x.1 x.2) ∧
      ∃ p, (rule.check schema doc).exec s = (.ok p, after) ∧
        ((∀ x ∈ scored, ¬ rule.limits.Exceeded x.2) →
          p.violation = none ∧
          ∃ highest, p.completed? = some highest ∧ highest.IsHighest (scored.map (·.2.cost))) ∧
        (∀ before op score others, scored = before ++ (op, score) :: others →
          (∀ x ∈ before, ¬ rule.limits.Exceeded x.2) → rule.limits.Exceeded score →
          p.violation = some ⟨if rule.limits.nodes < score.nodes
            then .nodes rule.limits.nodes score.nodes
            else .cost rule.limits.maximum score.cost, op.location⟩ ∧
          p.completed? = none) := by
  rw [check_eq_scored]
  refine ⟨fun fault failed => Run.exec_bind_error _ failed, ?_⟩
  intro scored priced
  obtain ⟨operations, prices⟩ := scored_success priced
  refine ⟨operations, prices, Progress.start.recordAll rule.limits scored, ?_, ?_, ?_⟩
  · rw [Run.exec_bind_ok _ priced, Run.exec_pure]
  · intro within
    have clean := Progress.recordAll_violation_of_within .start within
    refine ⟨clean, _, by rw [Progress.completed?, clean]; rfl, ?_⟩
    simpa using Progress.recordAll_isHighest rule.limits scored (p := .start) .nil
  · intro before op score others split within beyond
    have clean := Progress.recordAll_violation_of_within .start within
    have reported := Progress.record_violation_of_exceeded op.location clean beyond
    have kept := Progress.recordAll_violation_of_reported rule.limits others reported
    rw [split, Progress.recordAll_append, Progress.recordAll_cons]
    exact ⟨kept, by rw [Progress.completed?, kept]; rfl⟩

/-- A query root with one field, and no other root. -/
def queryOnly : Schema :=
  ⟨[⟨"Query", .object [] [⟨"a", .named "Int", [], none, none, []⟩], none⟩], some "Query", none, none,
    []⟩

/-- An operation that selects the same field some times. -/
def repeated (kind : OperationKind) (line times : Nat) : Operation :=
  ⟨kind, none, [], [], List.replicate times (.field ⟨none, "a", [], []⟩ []), ⟨line, 1⟩⟩

/-- The second operation has no root, the third is too expensive, the fourth is too large as well. -/
def fourOperations : Document :=
  ⟨[.operation (repeated .query 1 1), .operation (repeated .mutation 2 9),
    .operation (repeated .query 3 2), .operation (repeated .query 4 3)]⟩

/-- An estimator without an opinion, so that every field costs one more than its children. -/
def undecided : Rule Unit := ⟨[.constant .null], ⟨.int 1, 2⟩, none, []⟩

theorem check_verdict_four_operations :
    ∃ p after, (undecided.check queryOnly fourOperations).exec ⟨(), #[]⟩ = (.ok p, after) ∧
      p.violation = some ⟨.cost (.int 1) (.int 2), ⟨3, 1⟩⟩ ∧ p.completed? = none := by
  have priced : (undecided.scored queryOnly fourOperations.fragments fourOperations.operations).exec
      ⟨(), #[]⟩ = (.ok [(repeated .query 1 1, ⟨.int 1, 1⟩), (repeated .query 3 2, ⟨.int 2, 2⟩),
        (repeated .query 4 3, ⟨.int 3, 3⟩)], _) := rfl
  obtain ⟨-, -, p, checked, -, beyond⟩ :=
    (check_verdict undecided queryOnly fourOperations _ _).2 _ priced
  refine ⟨p, _, checked, ?_⟩
  apply beyond [(repeated .query 1 1, ⟨.int 1, 1⟩)] (repeated .query 3 2) ⟨.int 2, 2⟩ _ rfl
  · intro x member
    rw [List.mem_singleton.mp member]
    decide +kernel
  · decide +kernel

end Rule

end QueryCost
