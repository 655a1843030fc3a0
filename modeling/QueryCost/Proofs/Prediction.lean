import QueryCost.Proofs.Acceptance
import QueryCost.Proofs.Decided
import QueryCost.Proofs.Passes

/-!
# What an assessment predicts

An assessment prices a document with no limit but that on nodes, and this tells how a rule with a maximum
will decide. If it returns a cost then a rule accepts the document exactly if its maximum is not below this
cost. If it refuses the document for its nodes, or for a cost beyond all doubles, then a pass with the rule
reports it as well.

For the second part two passes over the same document are compared (`Solo.Tracks`). The one with the lower
maximum may be the first to report, and a report is one more error, with which it may be the first to give
up. It is never behind the other one, and so it prices no operation that the other one does not. The rule's
own check has no such bound: it goes on where the assessment gave up, and may end with an overflow there.
-/
namespace QueryCost

variable {σ : Type}

namespace Solo

/-- How two passes over the same definitions differ, if the limits of the second one are not higher. -/
inductive Tracks (x y : Solo) : Prop
  /-- Both have met the same, and none has reported. -/
  | level (same : y.pass = x.pass) (nothing : x.pass.violations = [])
      (silent : x.progress.violation = none) (silent' : y.progress.violation = none)
  /-- The second one has reported, and has given up or has no less errors: more of them as long as the
  first one has not reported. -/
  | ahead (reported : y.progress.violation ≠ none) (listed : y.pass.violations ≠ [])
      (room : y.pass.aborted = true ∨ x.pass.aborted = false ∧
        x.pass.errors ≤ y.pass.errors ∧
        (x.progress.violation = none → x.pass.errors < y.pass.errors) ∧
        y.pass.errors ≤ Pass.errorLimit)
  /-- The second one has given up without room for its report, and there is none for another. -/
  | full (stopped : y.pass.aborted = true) (nothing : x.pass.violations = [])
      (errors : Pass.errorLimit ≤ x.pass.errors)

namespace Tracks

variable {x y : Solo}

theorem listed (tracks : Tracks x y) (reports : x.pass.violations ≠ []) : y.pass.violations ≠ [] := by
  cases tracks with
  | level same nothing => exact absurd nothing reports
  | ahead _ listed => exact listed
  | full _ nothing => exact absurd nothing reports

/-- The second pass gives up no later than the first one. -/
theorem stopped (tracks : Tracks x y) (gone : x.pass.aborted = true) : y.pass.aborted = true := by
  cases tracks with
  | level same => rw [same, gone]
  | ahead _ _ room => exact room.resolve_right fun going => by simp [gone] at going
  | full stopped => exact stopped

/-- Of the second pass only the errors and whether it has reported count. -/
theorem congr_right {z : Solo} (tracks : Tracks x y) (pass : z.pass = y.pass)
    (violation : z.progress.violation = y.progress.violation) : Tracks x z := by
  cases tracks with
  | level same nothing silent silent' =>
    exact .level (pass.trans same) nothing silent (violation.trans silent')
  | ahead reported listed room =>
    rw [← violation] at reported
    rw [← pass] at listed room
    exact .ahead reported listed room
  | full stopped nothing errors =>
    rw [← pass] at stopped
    exact .full stopped nothing errors

theorem meet (tracks : Tracks x y) (flaws : List Flaw) : Tracks (x.meet flaws) (y.meet flaws) := by
  cases tracks with
  | level same nothing silent silent' =>
    refine .level ?_ nothing silent silent'
    simp only [Solo.meet, same]
  | ahead reported listed room =>
    refine .ahead reported listed ?_
    simp only [Solo.meet, Pass.meet, Bool.or_eq_true, decide_eq_true_eq, Bool.or_eq_false_iff,
      decide_eq_false_iff_not]
    rcases room with stopped | ⟨going, fewer, silent, fits⟩
    · exact .inl (.inl stopped)
    by_cases tooMany : Pass.errorLimit < y.pass.errors + flaws.length
    · exact .inl (.inr tooMany)
    refine .inr ⟨⟨going, by omega⟩, by omega, fun none => ?_, by omega⟩
    have less := silent none
    omega
  | full stopped nothing errors =>
    exact .full (meet_aborted flaws stopped) nothing (Nat.le_trans errors (Nat.le_add_right _ _))

/-- The first pass goes on alone, where the second one has reported or given up. -/
theorem wait (tracks : Tracks x y) (going : x.pass.aborted = false)
    (done : y.progress.violation ≠ none ∨ y.pass.aborted = true) (limits : Limits)
    (location : Location) (score : Score) : Tracks (x.take limits location score) y := by
  cases tracks with
  | level same nothing silent silent' =>
    rw [same, going] at done
    simp [silent'] at done
  | ahead reported listed room =>
    refine .ahead reported listed (room.imp_right ?_)
    rintro ⟨going, fewer, silent, fits⟩
    by_cases quiet : x.progress.violation = none
    · -- The second pass has more errors and has not given up, so there is room for a report.
      have less := silent quiet
      obtain ⟨goes, more, unreported⟩ := take_room (x := x) (by omega) limits location score
      refine ⟨goes.trans going, by omega, fun none => ?_, fits⟩
      have same := unreported none
      omega
    · obtain ⟨passed, kept⟩ := take_reported quiet limits location score
      rw [passed, kept]
      exact ⟨going, fewer, silent, fits⟩
  | full stopped nothing errors =>
    obtain ⟨unlisted, same⟩ := take_full errors limits location score
    refine .full stopped (unlisted.trans nothing) ?_
    rw [same]
    exact errors

/-- A score that both passes take in where they are level: if it is beyond the first limits then it is beyond
the second ones, and otherwise the second pass may report it alone. -/
theorem take_level {limits limits' : Limits}
    (lower : ∀ {score}, limits.Exceeded score → limits'.Exceeded score)
    (same : y.pass = x.pass) (nothing : x.pass.violations = [])
    (silent : x.progress.violation = none) (silent' : y.progress.violation = none)
    (going : x.pass.aborted = false) (location : Location) (score : Score) :
    Tracks (x.take limits location score) (y.take limits' location score) := by
  rcases take_cases limits' location score y with
    ⟨-, -, v, reports, passed'⟩ | ⟨within, kept', passed'⟩
  · rw [same] at passed'
    rcases Pass.report_cases v x.pass with ⟨full, stops, -, -⟩ | ⟨room, -, one, listed⟩
    · -- Where the second pass has no room for its report, the first one has none either.
      obtain ⟨unlisted, errors⟩ := take_full full limits location score
      refine .full (by rw [passed', stops]) (unlisted.trans nothing) ?_
      rw [errors]
      exact full
    · obtain ⟨goes, more, unreported⟩ := take_room room limits location score
      refine .ahead (by simp [reports]) (by simp [passed', listed]) (.inr ?_)
      rw [passed', one]
      refine ⟨goes.trans going, more, fun none => ?_, room⟩
      rw [unreported none]
      exact Nat.lt_succ_self _
  · rcases take_cases limits location score x with ⟨-, beyond, -⟩ | ⟨-, kept, passed⟩
    · exact absurd (lower beyond) (within silent')
    · refine .level (by rw [passed, passed', same]) (by rw [passed, nothing]) ?_ ?_
      · rw [kept, silent]
      · rw [kept', silent']

/-- A score that both passes take in. -/
theorem take {limits limits' : Limits} (tracks : Tracks x y)
    (lower : ∀ {score}, limits.Exceeded score → limits'.Exceeded score)
    (going : y.pass.aborted = false) (location : Location) (score : Score) :
    Tracks (x.take limits location score) (y.take limits' location score) := by
  have goes : x.pass.aborted = false := by
    cases stops : x.pass.aborted with
    | false => rfl
    | true => exact (tracks.stopped stops).symm.trans going
  cases tracks with
  | level same nothing silent silent' =>
    exact take_level lower same nothing silent silent' goes location score
  | full stopped => simp [going] at stopped
  | ahead reported listed room =>
    have waited := wait (.ahead reported listed room) goes (.inl reported) limits location score
    obtain ⟨passed, kept⟩ := take_reported reported limits' location score
    exact waited.congr_right passed kept

end Tracks

variable {rule rule' : Rule σ} {schema : Schema} {fragments : List Fragment} {x y z : Solo}
  {ds : List (Definition × DefinitionReport)} {s after : Session σ}

/-- A pass that has given up goes nowhere. -/
theorem through_of_aborted (stopped : y.pass.aborted = true) :
    ∃ w, through rule schema fragments y ds = pure w ∧ w.pass.violations = y.pass.violations := by
  cases ds with
  | nil => exact ⟨y, rfl, rfl⟩
  | cons head rest =>
    obtain ⟨d, found⟩ := head
    refine ⟨y.meet found.entering, ?_, rfl⟩
    unfold through
    rw [meet_aborted found.entering stopped, if_pos rfl]

/-- Both passes look at a definition. -/
theorem look_tracks (tracks : Tracks x y) (going : y.pass.aborted = false)
    (lower : ∀ {score}, rule.limits.Exceeded score → rule'.limits.Exceeded score)
    (steady : ∀ op, (rule.score? schema fragments op).Steady)
    (alike : ∀ op, rule'.score? schema fragments op = rule.score? schema fragments op)
    {d : Definition} (success : (look rule schema fragments x d).exec s = (.ok z, after))
    (t : Session σ) :
    ∃ w after', (look rule' schema fragments y d).exec t = (.ok w, after') ∧ Tracks z w := by
  cases d with
  | operation op =>
    obtain ⟨score?, _, priced, success⟩ := Run.exec_bind_success success
    obtain ⟨ended, decided⟩ := steady op
    obtain rfl := decided.eq_of_exec priced
    obtain ⟨after', priced'⟩ := decided.exec_eq t
    rw [← alike] at priced'
    unfold look
    rw [Run.exec_bind_ok _ priced']
    cases score? with
    | none =>
      obtain ⟨rfl, -⟩ := Run.exec_pure_success success
      exact ⟨y, after', rfl, tracks⟩
    | some score =>
      obtain ⟨rfl, -⟩ := Run.exec_pure_success success
      exact ⟨_, after', rfl, tracks.take lower going op.location score⟩
  | _ =>
    obtain ⟨rfl, -⟩ := Run.exec_pure_success success
    exact ⟨y, t, rfl, tracks⟩

/-- If the first pass comes to its end then so does the second one, and it has reported if the first one
has. -/
theorem through_tracks (tracks : Tracks x y)
    (lower : ∀ {score}, rule.limits.Exceeded score → rule'.limits.Exceeded score)
    (steady : ∀ op, (rule.score? schema fragments op).Steady)
    (alike : ∀ op, rule'.score? schema fragments op = rule.score? schema fragments op)
    (success : (through rule schema fragments x ds).exec s = (.ok z, after)) (t : Session σ) :
    ∃ w after', (through rule' schema fragments y ds).exec t = (.ok w, after') ∧
      (z.pass.violations ≠ [] → w.pass.violations ≠ []) := by
  induction ds generalizing x y s t with
  | nil =>
    obtain ⟨rfl, -⟩ := Run.exec_pure_success success
    exact ⟨y, t, rfl, tracks.listed⟩
  | cons head rest ih =>
    obtain ⟨d, found⟩ := head
    have entered := tracks.meet found.entering
    cases going : (y.meet found.entering).pass.aborted with
    | true =>
      refine ⟨y.meet found.entering, t, ?_, ?_⟩
      · unfold through
        rw [going, if_pos rfl]
        rfl
      rcases through_cons_success success with ⟨-, rfl⟩ | ⟨goes, x', between, looked, success⟩
      · exact entered.listed
      · -- The first pass goes on alone; the second one would not do anything if it went on.
        have waited : Tracks x' (y.meet found.entering) := by
          rcases look_success looked with rfl | ⟨op, score, -, -, rfl⟩
          · exact entered
          · exact entered.wait goes (.inr going) rule.limits op.location score
        obtain ⟨w, _, went, listed⟩ := ih (waited.meet found.inside) success t
        obtain ⟨w', same, violations⟩ := through_of_aborted (meet_aborted found.inside going)
        rw [same] at went
        obtain ⟨rfl, -⟩ := Run.exec_pure_success went
        intro reports
        exact violations ▸ listed reports
    | false =>
      rcases through_cons_success success with ⟨stops, -⟩ | ⟨goes, x', between, looked, success⟩
      · rw [entered.stopped stops] at going
        cases going
      obtain ⟨y', between', looked', looks⟩ :=
        look_tracks entered going lower steady alike looked t
      obtain ⟨w, after', went, listed⟩ := ih (looks.meet found.inside) success between'
      refine ⟨w, after', ?_, listed⟩
      unfold through
      rw [going, if_neg Bool.false_ne_true, Run.exec_bind_ok _ looked', went]

end Solo

/-- Limits change nothing in what the highest cost is. -/
theorem Progress.recordAll_highest (limits limits' : Limits) {p p' : Progress}
    (same : p.highest = p'.highest) (scored : List (Operation × Score)) :
    (p.recordAll limits scored).highest = (p'.recordAll limits' scored).highest := by
  induction scored generalizing p p' with
  | nil => exact same
  | cons x rest ih =>
    rw [recordAll_cons, recordAll_cons]
    apply ih
    simp only [record, same]

namespace Rule

/-- The rules price documents in the same way, whatever their limits are. -/
structure Alike (schema : Schema) (rule rule' : Rule σ) : Prop where
  chain : rule'.chain = rule.chain
  schema : rule'.schema.getD schema = rule.schema.getD schema
  vars : rule'.vars = rule.vars

variable {rule rule' : Rule σ} {schema : Schema} {fragments : List Fragment} {doc : Document}
  {found : Report doc}

theorem Alike.score? (alike : Alike schema rule rule') (fragments : List Fragment) (op : Operation) :
    rule'.score? schema fragments op = rule.score? schema fragments op := by
  unfold Rule.score?
  rw [alike.chain, alike.schema, alike.vars]

theorem Alike.scored (alike : Alike schema rule rule') (fragments : List Fragment)
    (ops : List Operation) :
    rule'.scored schema fragments ops = rule.scored schema fragments ops := by
  induction ops with
  | nil => rfl
  | cons op rest ih =>
    unfold Rule.scored
    rw [alike.score?, ih]

theorem mem_scored {ops : List Operation} {scored : List (Operation × Score)} {op : Operation}
    {score : Score} {s after : Session σ}
    (success : (rule.scored schema fragments ops).exec s = (.ok scored, after))
    (decided : (rule.score? schema fragments op).Decides (.ok (some score))) (member : op ∈ ops) :
    (op, score) ∈ scored := by
  induction ops generalizing s after scored with
  | nil => cases member
  | cons first rest ih =>
    obtain ⟨score?, _, priced, success⟩ := Run.exec_bind_success success
    obtain ⟨others, _, remaining, success⟩ := Run.exec_bind_success success
    rcases List.mem_cons.mp member with rfl | later
    · obtain rfl := Except.ok.inj (decided.eq_of_exec priced)
      obtain ⟨rfl, -⟩ := Run.exec_pure_success success
      exact List.mem_cons_self
    · have found := ih remaining later
      cases score? with
      | none =>
        obtain ⟨rfl, -⟩ := Run.exec_pure_success success
        exact found
      | some score =>
        obtain ⟨rfl, -⟩ := Run.exec_pure_success success
        exact List.mem_cons_of_mem _ found

/-- An assessment that returns a cost has gone over a document without flaws, which the rule accepts. -/
theorem assess_success {s after : Session σ} {c : Number}
    (success : (rule.assess schema found).exec s = (.ok (.ok c), after)) :
    found.Flawless ∧
      ∃ p, (rule.check schema doc).exec s = (.ok p, after) ∧ p.violation = none ∧ c = p.highest := by
  unfold assess at success
  obtain ⟨outcome, _, passed, success⟩ := Run.exec_bind_success success
  split at success
  next valid =>
    rw [Bool.and_eq_true, Bool.not_eq_true', List.isEmpty_iff] at valid
    have flawless := Pass.flawless_of_run passed valid.2
    rw [Pass.run_flawless flawless] at passed
    obtain ⟨p, _, checked, ended⟩ := Run.exec_bind_success passed
    obtain ⟨rfl, rfl⟩ := Run.exec_pure_success ended
    obtain ⟨same, rfl⟩ := Run.exec_pure_success success
    have silent : p.violation = none := by simpa using valid.1
    refine ⟨flawless, p, checked, silent, ?_⟩
    have completed : p.completed? = some p.highest := by simp [Progress.completed?, silent]
    simpa [completed] using same
  next => cases success

/-- An assessment that refuses a document for its costs has come across an operation beyond the limits. -/
theorem assess_refusal {s after : Session σ} {refusal : Refusal}
    (success : (rule.assess schema found).exec s = (.ok (.error refusal), after)) :
    ∃ outcome between, (Pass.run schema found [rule]).exec s = (.ok outcome, between) ∧
      outcome.violations = refusal.violations := by
  unfold assess at success
  obtain ⟨outcome, between, passed, success⟩ := Run.exec_bind_success success
  refine ⟨outcome, between, passed, ?_⟩
  split at success
  next => cases success
  next =>
    obtain ⟨same, -⟩ := Run.exec_pure_success success
    cases same
    rfl

/-- A rule that prices alike accepts what has no flaw exactly if the highest cost is allowed. -/
theorem check_of_assess (alike : Alike schema rule rule')
    (functional : ∀ estimate ∈ rule.chain, estimate.Functional)
    (nodes : rule'.limits.nodes = rule.limits.nodes)
    (positive : (Number.int 0).lt rule'.limits.maximum = true) {s after : Session σ} {p : Progress}
    (checked : (rule.check schema doc).exec s = (.ok p, after)) (silent : p.violation = none) :
    ∃ p', (rule'.check schema doc).Returns p' ∧ p'.highest = p.highest ∧
      (p'.violation = none ↔ p.highest.le rule'.limits.maximum = true) := by
  obtain ⟨scored, priced, rfl⟩ := check_success checked
  obtain ⟨e, decided⟩ := scored_steady functional doc.operations
  obtain rfl := decided.eq_of_exec priced
  refine ⟨Progress.start.recordAll rule'.limits scored, ?_, ?_, ?_⟩
  · rw [check_eq_scored, alike.scored]
    exact decided.returns.bind (.pure _)
  · exact Progress.recordAll_highest _ _ rfl scored
  · have highest : (Progress.start.recordAll rule.limits scored).highest.IsHighest
        (scored.map (·.2.cost)) := by
      simpa using Progress.recordAll_isHighest rule.limits scored (p := .start) .nil
    have within := (Progress.recordAll_violation_eq_none_iff rfl).mp silent
    rw [Progress.recordAll_violation_eq_none_iff rfl, highest.le_iff positive, List.forall_mem_map]
    refine forall₂_congr fun x member => ?_
    rw [Limits.not_exceeded_iff (Number.not_isNaN_of_lt positive)]
    refine and_iff_right ?_
    rw [nodes]
    exact Nat.le_of_not_lt fun more => within x member (.inl more)

/-- The check by a rule ends with a report or with an overflow, if one of the operations is beyond its
limits. -/
theorem check_reports_or_overflows (functional : ∀ estimate ∈ rule.chain, estimate.Functional)
    {op : Operation} {score : Score} (member : op ∈ doc.operations)
    (decided : (rule.score? schema doc.fragments op).Decides (.ok (some score)))
    (beyond : rule.limits.Exceeded score) (t : Session σ) :
    (∃ p after, (rule.check schema doc).exec t = (.ok p, after) ∧ p.violation ≠ none) ∨
    ∃ after, (rule.check schema doc).exec t = (.error .overflow, after) := by
  rcases ended : (rule.check schema doc).exec t with ⟨fault | p, after⟩
  · obtain ⟨other, -, faulty⟩ := faulty_of_check ended
    obtain rfl := faulty.overflow_of_functional functional
    exact .inr ⟨after, rfl⟩
  · refine .inl ⟨p, after, rfl, fun silent => ?_⟩
    obtain ⟨scored, priced, rfl⟩ := check_success ended
    have within := (Progress.recordAll_violation_eq_none_iff rfl).mp silent
    exact within _ (mem_scored priced decided member) beyond

/-- A pass that reports has come across an operation beyond the limits, and every pass with limits that are not
higher reports, too. -/
theorem run_reports (alike : Alike schema rule rule')
    (functional : ∀ estimate ∈ rule.chain, estimate.Functional)
    (lower : ∀ {score}, rule.limits.Exceeded score → rule'.limits.Exceeded score)
    {s after : Session σ} {outcome : Pass.Outcome}
    (passed : (Pass.run schema found [rule]).exec s = (.ok outcome, after))
    (reports : outcome.violations ≠ []) :
    (∃ op ∈ doc.operations, ∃ score,
      (rule.score? schema doc.fragments op).Decides (.ok (some score)) ∧
      rule.limits.Exceeded score) ∧
    ∀ t, ∃ outcome' after', (Pass.run schema found [rule']).exec t = (.ok outcome', after') ∧
      outcome'.violations ≠ [] := by
  rw [Pass.run_single] at passed
  obtain ⟨z, _, went, ended⟩ := Run.exec_bind_success passed
  obtain ⟨rfl, -⟩ := Run.exec_pure_success ended
  rw [Solo.outcome_violations] at reports
  constructor
  · rcases Solo.through_violations went with none | ⟨op, score, t, t', member, priced, beyond⟩
    · exact absurd none reports
    rw [found.lists] at member
    have steady : (rule.score? schema doc.fragments op).Steady := score?_steady functional op
    obtain ⟨e, decided⟩ := steady
    obtain rfl := decided.eq_of_exec priced
    exact ⟨op, List.mem_filterMap.mpr ⟨_, member, rfl⟩, score, decided, beyond⟩
  · intro t
    have level : Solo.Tracks ⟨Pass.start.meet found.opening, .start⟩
        ⟨Pass.start.meet found.opening, .start⟩ := .level rfl rfl rfl rfl
    obtain ⟨w, after', follows, listed⟩ := Solo.through_tracks level lower
      (fun op => score?_steady functional op) (alike.score? doc.fragments) went t
    refine ⟨w.outcome found.closing, after', ?_, ?_⟩
    · rw [Pass.run_single, Run.exec_bind_ok _ follows, Run.exec_pure]
    · rw [Solo.outcome_violations]
      exact listed reports

/-- The rule as an assessment uses it: with other limits, and bound to the schema. -/
def assessor (rule : Rule σ) (pricing : Limits) (schema : Schema) : Rule σ :=
  { rule with limits := pricing, schema := some schema }

/-- With estimators that are functions, an assessment of a document predicts what a rule with the same
estimators, variables and node limit decides. If it returns a cost then the rule finds an excess exactly if
the cost is above its maximum, and otherwise completes the document with that cost; a pass with the rule ends in
the same way. If it refuses the document with a report then so does a pass with the rule, unless the maximum is
above all doubles. The rule alone does not accept such a document either, but it may end with an overflow in
place of a report, since it also prices what comes after the point where the assessment has given up. -/
theorem assessment_predicts_verdict (rule : Rule σ)
    (functional : ∀ estimate ∈ rule.chain, estimate.Functional) {maximum nodes : Value}
    {pricing : Limits}
    (unlimited : Limits.make Policy.unlimited rule.chain.length nodes = .ok pricing)
    (valid : Limits.make maximum rule.chain.length nodes = .ok rule.limits) (schema : Schema)
    (same : rule.schema.getD schema = schema) {doc : Document} (found : Report doc) :
    (∀ s c after, ((rule.assessor pricing schema).assess schema found).exec s = (.ok (.ok c), after) →
      ∃ p, (rule.check schema doc).Returns p ∧
        (p.violation = none ↔ c.le rule.limits.maximum = true) ∧
        (p.violation = none → p.completed? = some c) ∧
        (Pass.run schema found [rule]).Returns ⟨p.violation.toList, false, [p.completed?]⟩) ∧
    (∀ s refusal after,
      ((rule.assessor pricing schema).assess schema found).exec s = (.ok (.error refusal), after) →
      refusal.violations ≠ [] → rule.limits.maximum.le pricing.maximum = true →
      ∀ t,
        (∃ outcome after', (Pass.run schema found [rule]).exec t = (.ok outcome, after') ∧
          outcome.violations ≠ []) ∧
        ((∃ p after', (rule.check schema doc).exec t = (.ok p, after') ∧ p.violation ≠ none) ∨
          ∃ after', (rule.check schema doc).exec t = (.error .overflow, after'))) := by
  have alike : Alike schema (rule.assessor pricing schema) rule := ⟨rfl, same, rfl⟩
  obtain ⟨-, counted⟩ := Limits.make_success unlimited
  obtain ⟨read, counted'⟩ := Limits.make_success valid
  have sameNodes : rule.limits.nodes = pricing.nodes := Except.ok.inj (counted'.symm.trans counted)
  constructor
  · intro s c after success
    obtain ⟨flawless, p, checked, silent, rfl⟩ := assess_success success
    obtain ⟨p', returned, highest, decided⟩ := check_of_assess alike functional sameNodes
      (Limits.readMaximum_positive read) checked silent
    refine ⟨p', returned, decided, ?_, ?_⟩
    · intro accepted
      simp [Progress.completed?, accepted, highest]
    · rw [Pass.run_flawless flawless]
      exact returned.bind (.pure _)
  · intro s refusal after success reports below t
    have lower : ∀ {score}, pricing.Exceeded score → rule.limits.Exceeded score := by
      rintro score (more | higher)
      · exact .inl (sameNodes ▸ more)
      · exact .inr (Number.lt_of_le_of_lt below higher)
    obtain ⟨outcome, _, passed, listed⟩ := assess_refusal success
    rw [← listed] at reports
    obtain ⟨⟨op, member, score, decided, beyond⟩, follows⟩ :=
      run_reports alike functional lower passed reports
    rw [← alike.score?] at decided
    exact ⟨follows t, check_reports_or_overflows functional member decided (lower beyond) t⟩

/-- The largest double, and so many nodes. -/
def widest (nodes : Nat) : Limits :=
  ⟨.float (.finite false ((Nat.pow 2 53 - 1) * Nat.pow 2 2045)), nodes⟩

theorem make_widest {estimators : Nat} {n : Int} (some : 0 < estimators) (count : 0 < n) :
    Limits.make Policy.unlimited estimators (.int n) = .ok (widest n.toNat) :=
  Limits.make_of_positive (by decide +kernel) (by decide +kernel) some count

/-- Two fields cost more than the maximum, and three fields are too many. -/
theorem assessment_predicts_verdict_repeated :
    (∃ p, (undecided.check queryOnly ⟨[.operation (repeated .query 1 2)]⟩).Returns p ∧
      p.violation ≠ none) ∧
    ∀ t, ∃ outcome after, (Pass.run queryOnly
      ((⟨[.operation (repeated .query 1 3)]⟩ : Document).report queryOnly) [undecided]).exec t =
        (.ok outcome, after) ∧ outcome.violations ≠ [] := by
  have functional : ∀ estimate ∈ undecided.chain, estimate.Functional :=
    List.forall_mem_singleton.mpr fun call => ⟨_, .pure _⟩
  have unlimited : Limits.make Policy.unlimited undecided.chain.length (.int 2) = .ok (widest 2) :=
    make_widest (by decide) (by decide)
  have valid : Limits.make (.int 1) undecided.chain.length (.int 2) = .ok ⟨.int 1, 2⟩ :=
    Limits.make_of_positive (by decide +kernel) (by decide +kernel) (by decide) (by decide)
  have predicts := @assessment_predicts_verdict _ undecided functional _ _ _ unlimited valid queryOnly rfl
  have priced : (((undecided.assessor (widest 2) queryOnly).assess queryOnly
      ((⟨[.operation (repeated .query 1 2)]⟩ : Document).report queryOnly)).exec ⟨(), #[]⟩).1 =
        .ok (.ok (.int 2)) := by
    decide +kernel
  have refused : (((undecided.assessor (widest 2) queryOnly).assess queryOnly
      ((⟨[.operation (repeated .query 1 3)]⟩ : Document).report queryOnly)).exec ⟨(), #[]⟩).1 =
        .ok (.error ⟨[⟨.nodes 2 3, ⟨1, 1⟩⟩], false⟩) := by
    decide +kernel
  constructor
  · obtain ⟨p, returned, decided, -⟩ := (predicts _).1 _ _ _ (Run.exec_of_outcome priced)
    refine ⟨p, returned, fun silent => ?_⟩
    have above : (Number.int 2).le (.int 1) = true := decided.mp silent
    revert above
    decide +kernel
  · intro t
    exact ((predicts _).2 _ _ _ (Run.exec_of_outcome refused) (by simp) (by decide +kernel) t).1

/-- One field too many times, which the schema does not have, and then the field that it has. -/
def exhausting : Document :=
  ⟨[.operation ⟨.query, some "A", [], [], List.replicate 100 (.field ⟨none, "x", [], []⟩ []), ⟨1, 1⟩⟩,
    .operation ⟨.query, some "B", [], [], [.field ⟨none, "a", [], []⟩ []], ⟨2, 1⟩⟩]⟩

/-- Every field costs an integer beyond all doubles. -/
def colossal : Rule Unit :=
  ⟨[.constant (.int (10 ^ 400))], ⟨.int 1000, 10⟩, none, []⟩

/-- The assessment gives up after the first operation, with a report. The rule alone does not get to its
end. -/
theorem overflow_after_refusal :
    Limits.make Policy.unlimited colossal.chain.length (.int 10) = .ok (widest 10) ∧
    Limits.make (.int 1000) colossal.chain.length (.int 10) = .ok colossal.limits ∧
    (∀ estimate ∈ colossal.chain, estimate.Functional) ∧
    (((colossal.assessor (widest 10) queryOnly).assess queryOnly
      (exhausting.report queryOnly)).exec ⟨(), #[]⟩).1 =
        .ok (.error ⟨[⟨.nodes 10 100, ⟨1, 1⟩⟩], true⟩) ∧
    ((colossal.check queryOnly exhausting).exec ⟨(), #[]⟩).1 = .error .overflow := by
  refine ⟨make_widest (by decide) (by decide), ?_, ?_, by decide +kernel, by decide +kernel⟩
  · exact Limits.make_of_positive (by decide +kernel) (by decide +kernel) (by decide) (by decide)
  · exact List.forall_mem_singleton.mpr fun call => ⟨_, .pure _⟩

end Rule

end QueryCost
