import QueryCost.Assessment
import QueryCost.Proofs.Verdict

/-!
# Passes with one rule

A pass goes through a document with the standard rules and with cost rules. With a single cost rule its
state is a `Solo`: what the pass has met, and how far the rule is. Three facts connect such a pass with the
rule's own check of the document. Without a flaw the pass is that check (`run_flawless`), flaws that leave
room for a report do not hide it (`run_violations`), and a report of the pass is always about an operation
beyond the limits (`through_violations`).
-/
namespace QueryCost

variable {σ : Type}

/-- The state of a pass with one rule. -/
@[ext] structure Solo where
  pass : Pass
  progress : Progress

namespace Solo

def meet (flaws : List Flaw) (x : Solo) : Solo := { x with pass := x.pass.meet flaws }

/-- Take in the score of an operation; the pass takes in the report that it may lead to. -/
def take (limits : Limits) (location : Location) (score : Score) (x : Solo) : Solo where
  pass :=
    match x.progress.violation, (x.progress.record limits location score).violation with
    | none, some v => x.pass.report v
    | _, _ => x.pass
  progress := x.progress.record limits location score

/-- Look at a definition; a rule has to do with operations only. -/
def look (rule : Rule σ) (schema : Schema) (fragments : List Fragment) (x : Solo) :
    Definition → Run σ Solo
  | .operation op => do
    match (← rule.score? schema fragments op) with
    | none => return x
    | some score => return x.take rule.limits op.location score
  | _ => return x

/-- Go through definitions until the pass gives up. -/
def through (rule : Rule σ) (schema : Schema) (fragments : List Fragment) :
    Solo → List (Definition × DefinitionReport) → Run σ Solo
  | x, [] => return x
  | x, (d, found) :: rest =>
    if (x.meet found.entering).pass.aborted then return x.meet found.entering
    else do
      let y ← look rule schema fragments (x.meet found.entering) d
      through rule schema fragments (y.meet found.inside) rest

/-- How the pass ends. -/
def outcome (closing : List Flaw) (x : Solo) : Pass.Outcome :=
  let p := if x.pass.aborted then x.pass else x.pass.meet closing
  ⟨p.violations, p.flawed, [if p.aborted then none else x.progress.completed?]⟩

end Solo

namespace Pass

/-- A report is listed as one more error, or the pass gives up because there is no room for it. -/
theorem report_cases (v : Violation) (p : Pass) :
    (errorLimit ≤ p.errors ∧ (p.report v).aborted = true ∧ (p.report v).errors = p.errors ∧
      (p.report v).violations = p.violations) ∨
    (p.errors < errorLimit ∧ (p.report v).aborted = p.aborted ∧
      (p.report v).errors = p.errors + 1 ∧ (p.report v).violations = p.violations ++ [v]) := by
  unfold report
  by_cases full : errorLimit ≤ p.errors
  · rw [if_pos full]
    exact .inl ⟨full, rfl, rfl, rfl⟩
  · rw [if_neg full]
    exact .inr ⟨Nat.lt_of_not_le full, rfl, rfl, rfl⟩

open Solo

variable {rule : Rule σ} {schema : Schema} {fragments : List Fragment}

theorem enterRules_single (op : Operation) {x : Solo} (going : x.pass.aborted = false) :
    enterRules schema fragments op x.pass [⟨rule, x.progress⟩] = (do
      let y ← look rule schema fragments x (.operation op)
      return (y.pass, [⟨rule, y.progress⟩])) := by
  simp only [enterRules, going, Rule.enter, look, bind_assoc, pure_bind, Bool.false_eq_true,
    if_false]
  congr 1
  funext score?
  cases score? with
  | none =>
    simp only [pure_bind]
    cases x.progress.violation <;> rfl
  | some score =>
    simp only [pure_bind]
    rfl

theorem throughDefinitions_single (x : Solo) (ds : List (Definition × DefinitionReport)) :
    throughDefinitions schema fragments x.pass [⟨rule, x.progress⟩] ds = (do
      let y ← through rule schema fragments x ds
      return (y.pass, [⟨rule, y.progress⟩])) := by
  induction ds generalizing x with
  | nil => simp [throughDefinitions, through]
  | cons head rest ih =>
    obtain ⟨d, found⟩ := head
    cases going : (x.meet found.entering).pass.aborted with
    | true =>
      have stopped : (x.pass.meet found.entering).aborted = true := going
      simp only [throughDefinitions, through, stopped, going, if_true, pure_bind]
      rfl
    | false =>
      have goes : (x.pass.meet found.entering).aborted = false := going
      cases d with
      | operation op =>
        have entered : enterRules schema fragments op (x.pass.meet found.entering)
            [⟨rule, x.progress⟩] = _ := enterRules_single op going
        simp only [throughDefinitions, through, goes, going, Bool.false_eq_true, if_false, entered,
          bind_assoc, pure_bind]
        congr 1
        funext y
        exact ih (y.meet found.inside)
      | _ =>
        simp only [throughDefinitions, through, look, goes, going, Bool.false_eq_true, if_false,
          pure_bind]
        exact ih ((x.meet found.entering).meet found.inside)

/-- With one rule, a pass is the way of a `Solo` through the document. -/
theorem run_single (rule : Rule σ) (schema : Schema) {doc : Document} (found : Report doc) :
    run schema found [rule] = (do
      let x ← through rule schema doc.fragments ⟨start.meet found.opening, .start⟩ found.definitions
      return x.outcome found.closing) := by
  have single : throughDefinitions schema doc.fragments (start.meet found.opening)
      [⟨rule, .start⟩] found.definitions = _ :=
    throughDefinitions_single ⟨start.meet found.opening, .start⟩ _
  simp only [run, List.map_cons, List.map_nil, single, bind_assoc, pure_bind]
  rfl

end Pass

namespace Solo

variable {rule : Rule σ} {schema : Schema} {fragments : List Fragment} {x y z : Solo}
  {ds : List (Definition × DefinitionReport)} {s after : Session σ}

theorem outcome_violations (closing : List Flaw) (x : Solo) :
    (x.outcome closing).violations = x.pass.violations := by
  unfold outcome
  cases x.pass.aborted <;> rfl

theorem meet_aborted (flaws : List Flaw) (stopped : x.pass.aborted = true) :
    (x.meet flaws).pass.aborted = true := by
  simp [meet, Pass.meet, stopped]

/-- A score has an effect on the pass exactly if it is the first one beyond the limits. -/
theorem take_cases (limits : Limits) (location : Location) (score : Score) (x : Solo) :
    (x.progress.violation = none ∧ limits.Exceeded score ∧
      ∃ v, (x.take limits location score).progress.violation = some v ∧
        (x.take limits location score).pass = x.pass.report v) ∨
    ((x.progress.violation = none → ¬ limits.Exceeded score) ∧
      (x.take limits location score).progress.violation = x.progress.violation ∧
      (x.take limits location score).pass = x.pass) := by
  cases earlier : x.progress.violation with
  | none =>
    by_cases beyond : limits.Exceeded score
    · have reported := Progress.record_violation_of_exceeded location earlier beyond
      refine .inl ⟨rfl, beyond, _, reported, ?_⟩
      simp only [take, earlier, reported]
    · have silent := Progress.record_violation_of_within x.progress location beyond
      rw [earlier] at silent
      refine .inr ⟨fun _ => beyond, silent, ?_⟩
      simp only [take, earlier, silent]
  | some v =>
    have kept : (x.progress.record limits location score).violation = some v := by
      simp [Progress.record, earlier]
    refine .inr ⟨by simp, kept, ?_⟩
    simp only [take, earlier]

/-- After a report, scores have no effect. -/
theorem take_reported (reported : x.progress.violation ≠ none) (limits : Limits)
    (location : Location) (score : Score) :
    (x.take limits location score).pass = x.pass ∧
      (x.take limits location score).progress.violation = x.progress.violation := by
  rcases take_cases limits location score x with ⟨silent, -⟩ | ⟨-, kept, passed⟩
  · exact absurd silent reported
  · exact ⟨passed, kept⟩

/-- Where there is no room for a report, nothing is listed. -/
theorem take_full (full : Pass.errorLimit ≤ x.pass.errors) (limits : Limits) (location : Location)
    (score : Score) :
    (x.take limits location score).pass.violations = x.pass.violations ∧
      (x.take limits location score).pass.errors = x.pass.errors := by
  rcases take_cases limits location score x with ⟨-, -, v, -, passed⟩ | ⟨-, -, passed⟩
  · rcases Pass.report_cases v x.pass with ⟨-, -, same, unlisted⟩ | ⟨room, -⟩
    · rw [passed]
      exact ⟨unlisted, same⟩
    · omega
  · rw [passed]
    exact ⟨rfl, rfl⟩

/-- Where there is room, the pass does not give up, and a report counts as one error. -/
theorem take_room (room : x.pass.errors < Pass.errorLimit) (limits : Limits) (location : Location)
    (score : Score) :
    (x.take limits location score).pass.aborted = x.pass.aborted ∧
      (x.take limits location score).pass.errors ≤ x.pass.errors + 1 ∧
      ((x.take limits location score).progress.violation = none →
        (x.take limits location score).pass.errors = x.pass.errors) := by
  rcases take_cases limits location score x with ⟨-, -, v, reports, passed⟩ | ⟨-, -, passed⟩
  · rcases Pass.report_cases v x.pass with ⟨full, -⟩ | ⟨-, goes, more, -⟩
    · omega
    · rw [passed, goes, more, reports]
      exact ⟨rfl, Nat.le_refl _, by simp⟩
  · rw [passed]
    exact ⟨rfl, Nat.le_succ _, fun _ => rfl⟩

theorem look_success {d : Definition}
    (success : (look rule schema fragments x d).exec s = (.ok y, after)) :
    y = x ∨ ∃ op score, d = .operation op ∧
      (rule.score? schema fragments op).exec s = (.ok (some score), after) ∧
      y = x.take rule.limits op.location score := by
  cases d with
  | operation op =>
    obtain ⟨score?, between, priced, success⟩ := Run.exec_bind_success success
    cases score? with
    | none => exact .inl (Run.exec_pure_success success).1
    | some score =>
      obtain ⟨rfl, rfl⟩ := Run.exec_pure_success success
      exact .inr ⟨op, score, rfl, priced, rfl⟩
  | _ => exact .inl (Run.exec_pure_success success).1

theorem through_cons_success {d : Definition} {found : DefinitionReport}
    (success : (through rule schema fragments x ((d, found) :: ds)).exec s = (.ok z, after)) :
    ((x.meet found.entering).pass.aborted = true ∧ z = x.meet found.entering) ∨
    ((x.meet found.entering).pass.aborted = false ∧ ∃ y between,
      (look rule schema fragments (x.meet found.entering) d).exec s = (.ok y, between) ∧
      (through rule schema fragments (y.meet found.inside) ds).exec between = (.ok z, after)) := by
  unfold through at success
  cases going : (x.meet found.entering).pass.aborted with
  | true =>
    rw [going, if_pos rfl] at success
    exact .inl ⟨rfl, (Run.exec_pure_success success).1⟩
  | false =>
    rw [going, if_neg Bool.false_ne_true] at success
    exact .inr ⟨rfl, Run.exec_bind_success success⟩

/-- What a pass reports is an operation beyond the limits. -/
theorem through_violations
    (success : (through rule schema fragments x ds).exec s = (.ok z, after)) :
    z.pass.violations = x.pass.violations ∨
    ∃ op score t t', .operation op ∈ ds.map (·.1) ∧
      (rule.score? schema fragments op).exec t = (.ok (some score), t') ∧
      rule.limits.Exceeded score := by
  induction ds generalizing x s with
  | nil =>
    obtain ⟨rfl, -⟩ := Run.exec_pure_success success
    exact .inl rfl
  | cons head rest ih =>
    obtain ⟨d, found⟩ := head
    rcases through_cons_success success with ⟨-, rfl⟩ | ⟨-, y, between, looked, success⟩
    · exact .inl rfl
    rcases ih success with kept | ⟨op, score, t, t', member, priced, beyond⟩
    · rcases look_success looked with rfl | ⟨op, score, rfl, priced, rfl⟩
      · exact .inl kept
      · rcases take_cases rule.limits op.location score (x.meet found.entering) with
          ⟨-, beyond, -⟩ | ⟨-, -, same⟩
        · exact .inr ⟨op, score, _, _, by simp, priced, beyond⟩
        · refine .inl (kept.trans ?_)
          rw [meet, same]
          rfl
    · exact .inr ⟨op, score, t, t', List.mem_cons_of_mem _ member, priced, beyond⟩

section Flaws

theorem meet_flawless {flaws : List Flaw} (flawless : (x.meet flaws).pass.flawed = false) :
    x.pass.flawed = false ∧ flaws = [] := by
  simpa [meet, Pass.meet] using flawless

theorem look_flawless {d : Definition}
    (success : (look rule schema fragments x d).exec s = (.ok y, after))
    (flawless : y.pass.flawed = false) : x.pass.flawed = false := by
  rcases look_success success with rfl | ⟨op, score, -, -, rfl⟩
  · exact flawless
  rcases take_cases rule.limits op.location score x with ⟨-, -, v, -, same⟩ | ⟨-, -, same⟩
  · rw [same, Pass.report] at flawless
    split at flawless
    · cases flawless
    · exact flawless
  · rw [same] at flawless
    exact flawless

/-- A flaw is not forgotten. -/
theorem through_flawless (success : (through rule schema fragments x ds).exec s = (.ok z, after))
    (flawless : z.pass.flawed = false) : x.pass.flawed = false := by
  induction ds generalizing x s with
  | nil =>
    obtain ⟨rfl, -⟩ := Run.exec_pure_success success
    exact flawless
  | cons head rest ih =>
    obtain ⟨d, found⟩ := head
    rcases through_cons_success success with ⟨-, rfl⟩ | ⟨-, y, between, looked, success⟩
    · exact (meet_flawless flawless).1
    · exact (meet_flawless (look_flawless looked (meet_flawless (ih success)).1)).1

/-- The state after some flaws, as long as there is room: the report of the rule is one more error. -/
def counted (n : Nat) (q : Progress) : Solo :=
  ⟨⟨n + q.violation.toList.length, decide (0 < n), false, q.violation.toList⟩, q⟩

theorem counted_meet {n : Nat} {flaws : List Flaw} (room : n + flaws.length < Pass.errorLimit)
    (q : Progress) : (counted n q).meet flaws = counted (n + flaws.length) q := by
  have errors : n + q.violation.toList.length + flaws.length =
      n + flaws.length + q.violation.toList.length := by omega
  have going : ¬ Pass.errorLimit < n + flaws.length + q.violation.toList.length := by
    have one : q.violation.toList.length ≤ 1 := by cases q.violation <;> simp
    omega
  have flawed : (decide (0 < n) || !flaws.isEmpty) = decide (0 < n + flaws.length) := by
    cases flaws with
    | nil => simp
    | cons first rest =>
      have positive : 0 < n + (rest.length + 1) := by omega
      simp [positive]
  simp only [counted, meet, Pass.meet, errors, flawed, going, decide_false, Bool.or_self]

theorem counted_take {n : Nat} (room : n < Pass.errorLimit) (limits : Limits) (location : Location)
    (score : Score) (q : Progress) :
    (counted n q).take limits location score = counted n (q.record limits location score) := by
  have progress : ((counted n q).take limits location score).progress =
      q.record limits location score := rfl
  have pass : ((counted n q).take limits location score).pass =
      (counted n (q.record limits location score)).pass := by
    rcases take_cases limits location score (counted n q) with ⟨silent, -, v, reported, same⟩ |
      ⟨-, kept, same⟩
    · rw [progress] at reported
      have before : q.violation = none := silent
      have fits : ¬ Pass.errorLimit ≤ n := Nat.not_le_of_lt room
      rw [same]
      simp [counted, Pass.report, fits, before, reported]
    · rw [progress] at kept
      have unchanged : (q.record limits location score).violation = q.violation := kept
      rw [same]
      simp [counted, unchanged]
  exact Solo.ext pass progress

/-- Number of flaws at definitions. -/
def flawCount : List (Definition × DefinitionReport) → Nat
  | [] => 0
  | (_, found) :: rest => found.entering.length + found.inside.length + flawCount rest

/-- As long as there is room for all flaws and a report, the way through the definitions is that of the
rule through their operations. -/
theorem through_counted {n : Nat} (room : n + flawCount ds < Pass.errorLimit) (q : Progress) :
    through rule schema fragments (counted n q) ds = (do
      let q ← (⟨ds.map (·.1)⟩ : Document).operations.foldlM (rule.enter schema fragments) q
      return counted (n + flawCount ds) q) := by
  induction ds generalizing n q with
  | nil => simp [through, Document.operations, flawCount]
  | cons head rest ih =>
    obtain ⟨d, found⟩ := head
    rw [flawCount] at room ⊢
    have entering : ∀ q, (counted n q).meet found.entering = counted (n + found.entering.length) q :=
      counted_meet (by omega)
    have inside : ∀ q, (counted (n + found.entering.length) q).meet found.inside =
        counted (n + found.entering.length + found.inside.length) q :=
      counted_meet (by omega)
    have others : ∀ q, through rule schema fragments
        (counted (n + found.entering.length + found.inside.length) q) rest = _ := ih (by omega)
    have going : ∀ n q, (counted n q).pass.aborted = false := fun _ _ => rfl
    have whole : n + found.entering.length + found.inside.length + flawCount rest =
        n + (found.entering.length + found.inside.length + flawCount rest) := by omega
    simp only [through, entering, going, Bool.false_eq_true, if_false]
    cases d with
    | operation op =>
      simp only [look, Document.operations, List.map_cons, List.filterMap_cons, List.foldlM_cons,
        Rule.enter, bind_assoc]
      congr 1
      funext score?
      cases score? with
      | none =>
        simp only [pure_bind, inside, others, whole]
        rfl
      | some score =>
        have taken : (counted (n + found.entering.length) q).take rule.limits op.location score = _ :=
          counted_take (by omega) _ _ _ _
        simp only [pure_bind, taken, inside, others, whole]
        rfl
    | _ =>
      simp only [look, pure_bind, inside, others, whole]
      rfl

/-- The state after no flaw: only the report of the rule counts as an error. -/
def clean (q : Progress) : Solo :=
  ⟨⟨q.violation.toList.length, false, false, q.violation.toList⟩, q⟩

theorem counted_zero : counted 0 = clean := by
  funext q
  simp [counted, clean]

theorem clean_meet_nil (q : Progress) : (clean q).meet [] = clean q := by
  rw [← counted_zero]
  exact @counted_meet 0 [] (by decide) q

theorem clean_outcome_nil (q : Progress) :
    (clean q).outcome [] = ⟨q.violation.toList, false, [q.completed?]⟩ := by
  have met : (clean q).pass.meet [] = (clean q).pass := congrArg Solo.pass (clean_meet_nil q)
  rw [outcome, met]
  rfl

theorem clean_take (limits : Limits) (location : Location) (score : Score) (q : Progress) :
    (clean q).take limits location score = clean (q.record limits location score) := by
  rw [← counted_zero]
  exact counted_take (by decide) limits location score q

/-- Nothing is found at any of the definitions. -/
def Spotless (ds : List (Definition × DefinitionReport)) : Prop :=
  ∀ x ∈ ds, x.2.entering = [] ∧ x.2.inside = []

theorem Spotless.flawCount_eq (spotless : Spotless ds) : flawCount ds = 0 := by
  induction ds with
  | nil => rfl
  | cons head rest ih =>
    obtain ⟨⟨entering, inside⟩, others⟩ := List.forall_mem_cons.mp spotless
    rw [flawCount, entering, inside, ih others, List.length_nil]

/-- Without flaws, the way through the definitions is that of the rule through their operations. -/
theorem through_clean (spotless : Spotless ds) (q : Progress) :
    through rule schema fragments (clean q) ds = (do
      let q ← (⟨ds.map (·.1)⟩ : Document).operations.foldlM (rule.enter schema fragments) q
      return clean q) := by
  have none := spotless.flawCount_eq
  have room : 0 + flawCount ds < Pass.errorLimit := by
    rw [none]
    decide
  have way : through rule schema fragments (counted 0 q) ds = _ := through_counted room q
  rwa [none, Nat.add_zero, counted_zero] at way

/-- A pass that ends without flaws has met none on its way. -/
theorem spotless_of_through {q : Progress}
    (success : (through rule schema fragments (clean q) ds).exec s = (.ok z, after))
    (flawless : z.pass.flawed = false) : Spotless ds := by
  induction ds generalizing q s with
  | nil => exact List.forall_mem_nil _
  | cons head rest ih =>
    obtain ⟨d, found⟩ := head
    rcases through_cons_success success with ⟨stopped, rfl⟩ | ⟨-, y, between, looked, success⟩
    · rw [(meet_flawless flawless).2, clean_meet_nil] at stopped
      cases stopped
    -- A flaw at this definition would still be there at the end.
    obtain ⟨looked_flawless, inside⟩ := meet_flawless (through_flawless success flawless)
    obtain ⟨-, entering⟩ := meet_flawless (look_flawless looked looked_flawless)
    rw [entering, clean_meet_nil] at looked
    rw [inside] at success
    refine List.forall_mem_cons.mpr ⟨⟨entering, inside⟩, ?_⟩
    rcases look_success looked with rfl | ⟨op, score, -, -, rfl⟩
    · rw [clean_meet_nil] at success
      exact ih success
    · rw [clean_take, clean_meet_nil] at success
      exact ih success

end Flaws

end Solo

namespace Report

variable {doc : Document}

/-- A report that finds nothing. -/
structure Flawless (found : Report doc) : Prop where
  opening : found.opening = []
  definitions : Solo.Spotless found.definitions
  closing : found.closing = []

/-- Before a pass comes to the end, it meets fewer flaws than it can take in. -/
def LeavesRoom (found : Report doc) : Prop :=
  found.opening.length + Solo.flawCount found.definitions < Pass.errorLimit

end Report

namespace Pass

open Solo

variable {rule : Rule σ} {schema : Schema} {doc : Document} {found : Report doc}

/-- On a document without flaws, a pass with one rule is the check by that rule. -/
theorem run_flawless (flawless : found.Flawless) :
    run schema found [rule] = (do
      let p ← rule.check schema doc
      return ⟨p.violation.toList, false, [p.completed?]⟩) := by
  have opened : (⟨start.meet [], .start⟩ : Solo) = clean .start := rfl
  rw [run_single, flawless.opening, opened, through_clean flawless.definitions, found.lists,
    flawless.closing, bind_assoc]
  unfold Rule.check
  congr 1
  funext p
  rw [pure_bind, clean_outcome_nil]

/-- Flaws do not hide a report for which they leave room. -/
theorem run_violations (room : found.LeavesRoom) :
    ((·.violations) <$> run schema found [rule]) = (do
      let p ← rule.check schema doc
      return p.violation.toList) := by
  have opened : (⟨start.meet found.opening, .start⟩ : Solo) =
      counted found.opening.length .start := by
    have few : 0 + found.opening.length < errorLimit := by
      unfold Report.LeavesRoom at room
      omega
    have met := counted_meet few .start
    rwa [Nat.zero_add] at met
  rw [run_single, opened, through_counted room, found.lists]
  simp only [map_bind, map_pure, bind_assoc, pure_bind, outcome_violations]
  rfl

/-- A pass that ends without flaws went over a document that has none. -/
theorem flawless_of_run {s after : Session σ} {outcome : Outcome}
    (success : (run schema found [rule]).exec s = (.ok outcome, after))
    (flawless : outcome.flawed = false) : found.Flawless := by
  rw [run_single] at success
  obtain ⟨x, _, went, ended⟩ := Run.exec_bind_success success
  obtain ⟨rfl, -⟩ := Run.exec_pure_success ended
  have passed : x.pass.flawed = false := by
    unfold outcome at flawless
    cases stopped : x.pass.aborted with
    | true => simpa [stopped] using flawless
    | false =>
      rw [stopped] at flawless
      exact (meet_flawless (x := x) flawless).1
  obtain ⟨-, opening⟩ := meet_flawless (x := ⟨start, .start⟩) (through_flawless went passed)
  rw [opening] at went
  have spotless : Spotless found.definitions := spotless_of_through (q := .start) went passed
  -- Without flaws on the way the pass has not given up, so it has met the flaws at the end.
  have way : through rule schema doc.fragments ⟨start.meet [], .start⟩ found.definitions = _ :=
    through_clean spotless .start
  rw [way] at went
  obtain ⟨q, _, -, ended⟩ := Run.exec_bind_success went
  obtain ⟨rfl, -⟩ := Run.exec_pure_success ended
  exact ⟨opening, spotless, (meet_flawless (x := clean q) flawless).2⟩

end Pass

end QueryCost
