import QueryCost.Proofs.MonotoneSums
import QueryCost.Proofs.Overflow

/-!
# Selections at the end

A selection at the end of an operation is priced after all others, and its cost is added to theirs. So
the cost does not fall, and a rejected operation stays rejected, as long as the selection itself has no
negative cost: all costs that are declared and all arguments that multiply them are not negative. A
negative argument takes cost back, and so does the rounding of a large integer total that meets a
double.
-/
namespace QueryCost

variable {σ : Type}

/-- The operation with one more selection at its end. -/
def Operation.append (op : Operation) (s : Selection) : Operation :=
  { op with selections := op.selections ++ [s] }

namespace Visit

variable {chain : List (Estimate σ)}

theorem priceAll_append (total : Number) (first second : List Visit) :
    priceAll chain total (first ++ second) = (do
      let subtotal ← priceAll chain total first
      priceAll chain subtotal second) := by
  induction first generalizing total with
  | nil => simp [priceAll]
  | cons v rest ih =>
    simp only [List.cons_append, priceAll, bind_assoc, ih]
    congr 1
    funext added
    cases added with
    | none => rfl
    | some cost => simp only [bind_assoc]

theorem nodesAll_append (first second : List Visit) :
    nodesAll (first ++ second) = nodesAll first + nodesAll second := by
  induction first with
  | nil => simp [nodesAll]
  | cons v rest ih =>
    simp only [List.cons_append, nodesAll, ih]
    omega

/-- A total that is a double has been rounded in the last sum. -/
theorem rounded_of_priceAll {visits : List Visit} {total : Number} {x : Binary64}
    {t after : Session σ} (start : ∀ y, total = .float y → y.Rounded)
    (success : (priceAll chain total visits).exec t = (.ok (.float x), after)) : x.Rounded := by
  induction visits generalizing total t with
  | nil =>
    unfold priceAll at success
    obtain ⟨same, -⟩ := Run.exec_pure_success success
    exact start x same.symm
  | cons v rest ih =>
    unfold priceAll at success
    obtain ⟨added, _, _, success⟩ := Run.exec_bind_success success
    cases added with
    | none => exact ih start success
    | some cost =>
      obtain ⟨next, _, summed, success⟩ := Run.exec_bind_success success
      obtain ⟨sum, -⟩ := Run.exec_ofExcept_success summed
      refine ih ?_ success
      rintro y rfl
      exact Number.rounded_of_add sum

/-- One score is the other with the visit: its nodes are counted, and its cost is added. -/
def Extends (v : Visit) (chain : List (Estimate σ)) (score score' : Score) : Prop :=
  score'.nodes = score.nodes + v.nodes ∧
  ∃ t after, ((v.price chain).exec t = (.ok none, after) ∧ score'.cost = score.cost) ∨
    ∃ cost, (v.price chain).exec t = (.ok (some cost), after) ∧
      score.cost.add cost = .ok score'.cost

theorem Extends.nodes_le {v : Visit} {score score' : Score} (extended : v.Extends chain score score') :
    score.nodes ≤ score'.nodes := by
  rw [extended.1]
  exact Nat.le_add_right _ _

theorem Extends.cost_le {v : Visit} {score score' : Score} (extended : v.Extends chain score score')
    (notNegative : (v.price chain).Ensures fun added => ∀ cost, added = some cost → cost.NotNegative)
    (number : ¬ score'.cost.IsNaN)
    (sound : (score.cost.IsInteger ∧ (v.price chain).Ensures fun added =>
      ∀ cost, added = some cost → cost.IsInteger) ∨ score.cost.Exact) :
    score.cost.le score'.cost = true := by
  obtain ⟨-, t, after, ⟨-, same⟩ | ⟨cost, priced, sum⟩⟩ := extended
  · rw [same] at number ⊢
    exact Number.le_refl number
  · have above := notNegative t
    rw [priced] at above
    refine Number.le_add sum (above cost rfl) number (sound.imp_left ?_)
    rintro ⟨total, integer⟩
    have whole := integer t
    rw [priced] at whole
    exact ⟨total, whole cost rfl⟩

end Visit

namespace Scope

variable {scope : Scope} {chain : List (Estimate σ)} {path : List String} {parent : Option TypeDef}

theorem expand_append (first second : List Selection) :
    scope.expand path parent (first ++ second) =
      scope.expand path parent first ++ scope.expand path parent second := by
  induction first with
  | nil => simp
  | cons s rest ih => simp [ih]

/-- With one more selection at the end, the others are priced as without it, and then it is added. -/
theorem score_append_success {selections : List Selection} {s : Selection} {t after : Session σ}
    {score' : Score}
    (success : (scope.score chain path parent (selections ++ [s])).exec t = (.ok score', after)) :
    ∃ score between, (scope.score chain path parent selections).exec t = (.ok score, between) ∧
      (scope.visitAt path parent s).Extends chain score score' := by
  unfold score at success
  simp only [expand_append, expand_cons, expand_nil, Visit.priceAll_append] at success
  obtain ⟨total', _, summed, ended⟩ := Run.exec_bind_success success
  obtain ⟨rfl, -⟩ := Run.exec_pure_success ended
  obtain ⟨total, between, first, summed⟩ := Run.exec_bind_success summed
  simp only [Visit.priceAll] at summed
  obtain ⟨added, _, priced, summed⟩ := Run.exec_bind_success summed
  refine ⟨⟨total, Visit.nodesAll (scope.expand path parent selections)⟩, between, ?_, ?_, ?_⟩
  · unfold score
    rw [Run.exec_bind_ok _ first, Run.exec_pure]
  · simp [Visit.nodesAll_append, Visit.nodesAll]
  cases added with
  | none =>
    obtain ⟨same, -⟩ := Run.exec_pure_success summed
    exact ⟨between, _, .inl ⟨priced, same⟩⟩
  | some cost =>
    obtain ⟨next, _, adding, ended⟩ := Run.exec_bind_success summed
    obtain ⟨sum, -⟩ := Run.exec_ofExcept_success adding
    obtain ⟨rfl, -⟩ := Run.exec_pure_success ended
    exact ⟨between, _, .inr ⟨cost, priced, sum⟩⟩

theorem exact_of_score {selections : List Selection} {t after : Session σ} {score : Score}
    (success : (scope.score chain path parent selections).exec t = (.ok score, after))
    (small : ∀ n, score.cost = .int n → n.natAbs ≤ 2 ^ 53) : score.cost.Exact := by
  obtain ⟨total, _, priced, ended⟩ := Run.exec_bind_success success
  obtain ⟨rfl, -⟩ := Run.exec_pure_success ended
  cases total with
  | int n => exact small n rfl
  | float x => exact Visit.rounded_of_priceAll (by rintro y ⟨⟩) priced

end Scope

/-- A score that is beyond the limits whenever another one is leads to a report whenever that one does. -/
theorem Progress.record_violation_mono {limits : Limits} {score score' : Score} (location : Location)
    (p : Progress) (beyond : limits.Exceeded score → limits.Exceeded score')
    (reported : (p.record limits location score).violation.isSome = true) :
    (p.record limits location score').violation.isSome = true := by
  cases before : p.violation with
  | some v => simp [record, before]
  | none =>
    by_cases exceeded : limits.Exceeded score
    · rw [record_violation_of_exceeded location before (beyond exceeded)]
      rfl
    · rw [record_violation_of_within p location exceeded, before] at reported
      cases reported

namespace Rule

open Visit (fields fieldsAll)

/-- A field, with the visits below it, that the rule comes across in an appended selection. -/
def Adds (rule : Rule σ) (schema : Schema) (fragments : List Fragment) (op : Operation)
    (s : Selection) (f : Site × List Visit) : Prop :=
  ∃ root, (rule.schema.getD schema).root? op.kind = some root ∧
    f ∈ fields ((rule.scope schema fragments op).visitAt [] (some root) s)

theorem Adds.has {rule : Rule σ} {schema : Schema} {fragments : List Fragment} {op : Operation}
    {s : Selection} {f : Site × List Visit} (added : rule.Adds schema fragments op s f) :
    (rule.schema.getD schema).Has f.1 := by
  obtain ⟨root, rooted, member⟩ := added
  have sites := Scope.fieldsAll_expand_has (rule.known_root fragments rooted) [] [s]
  exact sites f (by simpa [fieldsAll] using member)

/-- What is added by a selection is in a closed set, if the costs that are declared are and the arguments
that multiply them. -/
theorem price_appended_ensures {rule : Rule Memory} {schema : Schema} {fragments : List Fragment}
    {op : Operation} {s : Selection} {root : TypeDef} {allowed : Int → Prop} {N : Number → Prop}
    (defaults : rule.chain = Formula.defaults.map Formula.estimate)
    (declares : (rule.schema.getD schema).DeclaresIntegers allowed)
    (rooted : (rule.schema.getD schema).root? op.kind = some root) (closed : Number.Closed N)
    (bases : ∀ n, allowed n → N (.int n))
    (arguments : ∀ f, rule.Adds schema fragments op s f → f.1.MultipliersWithin N) :
    (((rule.scope schema fragments op).visitAt [] (some root) s).price rule.chain).Ensures
      fun added => ∀ cost, added = some cost → N cost := by
  refine Visit.price_ensures closed.toSumClosed _ ?_
  intro f member child inside
  have added : rule.Adds schema fragments op s f := ⟨root, rooted, member⟩
  have site := (declares.site added.has).within bases (arguments f added)
  rw [defaults, defaults_eq_ratedChain]
  exact Site.price_ratedChain_ensures closed closed.one site inside

section Score

variable {rule : Rule σ} {schema : Schema} {fragments : List Fragment} {op : Operation}

/-- An operation that gets a score with one more selection gets one without it, from the same session. -/
theorem score?_append_success {root : TypeDef} {s : Selection} {t after' : Session σ}
    {score?' : Option Score} (rooted : (rule.schema.getD schema).root? op.kind = some root)
    (success : (rule.score? schema fragments (op.append s)).exec t = (.ok score?', after')) :
    ∃ score score' after, (rule.score? schema fragments op).exec t = (.ok (some score), after) ∧
      score?' = some score' ∧ rule.Priced schema fragments op score ∧
      ((rule.scope schema fragments op).visitAt [] (some root) s).Extends rule.chain score score' := by
  rw [score?_of_root (op.append s) rooted] at success
  obtain ⟨vars, between, coerced, success⟩ := Run.exec_bind_success success
  obtain ⟨score', _, priced, success⟩ := Run.exec_bind_success success
  obtain ⟨_, _, _, success⟩ := Run.exec_bind_success success
  obtain ⟨rfl, -⟩ := Run.exec_pure_success success
  obtain rfl := variablesFor_success coerced
  obtain ⟨score, middle, first, extended⟩ := Scope.score_append_success priced
  have before : (op.variablesFor (rule.schema.getD schema) rule.vars).exec t = (.ok _, between) :=
    coerced
  have scored : ∃ after, (rule.score? schema fragments op).exec t = (.ok (some score), after) := by
    rw [score?_of_root op rooted, Run.exec_bind_ok _ before, Run.exec_bind_ok _ first,
      Run.exec_bind_ok _ (Run.exec_note ..), Run.exec_pure]
    exact ⟨_, rfl⟩
  obtain ⟨after, scored⟩ := scored
  exact ⟨score, score', after, scored, rfl, ⟨root, _, _, rooted, first⟩, extended⟩

end Score

theorem enter_of_score? {rule : Rule σ} {schema : Schema} {fragments : List Fragment}
    {op : Operation} {score : Score} {t after : Session σ} (p : Progress)
    (scored : (rule.score? schema fragments op).exec t = (.ok (some score), after)) :
    (rule.enter schema fragments p op).exec t =
      (.ok (p.record rule.limits op.location score), after) := by
  unfold enter
  rw [Run.exec_bind_ok _ scored, Run.exec_pure]

/-- The default estimators, with costs declared as integers that are not negative, and a selection whose
numeric multipliers are not negative: pricing the operation with the selection at its end overflows, or
the operation has no root type, or it gets scores both with the selection and without it. Then the
selection does not lower the number of nodes. It does not lower the cost either, unless that becomes NaN,
if all these multipliers are integers or the cost without it is a double or an integer of magnitude at
most `2 ^ 53`; and in this case the rule has a report after the operation with it if it has one after the
operation without it. -/
theorem score_append_not_lower (rule : Rule Memory)
    (defaults : rule.chain = Formula.defaults.map Formula.estimate) (schema : Schema)
    (declares : (rule.schema.getD schema).DeclaresIntegers (0 ≤ ·)) (fragments : List Fragment)
    (op : Operation) (s : Selection)
    (notNegative : ∀ f, rule.Adds schema fragments op s f →
      f.1.MultipliersWithin Number.NotNegative) (t : Session Memory) :
    (∃ after, (rule.score? schema fragments (op.append s)).exec t = (.error .overflow, after)) ∨
    ((rule.score? schema fragments op).exec t = (.ok none, t) ∧
      (rule.score? schema fragments (op.append s)).exec t = (.ok none, t)) ∨
    ∃ score score' after after',
      (rule.score? schema fragments op).exec t = (.ok (some score), after) ∧
      (rule.score? schema fragments (op.append s)).exec t = (.ok (some score'), after') ∧
      score.nodes ≤ score'.nodes ∧
      (¬ score'.cost.IsNaN →
        ((∀ f, rule.Adds schema fragments op s f → f.1.MultipliersWithin Number.IsInteger) ∨
          ∀ n, score.cost = .int n → n.natAbs ≤ 2 ^ 53) →
        score.cost.le score'.cost = true ∧
        ∀ p, ∃ q q', (rule.enter schema fragments p op).exec t = (.ok q, after) ∧
          (rule.enter schema fragments p (op.append s)).exec t = (.ok q', after') ∧
          (q.violation.isSome = true → q'.violation.isSome = true)) := by
  cases rooted : (rule.schema.getD schema).root? op.kind with
  | none =>
    rw [score?_of_rootless op rooted, score?_of_rootless (op.append s) rooted]
    exact .inr (.inl ⟨rfl, rfl⟩)
  | some root =>
    rcases ended : (rule.score? schema fragments (op.append s)).exec t with ⟨fault | score?', after'⟩
    · obtain rfl := (faulty_of_score? ended).eq_overflow defaults declares
      exact .inl ⟨after', rfl⟩
    obtain ⟨score, score', after, scored, rfl, ⟨_, _, _, _, priced⟩, extended⟩ :=
      score?_append_success rooted ended
    refine .inr (.inr ⟨score, score', after, after', scored, rfl, extended.nodes_le, ?_⟩)
    intro number sound
    have above := price_appended_ensures defaults declares rooted Number.closed_notNegative
      (fun n nonneg => Number.notNegative_int.mpr nonneg) notNegative
    have total : score.cost.le score'.cost = true := by
      refine extended.cost_le above number ?_
      rcases sound with integers | small
      · cases cost : score.cost with
        | int n =>
          exact .inl ⟨⟨n, rfl⟩, price_appended_ensures defaults declares rooted
            Number.closed_isInteger (fun n _ => ⟨n, rfl⟩) integers⟩
        | float x =>
          rw [← cost]
          exact .inr (Scope.exact_of_score priced (by simp [cost]))
      · exact .inr (Scope.exact_of_score priced small)
    refine ⟨total, fun p => ⟨_, _, enter_of_score? p scored, enter_of_score? p ended, ?_⟩⟩
    refine Progress.record_violation_mono op.location p ?_
    rintro (nodes | cost)
    · exact .inl (Nat.lt_of_lt_of_le nodes extended.nodes_le)
    · exact .inr (Number.lt_of_lt_of_le cost total)

/-- Items with their ids; the number of them is a variable. -/
def labelledItems (label : String) (limit : String) : Selection :=
  .field ⟨some label, "items", [("limit", .var limit)], []⟩ [.field ⟨none, "id", [], []⟩ []]

def itemsQuery : Operation :=
  ⟨.query, none, [⟨"n", .named "Int", none, []⟩, ⟨"m", .named "Int", none, []⟩], [],
    [labelledItems "some" "n"], ⟨1, 1⟩⟩

/-- The default estimators with values for both variables. -/
def limited (maximum : Int) (n m : Number) : Rule Memory :=
  ⟨Formula.defaults.map Formula.estimate, ⟨.int maximum, 10000⟩, none, [("n", .num n), ("m", .num m)]⟩

theorem score_append_not_lower_three : ∃ q after,
    ((limited 5 (.int 10) (.int 3)).enter itemSchema [] .start
      (itemsQuery.append (labelledItems "more" "m"))).exec ⟨.empty, #[]⟩ = (.ok q, after) ∧
    q.violation.isSome = true := by
  have notNegative : ∀ f, (limited 5 (.int 10) (.int 3)).Adds itemSchema [] itemsQuery
      (labelledItems "more" "m") f → f.1.MultipliersWithin Number.NotNegative := by
    rintro f ⟨root, rooted, member⟩
    cases rooted
    revert f
    refine List.forall_mem_cons.mpr ⟨?_, List.forall_mem_singleton.mpr (.of_undeclared rfl)⟩
    refine .of_declared ["limit"] rfl (List.forall_mem_singleton.mpr ?_)
    exact Value.within_num (x := .int 3) (Number.notNegative_int.mpr (by decide))
  have priced : (((limited 5 (.int 10) (.int 3)).score? itemSchema []
      (itemsQuery.append (labelledItems "more" "m"))).exec ⟨.empty, #[]⟩).1 =
        .ok (some ⟨.int 15, 4⟩) := by decide +kernel
  have alone : (((limited 5 (.int 10) (.int 3)).score? itemSchema [] itemsQuery).exec
      ⟨.empty, #[]⟩).1 = .ok (some ⟨.int 11, 2⟩) := by decide +kernel
  rcases score_append_not_lower (limited 5 (.int 10) (.int 3)) rfl itemSchema
      (itemSchema_declares (by decide)) [] itemsQuery (labelledItems "more" "m") notNegative
      ⟨.empty, #[]⟩ with ⟨after, overflow⟩ | ⟨-, rootless⟩ | ⟨score, score', after, after', first,
        second, -, kept⟩
  · rw [overflow] at priced
    cases priced
  · rw [rootless] at priced
    cases priced
  · rw [second] at priced
    rw [first] at alone
    cases priced
    cases alone
    obtain ⟨-, reports⟩ := kept (Number.not_isNaN_int 15) (.inr (by rintro n ⟨⟩; decide))
    obtain ⟨q, q', before, later, reported⟩ := reports .start
    rw [enter_of_score? .start first] at before
    cases before
    exact ⟨q', after', later, reported (by decide +kernel)⟩

/-- Ten items are rejected, and accepted with minus ten more. Also without a negative number: an integer
of 55 places is rejected, and accepted with half an item more, for which it is rounded. -/
theorem append_takes_back_cost :
    (itemSchema.DeclaresIntegers (0 ≤ ·)) ∧
    (((limited 5 (.int 10) (.int (-10))).check itemSchema ⟨[.operation itemsQuery]⟩).exec
      ⟨.empty, #[]⟩).1 = .ok ⟨.int 11, some ⟨.cost (.int 5) (.int 11), ⟨1, 1⟩⟩⟩ ∧
    (((limited 5 (.int 10) (.int (-10))).check itemSchema
      ⟨[.operation (itemsQuery.append (labelledItems "more" "m"))]⟩).exec ⟨.empty, #[]⟩).1 =
        .ok ⟨.int 2, none⟩ ∧
    (((limited (2 ^ 54) (.int (2 ^ 54)) (.float (.finite false (2 ^ 1073)))).check itemSchema
      ⟨[.operation itemsQuery]⟩).exec ⟨.empty, #[]⟩).1 =
        .ok ⟨.int (2 ^ 54 + 1), some ⟨.cost (.int (2 ^ 54)) (.int (2 ^ 54 + 1)), ⟨1, 1⟩⟩⟩ ∧
    (((limited (2 ^ 54) (.int (2 ^ 54)) (.float (.finite false (2 ^ 1073)))).check itemSchema
      ⟨[.operation (itemsQuery.append (labelledItems "more" "m"))]⟩).exec ⟨.empty, #[]⟩).1 =
        .ok ⟨.float (.finite false (2 ^ 1128)), none⟩ :=
  ⟨itemSchema_declares (by decide), by decide +kernel, by decide +kernel, by decide +kernel,
    by decide +kernel⟩

end Rule

end QueryCost
