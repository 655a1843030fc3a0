import QueryCost.Proofs.MonotoneSums
import QueryCost.Proofs.Overflow

/-!
# What acceptance means

A document is reported if the cost of an operation is above the maximum, so it is accepted if no cost is. For
numbers that is to be at most the maximum, but a cost may be NaN, which is not above anything. Estimates are
finite, and yet sums of them can leave the range of doubles at both ends; where the two infinities meet, the
cost is no number, and the document is accepted with it. This needs doubles of both signs: costs that are
not negative stay numbers, and so do integers.
-/
namespace QueryCost

variable {σ : Type}

namespace Limits

theorem make_success {maximum nodes : Value} {estimators : Nat} {limits : Limits}
    (valid : make maximum estimators nodes = .ok limits) :
    readMaximum maximum = .ok limits.maximum ∧ readNodes nodes = .ok limits.nodes := by
  unfold make at valid
  obtain ⟨highest, read, valid⟩ := except_bind_success valid
  dsimp only at valid
  split at valid
  · cases valid
  · obtain ⟨most, counted, valid⟩ := except_bind_success valid
    cases valid
    exact ⟨read, counted⟩

/-- A maximum is a number above zero. -/
theorem readMaximum_positive {given : Value} {x : Number} (read : readMaximum given = .ok x) :
    (Number.int 0).lt x = true := by
  unfold readMaximum at read
  split at read
  · cases read
  · cases read
  · split at read
    next positive =>
      cases read
      exact positive
    next => cases read

theorem make_of_positive {x : Number} {estimators : Nat} {n : Int} (finite : x.isFinite = .ok true)
    (positive : (Number.int 0).lt x = true) (some : 0 < estimators) (count : 0 < n) :
    make (.num x) estimators (.num (.int n)) = .ok ⟨x, n.toNat⟩ := by
  simp only [make, readMaximum, readNodes, Value.finite?, finite, bind, Except.bind, pure, Except.pure,
    positive, if_true, if_neg some.ne', if_pos count]

/-- What the limits allow: not too many nodes, and a cost that is not above the maximum or that is NaN. -/
theorem not_exceeded_iff {limits : Limits} {score : Score} (number : ¬ limits.maximum.IsNaN) :
    ¬ limits.Exceeded score ↔
      score.nodes ≤ limits.nodes ∧ (score.cost.le limits.maximum = true ∨ score.cost.IsNaN) := by
  unfold Exceeded
  rw [not_or, Nat.not_lt, Bool.not_eq_true]
  refine and_congr_right fun _ => ⟨fun notAbove => ?_, ?_⟩
  · by_cases nan : score.cost.IsNaN
    · exact .inr nan
    · exact .inl (Number.le_of_not_lt number nan notAbove)
  · rintro (le | nan)
    · exact Number.not_lt_of_le le
    · exact Number.lt_of_isNaN_right nan

end Limits

namespace Binary64

theorem round_ne_nan (negative : Bool) (num den : Nat) : round negative num den ≠ nan := by
  rcases round_cases negative num den with ⟨ends, -⟩ | ⟨ends, -⟩ <;> simp [ends]

/-- Where two doubles that are numbers have no sum, they are infinities of different signs. -/
theorem add_eq_nan {x y : Binary64} (none : x.add y = nan) :
    x = nan ∨ y = nan ∨ ∃ s t, s ≠ t ∧ x = infinite s ∧ y = infinite t := by
  cases x with
  | nan => exact .inl rfl
  | infinite s =>
    cases y with
    | nan => exact .inr (.inl rfl)
    | infinite t =>
      refine .inr (.inr ⟨s, t, ?_, rfl, rfl⟩)
      rintro rfl
      simp [add] at none
    | finite t n => cases none
  | finite s m =>
    cases y with
    | nan => exact .inr (.inl rfl)
    | infinite t => cases none
    | finite t n =>
      rcases add_finite_cases s t m n with ⟨-, sum⟩ | ⟨-, -, sum⟩ | ⟨-, -, sum⟩ | ⟨-, -, sum⟩
      · exact absurd (sum.symm.trans none) (round_ne_nan _ _ _)
      · exact absurd (sum.symm.trans none) (by simp)
      · exact absurd (sum.symm.trans none) (round_ne_nan _ _ _)
      · exact absurd (sum.symm.trans none) (round_ne_nan _ _ _)

end Binary64

namespace Number

theorem isNaN_float {x : Binary64} : (float x).IsNaN ↔ x = .nan := by
  cases x <;> simp [IsNaN, position]

theorem not_isNaN_of_isFinite {x : Number} (finite : x.isFinite = .ok true) : ¬ x.IsNaN := by
  cases x with
  | int n => exact not_isNaN_int n
  | float x =>
    rw [isNaN_float]
    rintro rfl
    cases finite

/-- Zero, or a number above it. -/
def FromZero (x : Number) : Prop := x.NotNegative ∧ ¬ x.IsNaN

theorem fromZero_toBinary64 {a : Number} (fromZero : a.FromZero) :
    OverflowOr (fun x => (float x).FromZero) a.toBinary64 := by
  have sign := notNegative_toBinary64 fromZero.1
  cases a with
  | float x => exact fromZero
  | int n =>
    rw [toBinary64] at sign ⊢
    cases converted : Binary64.ofInt? n with
    | none => rfl
    | some x =>
      rw [converted] at sign
      refine ⟨sign, ?_⟩
      rw [isNaN_float, Binary64.ofInt?_eq_some converted]
      exact Binary64.round_ne_nan _ _ _

/-- Numbers from zero on stay numbers when they are added, since they have only one infinity. -/
theorem sumClosed_fromZero : SumClosed FromZero := by
  apply SumClosed.of_parts
  · exact ⟨notNegative_int.mpr (by decide), not_isNaN_int 0⟩
  · exact ⟨notNegative_int.mpr (by decide), not_isNaN_int 1⟩
  · intro m n left right
    have nonneg := Int.add_nonneg (notNegative_int.mp left.1) (notNegative_int.mp right.1)
    exact ⟨notNegative_int.mpr nonneg, not_isNaN_int _⟩
  · exact fromZero_toBinary64
  · intro x y left right
    refine ⟨notNegative_add left.1 right.1, ?_⟩
    rw [isNaN_float]
    intro none
    rcases Binary64.add_eq_nan none with rfl | rfl | ⟨s, t, differ, rfl, rfl⟩
    · exact left.2 rfl
    · exact right.2 rfl
    · rw [notNegative_infinite.mp left.1, notNegative_infinite.mp right.1] at differ
      exact differ rfl

end Number

/-- Above children in the set, the estimator answers with a number in the set or declines. -/
def Estimate.Keeps (N : Number → Prop) (estimate : Estimate σ) : Prop :=
  ∀ call x, call.child = .num x → N x →
    (estimate call).Ensures fun reply => reply.answer.FiniteWithin N

namespace Rule

variable {rule : Rule σ} {schema : Schema} {fragments : List Fragment}

/-- The costs of operations are in the set if sums and answers are. -/
theorem Priced.cost_within {N : Number → Prop} (closed : Number.SumClosed N)
    (keeps : ∀ estimate ∈ rule.chain, estimate.Keeps N) {op : Operation} {score : Score}
    (priced : rule.Priced schema fragments op score) : N score.cost := by
  obtain ⟨root, s, after, -, success⟩ := priced
  obtain ⟨cost, between, total, ended⟩ := Run.exec_bind_success success
  obtain ⟨rfl, -⟩ := Run.exec_pure_success ended
  have ensured : (Visit.priceAll rule.chain (.int 0)
      ((rule.scope schema fragments op).expand [] (some root) op.selections)).Ensures N := by
    refine Visit.priceAll_ensures closed _ ?_ closed.zero
    intro f _ child inside
    exact Site.price_ensures closed inside fun estimate member call given =>
      keeps estimate member call child given inside
  have outcome := ensured s
  rw [total] at outcome
  exact outcome

/-- A check that comes to an end has scored all operations with a root type, and reports nothing exactly
if each of them has no more nodes than allowed and a cost that is at most the maximum, or NaN. The cost
is a number, and so at most the maximum, if no estimator answers below zero unless its children are, or if
all estimators answer with integers above integers. -/
theorem accepted_iff_within_or_nan (rule : Rule σ) {maximum nodes : Value}
    (valid : Limits.make maximum rule.chain.length nodes = .ok rule.limits) (schema : Schema)
    (doc : Document) {s after : Session σ} {p : Progress}
    (ended : (rule.check schema doc).exec s = (.ok p, after)) :
    ∃ scored, (rule.scored schema doc.fragments doc.operations).exec s = (.ok scored, after) ∧
      scored.map (·.1) = doc.operations.filter (rule.hasRoot schema) ∧
      (∀ x ∈ scored, rule.Priced schema doc.fragments x.1 x.2) ∧
      (p.violation = none ↔ ∀ x ∈ scored, x.2.nodes ≤ rule.limits.nodes ∧
        (x.2.cost.le rule.limits.maximum = true ∨ x.2.cost.IsNaN)) ∧
      ((∀ estimate ∈ rule.chain, estimate.Keeps Number.FromZero) ∨
          (∀ estimate ∈ rule.chain, estimate.Keeps Number.IsInteger) →
        (p.violation = none ↔ ∀ x ∈ scored, x.2.nodes ≤ rule.limits.nodes ∧
          x.2.cost.le rule.limits.maximum = true)) := by
  have number : ¬ rule.limits.maximum.IsNaN :=
    Number.not_isNaN_of_lt (Limits.readMaximum_positive (Limits.make_success valid).1)
  obtain ⟨scored, priced, rfl⟩ := check_success ended
  obtain ⟨operations, prices⟩ := scored_success priced
  have decided : (Progress.start.recordAll rule.limits scored).violation = none ↔
      ∀ x ∈ scored, x.2.nodes ≤ rule.limits.nodes ∧
        (x.2.cost.le rule.limits.maximum = true ∨ x.2.cost.IsNaN) := by
    rw [Progress.recordAll_violation_eq_none_iff rfl]
    exact forall₂_congr fun x _ => Limits.not_exceeded_iff number
  refine ⟨scored, priced, operations, prices, decided, fun keeps => ?_⟩
  have numbers : ∀ x ∈ scored, ¬ x.2.cost.IsNaN := by
    intro x member
    rcases keeps with fromZero | integers
    · exact ((prices x member).cost_within Number.sumClosed_fromZero fromZero).2
    · obtain ⟨n, integer⟩ :=
        (prices x member).cost_within Number.closed_isInteger.toSumClosed integers
      rw [integer]
      exact Number.not_isNaN_int n
  rw [decided]
  refine forall₂_congr fun x member => and_congr_right fun _ => ?_
  exact or_iff_left (numbers x member)

/-- A query root with two fields. -/
def twoFields : Schema :=
  ⟨[⟨"Query", .object [] [⟨"a", .named "Int", [], none, none, []⟩,
    ⟨"b", .named "Int", [], none, none, []⟩], none⟩], some "Query", none, none, []⟩

/-- Each field twice, in a group of its own. -/
def bothTwice : Document :=
  ⟨[.operation ⟨.query, none, [], [],
    [.inline none [] [.field ⟨none, "a", [], []⟩ [], .field ⟨none, "a", [], []⟩ []],
      .inline none [] [.field ⟨none, "b", [], []⟩ [], .field ⟨none, "b", [], []⟩ []]], ⟨1, 1⟩⟩]⟩

/-- Every field costs the highest power of two that is a double, or the negative of it. -/
def extreme (negative : String → Bool) : Rule Unit :=
  ⟨[.reading fun call => return .num (.float (.finite (negative call.name) (2 ^ 2097)))], ⟨.int 1000, 10⟩,
    none, []⟩

/-- Without a negative cost the infinite sum is reported. -/
theorem accepted_iff_within_or_nan_extreme :
    ∃ p after, ((extreme fun _ => false).check twoFields bothTwice).exec ⟨(), #[]⟩ =
      (.ok p, after) ∧ p.violation ≠ none := by
  have valid : Limits.make (.int 1000) 1 (.int 10) = .ok ⟨.int 1000, 10⟩ :=
    Limits.make_of_positive (by decide +kernel) (by decide +kernel) (by decide) (by decide)
  have keeps : ∀ estimate ∈ (extreme fun _ => false).chain, estimate.Keeps Number.FromZero := by
    refine List.forall_mem_singleton.mpr fun call x _ _ => .pure ?_
    rintro y ⟨⟩ finite
    exact ⟨Number.notNegative_finite.mpr (.inl rfl), Number.not_isNaN_of_isFinite finite⟩
  have costs : (((extreme fun _ => false).scored twoFields bothTwice.fragments
      bothTwice.operations).exec ⟨(), #[]⟩).1.map (·.map (·.2)) =
        .ok [⟨.float (.infinite false), 6⟩] := by decide +kernel
  rcases priced : ((extreme fun _ => false).scored twoFields bothTwice.fragments
      bothTwice.operations).exec ⟨(), #[]⟩ with ⟨fault | scored, after⟩
  · rw [priced] at costs
    cases costs
  rw [priced] at costs
  obtain ⟨same, again, -, -, -, decided⟩ :=
    accepted_iff_within_or_nan (extreme fun _ => false) valid twoFields _ (check_of_scored priced)
  rw [priced] at again
  cases again
  refine ⟨_, after, check_of_scored priced, fun silent => ?_⟩
  have scores : scored.map (·.2) = [⟨.float (.infinite false), 6⟩] := Except.ok.inj costs
  have member : (⟨.float (.infinite false), 6⟩ : Score) ∈ scored.map (·.2) :=
    scores ▸ List.mem_singleton_self _
  obtain ⟨x, member, score⟩ := List.mem_map.mp member
  have within := ((decided (.inl keeps)).mp silent x member).2
  rw [score] at within
  revert within
  decide +kernel

/-- The sums of both groups leave the range, at different ends, and what they add up to is accepted. -/
theorem opposite_infinities_accepted :
    (((extreme (· == "b")).scored twoFields bothTwice.fragments bothTwice.operations).exec
      ⟨(), #[]⟩).1.map (·.map (·.2)) = .ok [⟨.float .nan, 6⟩] ∧
    (((extreme (· == "b")).check twoFields bothTwice).exec ⟨(), #[]⟩).1 = .ok ⟨.int 0, none⟩ := by
  constructor <;> decide +kernel

end Rule

end QueryCost
