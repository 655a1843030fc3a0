import Mathlib.Algebra.BigOperators.Ring.List
import QueryCost.Proofs.Acceptance
import QueryCost.Proofs.RisingArithmetic
import QueryCost.Proofs.Turns
import QueryCost.Proofs.Variables

/-!
# Costs that follow an argument

The declared cost of a field is a sum with a product in it, and none of the numbers is negative. So it does
not fall when one of the arguments grows. There are two limits to this. An argument that changes from an
integer to a double, or back, may change what is rounded; this is harmless as long as all integers have doubles
of their own. And a declared cost that is no longer finite is no estimate: the field is then priced like one
without a declaration, which may well be less.
-/
namespace QueryCost

theorem except_map_success {α β : Type} {e : Except Fault α} {f : α → β} {b : β}
    (success : e.map f = .ok b) : ∃ a, e = .ok a ∧ b = f a := by
  cases e with
  | error fault => cases success
  | ok a => exact ⟨a, rfl, (Except.ok.inj success).symm⟩

/-- Bounds of two runs, side by side. -/
theorem both_le_trans {a b c a' b' c' : Nat} (first : a ≤ b ∧ a' ≤ b') (second : b ≤ c ∧ b' ≤ c') :
    a ≤ c ∧ a' ≤ c' :=
  ⟨Nat.le_trans first.1 second.1, Nat.le_trans first.2 second.2⟩

/-- What a value can contribute to a product of integers. -/
def Value.weight : Value → Nat
  | .num x => x.weight
  | _ => 1

theorem Value.isFinite_of_finite? {x : Number} (declined : (Value.num x).finite? = .ok none) :
    x.isFinite = .ok false := by
  rw [finite?] at declined
  obtain ⟨isFinite, asked, declined⟩ := except_bind_success declined
  cases isFinite with
  | false => exact asked
  | true => cases declined

/-- Below a finite number, numbers that are not negative are finite. -/
theorem Value.isFiniteNumber_of_le {a b : Number} (notNegative : a.NotNegative)
    (finite : (Value.num b).IsFiniteNumber) (le : a.le b = true) : (Value.num a).IsFiniteNumber := by
  obtain ⟨p, q, place, place', places⟩ := Number.le_iff_places.mp le
  have top : q ≠ .top := by
    rintro rfl
    cases b with
    | int n => cases place'
    | float y =>
      cases y with
      | finite t n => cases place'
      | _ => cases finite
  cases a with
  | int m => trivial
  | float x =>
    cases x with
    | finite s m => rfl
    | nan => cases place
    | infinite s =>
      rw [Number.notNegative_infinite.mp notNegative] at place
      cases place
      rcases places with below | rfl
      · cases q <;> cases below
      · exact absurd rfl top

theorem Value.one_le_weight (v : Value) : 1 ≤ v.weight := by
  cases v with
  | num x => exact x.one_le_weight
  | _ => exact Nat.le_refl 1

/-- The same value again, or a finite number that is not below the first one. It is an integer like the
first one, or not like it, unless kinds are `mixed`. -/
def Value.Raised (mixed : Prop) (v w : Value) : Prop :=
  (w = v ∧ v.Within Number.NotNegative) ∨
  ∃ x y, v = .num x ∧ w = .num y ∧ (Value.num x).IsFiniteNumber ∧ (Value.num y).IsFiniteNumber ∧
    x.NotNegative ∧ x.le y = true ∧ (mixed ∨ (x.IsInteger ↔ y.IsInteger))

/-- Both values count as numbers, or none does. -/
theorem Value.Raised.found {mixed : Prop} {v w : Value} {found found' : Option Number}
    (raised : v.Raised mixed w) (bound : mixed → v.weight ≤ 2 ^ 53 ∧ w.weight ≤ 2 ^ 53)
    (first : v.finite? = .ok found) (second : w.finite? = .ok found') :
    (found = none ∧ found' = none) ∨
    ∃ x y, found = some x ∧ found' = some y ∧ v = .num x ∧ w = .num y ∧ Number.NotAbove mixed x y := by
  have number : ∀ {x : Number} {found : Option Number}, (Value.num x).IsFiniteNumber →
      (Value.num x).finite? = .ok found → found = some x := by
    intro x found isFinite asked
    cases found with
    | none => exact absurd asked (finite?_ne_none isFinite)
    | some y =>
      obtain ⟨⟨⟩, -⟩ := finite?_eq_some asked
      rfl
  rcases raised with ⟨rfl, notNegative⟩ | ⟨x, y, rfl, rfl, isFinite, isFinite', notNegative, le, alike⟩
  · obtain rfl := Except.ok.inj (first.symm.trans second)
    cases found with
    | none => exact .inl ⟨rfl, rfl⟩
    | some x =>
      obtain ⟨rfl, -⟩ := finite?_eq_some first
      exact .inr ⟨x, x, rfl, rfl, rfl, rfl, .refl (notNegative x rfl) fun kinds => (bound kinds).1⟩
  · exact .inr ⟨x, y, number isFinite first, number isFinite' second, rfl, rfl,
      .of_le notNegative le alike bound⟩

namespace Site

variable {σ : Type} {site site' : Site} {child base : Number} {names : List String} {mixed : Prop}

/-- The most that the product of some arguments can be as an integer. -/
def weights (site : Site) (names : List String) : Nat :=
  (names.map fun name => (site.argument name).weight).prod

/-- Bounds the integers that are met when a cost is computed. Zeros count as ones: what is multiplied by zero
in the end has been computed before. -/
def reach (site : Site) (base child : Number) (names : List String) : Nat :=
  base.weight + site.weights names * child.weight

theorem weights_pos (site : Site) (names : List String) : 1 ≤ site.weights names := by
  refine Nat.one_le_iff_ne_zero.mpr (List.prod_ne_zero ?_)
  rw [List.mem_map]
  rintro ⟨name, -, zero⟩
  have one := (site.argument name).one_le_weight
  omega

theorem weights_cons (site : Site) (name : String) (names : List String) :
    site.weights (name :: names) = (site.argument name).weight * site.weights names := by
  simp [weights]

/-- One multiplier leads from a factor to the next: a finite number multiplies it, other values leave it. -/
def Leads (v : Value) (factor next : Number) : Prop :=
  ∃ found, v.finite? = .ok found ∧ found.elim (.ok factor) factor.mul = .ok next

/-- The first of several multipliers leads to the factor for the others. -/
theorem multiply_cons_success {name : String} {factor product : Number} {s after : Session σ}
    (success : (Estimate.multiply (site.call child) factor ((name :: names).map .str)).exec s =
      (.ok product, after)) :
    ∃ next between, Leads (site.argument name) factor next ∧
      (Estimate.multiply (site.call child) next (names.map .str)).exec between =
        (.ok product, after) := by
  have value : Estimate.multiplierValue (site.call child) (.str name) = site.argument name := rfl
  simp only [List.map_cons, Estimate.multiply, Value.isKey, value, Bool.not_true, Bool.false_eq_true,
    if_false] at success
  obtain ⟨found, _, asked, success⟩ := Run.exec_bind_success success
  obtain ⟨finite, rfl⟩ := Run.exec_ofExcept_success asked
  cases found with
  | none =>
    obtain ⟨_, between, -, success⟩ := Run.exec_bind_success success
    exact ⟨factor, between, ⟨none, finite, rfl⟩, success⟩
  | some x =>
    obtain ⟨next, between, multiplied, success⟩ := Run.exec_bind_success success
    obtain ⟨product, -⟩ := Run.exec_ofExcept_success multiplied
    exact ⟨next, between, ⟨some x, finite, product⟩, success⟩

/-- One multiplier: the factor stays not above the other one, and grows by no more than the argument. -/
theorem Leads.notAbove {v w : Value} {factor factor' next next' : Number}
    (leads : Leads v factor next) (leads' : Leads w factor' next')
    (start : Number.NotAbove mixed factor factor') (raised : v.Raised mixed w)
    (bound : mixed → factor.weight * v.weight ≤ 2 ^ 53 ∧ factor'.weight * w.weight ≤ 2 ^ 53) :
    Number.NotAbove mixed next next' ∧ (mixed →
      next.weight ≤ factor.weight * v.weight ∧ next'.weight ≤ factor'.weight * w.weight) := by
  obtain ⟨found, finite, multiplied⟩ := leads
  obtain ⟨found', finite', multiplied'⟩ := leads'
  have alone : mixed → v.weight ≤ 2 ^ 53 ∧ w.weight ≤ 2 ^ 53 := fun kinds =>
    both_le_trans ⟨Nat.le_mul_of_pos_left _ factor.one_le_weight,
      Nat.le_mul_of_pos_left _ factor'.one_le_weight⟩ (bound kinds)
  rcases raised.found alone finite finite' with ⟨rfl, rfl⟩ | ⟨x, y, rfl, rfl, rfl, rfl, above⟩
  · cases multiplied
    cases multiplied'
    refine ⟨start, fun _ => ⟨?_, ?_⟩⟩
    · exact Nat.le_mul_of_pos_right _ v.one_le_weight
    · exact Nat.le_mul_of_pos_right _ w.one_le_weight
  · have grown : mixed → next.weight ≤ factor.weight * x.weight ∧
        next'.weight ≤ factor'.weight * y.weight := fun kinds =>
      ⟨Number.weight_mul multiplied (start.small kinds).1 (above.small kinds).1,
        Number.weight_mul multiplied' (start.small kinds).2 (above.small kinds).2⟩
    refine ⟨?_, grown⟩
    exact Number.rises_mul.notAbove start above (Number.combined_of_mul multiplied)
      (Number.combined_of_mul multiplied') fun kinds => both_le_trans (grown kinds) (bound kinds)

/-- Products of arguments that are not below each other are not, either, and stay within the weights. -/
theorem multiply_notAbove {factor factor' product product' : Number} {s s' after after' : Session σ}
    (start : Number.NotAbove mixed factor factor')
    (raised : ∀ name ∈ names, (site.argument name).Raised mixed (site'.argument name))
    (bound : mixed → factor.weight * site.weights names ≤ 2 ^ 53 ∧
      factor'.weight * site'.weights names ≤ 2 ^ 53)
    (success : (Estimate.multiply (site.call child) factor (names.map .str)).exec s =
      (.ok product, after))
    (success' : (Estimate.multiply (site'.call child) factor' (names.map .str)).exec s' =
      (.ok product', after')) :
    Number.NotAbove mixed product product' ∧
      (mixed → product.weight ≤ factor.weight * site.weights names ∧
        product'.weight ≤ factor'.weight * site'.weights names) := by
  induction names generalizing factor factor' s s' with
  | nil =>
    cases success
    cases success'
    exact ⟨start, fun _ => by simp [weights]⟩
  | cons name others ih =>
    rw [List.forall_mem_cons] at raised
    simp only [weights_cons, ← Nat.mul_assoc] at bound ⊢
    obtain ⟨next, _, leads, success⟩ := multiply_cons_success success
    obtain ⟨next', _, leads', success'⟩ := multiply_cons_success success'
    have first := fun kinds => both_le_trans ⟨Nat.le_mul_of_pos_right _ (site.weights_pos others),
      Nat.le_mul_of_pos_right _ (site'.weights_pos others)⟩ (bound kinds)
    obtain ⟨step, grown⟩ := leads.notAbove leads' start raised.1 first
    have later : mixed → next.weight * site.weights others ≤
          factor.weight * (site.argument name).weight * site.weights others ∧
        next'.weight * site'.weights others ≤
          factor'.weight * (site'.argument name).weight * site'.weights others := fun kinds =>
      ⟨Nat.mul_le_mul_right _ (grown kinds).1, Nat.mul_le_mul_right _ (grown kinds).2⟩
    obtain ⟨above, within⟩ := ih step raised.2
      (fun kinds => both_le_trans (later kinds) (bound kinds)) success success'
    exact ⟨above, fun kinds => both_le_trans (within kinds) (later kinds)⟩

/-- A declared cost is the base plus the children times the product. -/
theorem declaration_success {s after : Session Memory} {reply : Reply}
    (declared : site.declaration? = .ok (some ⟨.num base, names.map .str⟩))
    (success : (Formula.declaration.estimate (site.call child)).exec s = (.ok reply, after)) :
    ∃ product scaled cost between, reply = (site.call child).reply (.num cost) ∧
      (Estimate.multiply (site.call child) (.int 1) (names.map .str)).exec s = (.ok product, between) ∧
      product.mul child = .ok scaled ∧ base.add scaled = .ok cost := by
  obtain ⟨d, _, looked, success⟩ := Run.exec_bind_success success
  obtain ⟨same, rfl⟩ := Run.exec_ofExcept_success looked
  obtain rfl : some ⟨.num base, names.map .str⟩ = d := Except.ok.inj (declared.symm.trans same)
  obtain ⟨answer, _, priced, ended⟩ := Run.exec_bind_success success
  obtain ⟨rfl, -⟩ := Run.exec_pure_success ended
  obtain ⟨product, between, multiplied, summed⟩ := Run.exec_bind_success priced
  obtain ⟨children, _, scaling, adding⟩ := Run.exec_bind_success summed
  obtain ⟨scaling, -⟩ := Run.exec_ofExcept_success scaling
  obtain ⟨adding, -⟩ := Run.exec_ofExcept_success adding
  obtain ⟨scaled, timesChild, rfl⟩ :=
    except_map_success ((Value.mul_num product child).symm.trans scaling)
  obtain ⟨cost, plusBase, rfl⟩ := except_map_success ((Value.add_num base scaled).symm.trans adding)
  exact ⟨product, scaled, cost, between, rfl, multiplied, timesChild, plusBase⟩

/-- The declared cost does not fall with an argument that is raised. -/
theorem declaration_notAbove {s s' after after' : Session Memory} {cost cost' : Number}
    (declared : site.declaration? = .ok (some ⟨.num base, names.map .str⟩))
    (declared' : site'.declaration? = .ok (some ⟨.num base, names.map .str⟩))
    (notNegative : base.NotNegative) (children : child.NotNegative)
    (raised : ∀ name ∈ names, (site.argument name).Raised mixed (site'.argument name))
    (bound : mixed → site.reach base child names ≤ 2 ^ 53 ∧ site'.reach base child names ≤ 2 ^ 53)
    (success : (Formula.declaration.estimate (site.call child)).exec s =
      (.ok ((site.call child).reply (.num cost)), after))
    (success' : (Formula.declaration.estimate (site'.call child)).exec s' =
      (.ok ((site'.call child).reply (.num cost')), after')) : Number.NotAbove mixed cost cost' := by
  obtain ⟨product, scaled, _, _, ⟨⟩, multiplied, scaling, adding⟩ := declaration_success declared success
  obtain ⟨product', scaled', _, _, ⟨⟩, multiplied', scaling', adding'⟩ :=
    declaration_success declared' success'
  have one : Number.NotAbove mixed (.int 1) (.int 1) :=
    .refl (Number.notNegative_int.mpr (by decide)) fun _ => by decide
  have plain : ∀ site : Site, (Number.int 1).weight * site.weights names = site.weights names :=
    fun site => Nat.one_mul _
  have parts : ∀ site : Site, site.reach base child names ≤ 2 ^ 53 → base.weight ≤ 2 ^ 53 ∧
      child.weight ≤ 2 ^ 53 ∧ site.weights names ≤ 2 ^ 53 ∧
      site.weights names * child.weight ≤ 2 ^ 53 := by
    intro site le
    have left := Nat.le_mul_of_pos_left child.weight (site.weights_pos names)
    have right := Nat.le_mul_of_pos_right (site.weights names) child.one_le_weight
    unfold reach at le
    omega
  obtain ⟨above, within⟩ := multiply_notAbove one raised
    (fun kinds => by
      rw [plain, plain]
      exact ⟨(parts site (bound kinds).1).2.2.1, (parts site' (bound kinds).2).2.2.1⟩)
    multiplied multiplied'
  have below : Number.NotAbove mixed child child :=
    .refl children fun kinds => (parts site (bound kinds).1).2.1
  have grown : mixed → scaled.weight ≤ site.weights names * child.weight ∧
      scaled'.weight ≤ site'.weights names * child.weight := by
    intro kinds
    have small := above.small kinds
    have weights := within kinds
    rw [plain, plain] at weights
    exact both_le_trans
      ⟨Number.weight_mul scaling small.1 (below.small kinds).1,
        Number.weight_mul scaling' small.2 (below.small kinds).2⟩
      ⟨Nat.mul_le_mul_right _ weights.1, Nat.mul_le_mul_right _ weights.2⟩
  have scaled_above : Number.NotAbove mixed scaled scaled' :=
    Number.rises_mul.notAbove above below (Number.combined_of_mul scaling)
      (Number.combined_of_mul scaling') fun kinds => both_le_trans (grown kinds)
        ⟨(parts site (bound kinds).1).2.2.2, (parts site' (bound kinds).2).2.2.2⟩
  refine Number.rises_add.notAbove (.refl notNegative fun kinds => (parts site (bound kinds).1).1)
    scaled_above (Number.combined_of_add adding) (Number.combined_of_add adding') fun kinds => ?_
  have sums : base.weight + scaled.weight ≤ site.reach base child names ∧
      base.weight + scaled'.weight ≤ site'.reach base child names :=
    ⟨Nat.add_le_add_left (grown kinds).1 _, Nat.add_le_add_left (grown kinds).2 _⟩
  exact both_le_trans ⟨Number.weight_add adding, Number.weight_add adding'⟩
    (both_le_trans sums (bound kinds))

/-- The default estimators settle on the declared cost if that is finite, and else on one more than the
children. -/
theorem answer_defaults_success {s after : Session Memory} {answered : Value}
    (declared : site.declaration? = .ok (some ⟨.num base, names.map .str⟩))
    (success : (answer (Formula.defaults.map Formula.estimate) (site.call child)).exec s =
      (.ok answered, after)) :
    ∃ cost between, (Formula.declaration.estimate (site.call child)).exec s =
        (.ok ((site.call child).reply (.num cost)), between) ∧
      ((cost.isFinite = .ok true ∧ answered = .num cost) ∨
        (cost.isFinite = .ok false ∧ ∃ sum, (Number.int 1).add child = .ok sum ∧ answered = .num sum)) := by
  obtain ⟨found, _, consulted, success⟩ := Run.exec_bind_success success
  rw [defaults_eq_ratedChain, ratedChain, consult] at consulted
  obtain ⟨value, between, estimated, consulted⟩ := Run.exec_bind_success consulted
  obtain ⟨-, -, cost, -, rfl, -⟩ := declaration_success declared estimated
  rw [Call.answer_reply, Call.args_reply, Call.withArgs_args] at consulted
  obtain ⟨number, _, asked, consulted⟩ := Run.exec_bind_success consulted
  obtain ⟨finite, -⟩ := Run.exec_ofExcept_success asked
  refine ⟨cost, between, estimated, ?_⟩
  cases number with
  | some x =>
    have outcome := (Value.num cost).finite?_outcome
    rw [finite] at outcome
    obtain ⟨⟨⟩, isFinite⟩ := outcome x rfl
    cases consulted
    cases success
    exact .inl ⟨isFinite, rfl⟩
  | none =>
    refine .inr ⟨Value.isFinite_of_finite? finite, ?_⟩
    -- The flat estimator and the fallback have the same sum to offer.
    have flat : consult [(Formula.flat (.int 1)).estimate] (site.call child) =
      consult [Estimate.flat (.int 1)] (site.call child) := rfl
    rw [flat] at consulted
    cases sum : (Number.int 1).add child with
    | error fault =>
      rw [exec_consult_flat_error sum] at consulted
      cases consulted
    | ok total =>
      refine ⟨total, rfl, ?_⟩
      rw [exec_consult_flat sum] at consulted
      have again := (Prod.mk.inj consulted).1
      cases found with
      | some x =>
        obtain ⟨⟨⟩, -⟩ := Value.finite?_eq_some again
        cases success
        rfl
      | none =>
        have fallback : (Value.int 1).add (site.call child).child = .ok (.num total) := by
          rw [show (Value.int 1).add (site.call child).child = _ from Value.add_num (.int 1) child, sum]
          rfl
        obtain ⟨same, -⟩ := Run.exec_ofExcept_success success
        exact Except.ok.inj (same.symm.trans fallback)

/-- Without an overflow there is an answer. -/
theorem answers_of_inRange {s : Session Memory}
    (declared : site.declaration? = .ok (some ⟨.num base, names.map .str⟩))
    (inRange : ((answer (Formula.defaults.map Formula.estimate) (site.call child)).exec s).1 ≠
      .error .overflow) : ∃ answered after,
      (answer (Formula.defaults.map Formula.estimate) (site.call child)).exec s = (.ok answered, after) := by
  have priced : (site.price (ratedChain 1) child).Ensures fun _ => True :=
    price_ratedChain_ensures Number.closed_all trivial
      (.inr ⟨base, names, declared, trivial, fun _ _ _ _ => trivial⟩) trivial
  have ensured : (answer (Formula.defaults.map Formula.estimate) (site.call child)).Ensures
      fun _ => True := by
    rw [answer_call]
    exact priced.bind fun _ _ => .pure trivial
  have outcome := ensured s
  rcases ended : (answer (Formula.defaults.map Formula.estimate) (site.call child)).exec s with
    ⟨fault | answered, after⟩
  · rw [ended] at outcome inRange
    exact absurd (congrArg Except.error outcome) inRange
  · exact ⟨answered, after, rfl⟩

/-- The field with another value for an argument. -/
def withArgument (site : Site) (key : String) (v : Value) : Site :=
  { site with args := Entries.insert site.args key v }

theorem argument_withArgument (site : Site) (key : String) (v : Value) (name : String) :
    (site.withArgument key v).argument name =
      if Estimate.multiplierKey site.field name = key then v else site.argument name := by
  unfold argument withArgument
  rw [Entries.get?_insert]
  split <;> rfl

theorem get?_of_argument {name : String} {x : Number} (number : site.argument name = .num x) :
    Entries.get? site.args (Estimate.multiplierKey site.field name) = some (.num x) := by
  unfold argument at number
  cases found : Entries.get? site.args (Estimate.multiplierKey site.field name) with
  | none =>
    rw [found] at number
    cases number
  | some v =>
    rw [found] at number
    exact congrArg some number

/-- With the default estimators, a field whose declared cost is not negative does not get cheaper if one of its
arguments grows and stays an integer or a double, or if all integers that are met have doubles of their own.
It may only happen that the declared cost is no longer finite; then the field costs one more than its
children. -/
theorem growing_argument_not_cheaper (site : Site) (base child a b : Number) (names : List String)
    (key : String) (declared : site.declaration? = .ok (some ⟨.num base, names.map .str⟩))
    (notNegative : base.NotNegative) (children : child.FromZero)
    (arguments : ∀ name x, Entries.get? site.args name = some (.num x) → x.NotNegative)
    (given : Entries.get? site.args key = some (.num a)) (finite : (Value.num b).IsFiniteNumber)
    (le : a.le b = true)
    (kinds : (a.IsInteger ↔ b.IsInteger) ∨ (site.reach base child names ≤ 2 ^ 53 ∧
      (site.withArgument key (.num b)).reach base child names ≤ 2 ^ 53))
    (s s' : Session Memory)
    (inRange : ((answer (Formula.defaults.map Formula.estimate) (site.call child)).exec s).1 ≠
      .error .overflow)
    (inRange' : ((answer (Formula.defaults.map Formula.estimate)
      ((site.withArgument key (.num b)).call child)).exec s').1 ≠ .error .overflow) :
    ∃ cost cost', ((answer (Formula.defaults.map Formula.estimate) (site.call child)).exec s).1 =
        .ok (.num cost) ∧
      ((answer (Formula.defaults.map Formula.estimate)
        ((site.withArgument key (.num b)).call child)).exec s').1 = .ok (.num cost') ∧
      (cost.le cost' = true ∨
        ∃ unbounded, cost.isFinite = .ok true ∧ unbounded.isFinite = .ok false ∧
          ((Formula.declaration.estimate (site.call child)).exec s).1 =
            .ok ((site.call child).reply (.num cost)) ∧
          ((Formula.declaration.estimate ((site.withArgument key (.num b)).call child)).exec s').1 =
            .ok (((site.withArgument key (.num b)).call child).reply (.num unbounded)) ∧
          (Number.int 1).add child = .ok cost') := by
  have raised : ∀ name ∈ names, (site.argument name).Raised (¬ (a.IsInteger ↔ b.IsInteger))
      ((site.withArgument key (.num b)).argument name) := by
    intro name _
    rw [argument_withArgument]
    split
    next same =>
      have here : site.argument name = .num a := by
        unfold argument
        rw [same, given]
        rfl
      have sign := arguments key a given
      exact .inr ⟨a, b, here, rfl, Value.isFiniteNumber_of_le sign finite le, finite, sign, le,
        Classical.or_iff_not_imp_left.mpr not_not.mp⟩
    next => exact .inl ⟨rfl, fun x number => arguments _ x (get?_of_argument number)⟩
  have declared' : (site.withArgument key (.num b)).declaration? = _ := declared
  obtain ⟨answered, _, success⟩ := answers_of_inRange declared inRange
  obtain ⟨answered', _, success'⟩ := answers_of_inRange declared' inRange'
  obtain ⟨cost, _, estimated, settled⟩ := answer_defaults_success declared success
  obtain ⟨cost', _, estimated', settled'⟩ := answer_defaults_success declared' success'
  have above := declaration_notAbove declared declared' notNegative children.1 raised
    (fun mixed => kinds.resolve_left mixed) estimated estimated'
  rw [success, success', estimated, estimated']
  rcases settled' with ⟨isFinite', rfl⟩ | ⟨infinite', sum', adding', rfl⟩
  · have isFinite := above.upTo.isFinite isFinite'
    rcases settled with ⟨-, rfl⟩ | ⟨infinite, -⟩
    · exact ⟨cost, cost', rfl, rfl, .inl (above.upTo.le isFinite')⟩
    · rw [isFinite] at infinite
      cases infinite
  · rcases settled with ⟨isFinite, rfl⟩ | ⟨-, sum, adding, rfl⟩
    · exact ⟨cost, sum', rfl, rfl, .inr ⟨cost', isFinite, infinite', rfl, rfl, adding'⟩⟩
    · obtain rfl := Except.ok.inj (adding.symm.trans adding')
      have fromZero := Number.sumClosed_fromZero.add Number.sumClosed_fromZero.one children
      rw [adding] at fromZero
      exact ⟨sum, sum, rfl, rfl, .inl (Number.le_refl fromZero.2)⟩

/-- Items with a declared cost and one argument. -/
def batch (base : Number) (names : List String) (limit : Number) : Site :=
  ⟨⟨"items", .named "Query", [⟨"limit", .named "Float", none, none⟩],
    some [("complexity", .declared (.num base) (names.map .str))], none, []⟩, "items",
    ⟨"Query", .object [] [], none⟩, [("limit", .num limit)]⟩

/-- The cost of a field by the default estimators. -/
def defaultCost (site : Site) (child : Number) : Option Number :=
  ((answer (Formula.defaults.map Formula.estimate) (site.call child)).exec ⟨.empty, #[]⟩).1.toOption.bind
    Value.number?

/-- An argument that counts twice grows from the integer 10 to the double 20.5. -/
theorem growing_argument_not_cheaper_squared : ∃ cost cost',
    defaultCost (batch (.int 1) ["limit", "limit"] (.int 10)) (.int 2) = some cost ∧
    defaultCost ((batch (.int 1) ["limit", "limit"] (.int 10)).withArgument "limit"
      (.num (.float (.finite false (41 * 2 ^ 1073))))) (.int 2) = some cost' ∧
    cost.le cost' = true := by
  have first : defaultCost (batch (.int 1) ["limit", "limit"] (.int 10)) (.int 2) =
      some (.int 201) := by
    decide +kernel
  have second : defaultCost ((batch (.int 1) ["limit", "limit"] (.int 10)).withArgument "limit"
      (.num (.float (.finite false (41 * 2 ^ 1073))))) (.int 2) =
        some (.float (.finite false (1683 * 2 ^ 1073))) := by
    decide +kernel
  have answered : ∀ {site : Site} {cost : Number}, defaultCost site (.int 2) = some cost →
      ((answer (Formula.defaults.map Formula.estimate) (site.call (.int 2))).exec ⟨.empty, #[]⟩).1 ≠
        .error .overflow := by
    intro site cost ends failed
    rw [defaultCost, failed] at ends
    cases ends
  have arguments : ∀ name x, Entries.get? [("limit", .num (.int 10))] name = some (.num x) →
      x.NotNegative := by
    intro name x found
    rw [Entries.get?_cons] at found
    split at found
    · cases found
      exact Number.notNegative_int.mpr (by decide)
    · cases found
  obtain ⟨cost, cost', ends, ends', outcome⟩ := growing_argument_not_cheaper
    (batch (.int 1) ["limit", "limit"] (.int 10)) (.int 1) (.int 2) (.int 10)
    (.float (.finite false (41 * 2 ^ 1073))) ["limit", "limit"] "limit" rfl
    (Number.notNegative_int.mpr (by decide))
    ⟨Number.notNegative_int.mpr (by decide), Number.not_isNaN_int 2⟩ arguments rfl rfl
    (by decide +kernel) (.inr (by decide +kernel)) ⟨.empty, #[]⟩ ⟨.empty, #[]⟩ (answered first)
    (answered second)
  refine ⟨cost, cost', by rw [defaultCost, ends]; rfl, by rw [defaultCost, ends']; rfl, ?_⟩
  rcases outcome with le | ⟨unbounded, -, -, -, -, sum⟩
  · exact le
  · rw [defaultCost, ends'] at second
    cases sum
    cases second

/-- Twice as many items cost three, and not a double near the largest one. And two items instead of one, but as
a double: now the declared cost, an integer of 54 places, is rounded down. -/
theorem growing_argument_cheaper :
    defaultCost (batch (.int 1) ["limit"] (.float (.finite false (2 ^ 2096)))) (.int 2) =
      some (.float (.finite false (2 ^ 2097))) ∧
    defaultCost (batch (.int 1) ["limit"] (.float (.finite false (2 ^ 2097)))) (.int 2) =
      some (.int 3) ∧
    (Number.int 3).lt (.float (.finite false (2 ^ 2097))) = true ∧
    defaultCost (batch (.int (2 ^ 53 + 1)) ["limit"] (.int 1)) (.int 0) = some (.int (2 ^ 53 + 1)) ∧
    defaultCost (batch (.int (2 ^ 53 + 1)) ["limit"] (.float (.finite false (2 ^ 1075)))) (.int 0) =
      some (.float (.finite false (2 ^ 1127))) ∧
    (Number.float (.finite false (2 ^ 1127))).lt (.int (2 ^ 53 + 1)) = true := by
  decide +kernel

end Site

end QueryCost
