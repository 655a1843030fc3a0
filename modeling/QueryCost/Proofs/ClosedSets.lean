import QueryCost.Proofs.ClosedForm

/-!
# Sets of numbers that prices stay in

Pricing only adds and multiplies. If a set of numbers is closed under both, and the declared costs and
the arguments that multiply them are in it, then so is every price. Arithmetic has one way to fail: an
integer outside the range of doubles meets floating arithmetic. So `OverflowOr` and `Run.Ensures` speak
of results that have a property or are not there because of an overflow.
-/
namespace QueryCost

variable {σ α β : Type}

/-- A result with a property, or an overflow. -/
def OverflowOr (P : α → Prop) : Except Fault α → Prop
  | .ok a => P a
  | .error fault => fault = .overflow

namespace OverflowOr

variable {P : α → Prop} {Q : β → Prop}

theorem bind {e : Except Fault α} {f : α → Except Fault β} (first : OverflowOr P e)
    (rest : ∀ a, P a → OverflowOr Q (f a)) : OverflowOr Q (e >>= f) := by
  cases e with
  | error fault => exact first
  | ok a => exact rest a first

theorem mono {P' : α → Prop} {e : Except Fault α} (outcome : OverflowOr P e)
    (weaker : ∀ a, P a → P' a) : OverflowOr P' e := by
  cases e with
  | error fault => exact outcome
  | ok a => exact weaker a outcome

end OverflowOr

/-- From every session the run ends with a result that has a property, or with an overflow. -/
def Run.Ensures (run : Run σ α) (P : α → Prop) : Prop :=
  ∀ s, OverflowOr P (run.exec s).1

namespace Run.Ensures

variable {P : α → Prop} {Q : β → Prop}

theorem pure {a : α} (holds : P a) : (Pure.pure a : Run σ α).Ensures P := fun _ => holds

theorem ofExcept {e : Except Fault α} (outcome : OverflowOr P e) :
    (Run.ofExcept e : Run σ α).Ensures P := by
  intro s
  rw [exec_ofExcept]
  exact outcome

theorem returns {run : Run σ α} {a : α} (returned : run.Returns a) (holds : P a) :
    run.Ensures P := by
  intro s
  obtain ⟨after, ok⟩ := returned s
  rw [ok]
  exact holds

theorem note (notice : Notice) : (Run.note notice : Run σ Unit).Ensures fun _ => True :=
  returns (.note notice) trivial

theorem noteAll (notices : List Notice) : (Run.noteAll notices : Run σ Unit).Ensures fun _ => True :=
  returns (.noteAll notices) trivial

theorem bind {x : Run σ α} {f : α → Run σ β} (first : x.Ensures P)
    (rest : ∀ a, P a → (f a).Ensures Q) : (x >>= f).Ensures Q := by
  intro s
  have outcome := first s
  rw [exec_bind]
  rcases ended : x.exec s with ⟨fault | a, after⟩
  · rw [ended] at outcome
    exact outcome
  · rw [ended] at outcome
    exact rest a outcome after

theorem mono {P' : α → Prop} {run : Run σ α} (ensured : run.Ensures P) (weaker : ∀ a, P a → P' a) :
    run.Ensures P' :=
  fun s => (ensured s).mono weaker

end Run.Ensures

namespace Number

/-- Sums of such numbers are such numbers again. -/
structure SumClosed (N : Number → Prop) : Prop where
  zero : N (int 0)
  one : N (int 1)
  add : ∀ {a b}, N a → N b → OverflowOr N (a.add b)

/-- So are products. -/
structure Closed (N : Number → Prop) : Prop extends SumClosed N where
  mul : ∀ {a b}, N a → N b → OverflowOr N (a.mul b)

theorem toBinary64_outcome (a : Number) : OverflowOr (fun _ => True) a.toBinary64 := by
  cases a with
  | float x => trivial
  | int n =>
    rw [toBinary64]
    cases Binary64.ofInt? n with
    | none => rfl
    | some x => trivial

theorem isFinite_outcome (a : Number) : OverflowOr (fun _ => True) a.isFinite := by
  cases a with
  | float x => trivial
  | int n =>
    rw [isFinite]
    cases Binary64.ofInt? n with
    | none => rfl
    | some x => trivial

theorem add_of_mixed {a b : Number} (mixed : ∀ m n, a = int m → b = int n → False) :
    a.add b = (do return float ((← a.toBinary64).add (← b.toBinary64))) := by
  rw [add]
  exact mixed

theorem mul_of_mixed {a b : Number} (mixed : ∀ m n, a = int m → b = int n → False) :
    a.mul b = (do return float ((← a.toBinary64).mul (← b.toBinary64))) := by
  rw [mul]
  exact mixed

section Parts

variable {N : Number → Prop} {f : Binary64 → Binary64 → Binary64}

theorem converted_outcome (convert : ∀ {a}, N a → OverflowOr (fun x => N (float x)) a.toBinary64)
    (kept : ∀ {x y}, N (float x) → N (float y) → N (float (f x y))) {a b : Number} (left : N a)
    (right : N b) : OverflowOr N (do return float (f (← a.toBinary64) (← b.toBinary64))) :=
  (convert left).bind fun _ hx => (convert right).bind fun _ hy => kept hx hy

/-- A set is closed if its integers are, and its doubles, and what its integers become as doubles. -/
theorem SumClosed.of_parts (zero : N (int 0)) (one : N (int 1))
    (intAdd : ∀ {m n}, N (int m) → N (int n) → N (int (m + n)))
    (convert : ∀ {a}, N a → OverflowOr (fun x => N (float x)) a.toBinary64)
    (floatAdd : ∀ {x y}, N (float x) → N (float y) → N (float (x.add y))) : SumClosed N := by
  refine ⟨zero, one, ?_⟩
  intro a b left right
  by_cases mixed : ∀ m n, a = int m → b = int n → False
  · rw [add_of_mixed mixed]
    exact converted_outcome convert floatAdd left right
  · push Not at mixed
    obtain ⟨m, n, rfl, rfl, -⟩ := mixed
    exact intAdd left right

theorem Closed.of_parts (zero : N (int 0)) (one : N (int 1))
    (intAdd : ∀ {m n}, N (int m) → N (int n) → N (int (m + n)))
    (intMul : ∀ {m n}, N (int m) → N (int n) → N (int (m * n)))
    (convert : ∀ {a}, N a → OverflowOr (fun x => N (float x)) a.toBinary64)
    (floatAdd : ∀ {x y}, N (float x) → N (float y) → N (float (x.add y)))
    (floatMul : ∀ {x y}, N (float x) → N (float y) → N (float (x.mul y))) : Closed N := by
  refine ⟨.of_parts zero one intAdd convert floatAdd, ?_⟩
  intro a b left right
  by_cases mixed : ∀ m n, a = int m → b = int n → False
  · rw [mul_of_mixed mixed]
    exact converted_outcome convert floatMul left right
  · push Not at mixed
    obtain ⟨m, n, rfl, rfl, -⟩ := mixed
    exact intMul left right

end Parts

theorem closed_all : Closed fun _ => True :=
  .of_parts trivial trivial (fun _ _ => trivial) (fun _ _ => trivial)
    (fun {a} _ => toBinary64_outcome a) (fun _ _ => trivial) (fun _ _ => trivial)

/-- The number is an integer. -/
def IsInteger (x : Number) : Prop := ∃ n, x = int n

theorem closed_isInteger : Closed IsInteger := by
  refine ⟨⟨⟨0, rfl⟩, ⟨1, rfl⟩, ?_⟩, ?_⟩
  · rintro a b ⟨m, rfl⟩ ⟨n, rfl⟩
    exact ⟨m + n, rfl⟩
  · rintro a b ⟨m, rfl⟩ ⟨n, rfl⟩
    exact ⟨m * n, rfl⟩

end Number

namespace Value

/-- The value is in the set if it is a number. -/
def Within (N : Number → Prop) (v : Value) : Prop := ∀ x, v = .num x → N x

variable {N : Number → Prop}

theorem within_num {x : Number} (inside : N x) : Within N (.num x) := by
  rintro y ⟨⟩
  exact inside

theorem add_outcome (closed : Number.Closed N) {x y : Number} (left : N x) (right : N y) :
    OverflowOr (fun v => ∃ z, v = .num z ∧ N z) ((Value.num x).add (.num y)) :=
  (closed.add left right).bind fun z inside => ⟨z, rfl, inside⟩

theorem mul_outcome (closed : Number.Closed N) {x y : Number} (left : N x) (right : N y) :
    OverflowOr (fun v => ∃ z, v = .num z ∧ N z) ((Value.num x).mul (.num y)) :=
  (closed.mul left right).bind fun z inside => ⟨z, rfl, inside⟩

/-- The finite number of a value, if there is one, is the value. -/
theorem finite?_outcome (v : Value) :
    OverflowOr (fun found => ∀ x, found = some x → v = .num x ∧ x.isFinite = .ok true) v.finite? := by
  cases v with
  | num x =>
    have asked := x.isFinite_outcome
    rw [finite?]
    cases answer : x.isFinite with
    | error fault =>
      rw [answer] at asked
      exact asked
    | ok finite =>
      intro y found
      cases finite with
      | false => cases found
      | true =>
        cases found
        exact ⟨rfl, answer⟩
  | _ =>
    rintro x ⟨⟩

end Value

section Chain

variable {N : Number → Prop} {chain : List (Estimate σ)}

/-- The value is in the set if it counts as an answer. -/
def Value.FiniteWithin (N : Number → Prop) : Value → Prop :=
  Value.Within fun x => x.isFinite = .ok true → N x

/-- What a chain decides on is the answer of one of its estimators. `I` is what all of them keep true of
the arguments that they share. -/
theorem consult_ensures {I : Entries → Prop} {call : Call} (start : I call.args)
    (answers : ∀ estimate ∈ chain, ∀ args, I args → (estimate (call.withArgs args)).Ensures fun reply =>
      reply.answer.FiniteWithin N ∧ I reply.args) :
    (consult chain call).Ensures fun found => ∀ x, found = some x → N x := by
  induction chain generalizing call with
  | nil => exact .pure (by simp)
  | cons estimate rest ih =>
    rw [List.forall_mem_cons] at answers
    unfold consult
    refine (answers.1 call.args start).bind fun reply inside => ?_
    refine (Run.Ensures.ofExcept reply.answer.finite?_outcome).bind fun found number => ?_
    cases found with
    | none => exact ih inside.2 answers.2
    | some cost =>
      apply Run.Ensures.pure
      rintro x ⟨⟩
      obtain ⟨same, finite⟩ := number cost rfl
      exact inside.1 cost same finite

/-- If all estimators decline, a field costs one more than its children. -/
theorem Site.price_ensures_of_consult (closed : Number.SumClosed N) {site : Site} {child : Number}
    (inside : N child)
    (decided : (consult chain (site.call child)).Ensures fun found => ∀ x, found = some x → N x) :
    (site.price chain child).Ensures N := by
  refine decided.bind fun found decided => ?_
  cases found with
  | none => exact .ofExcept (closed.add closed.one inside)
  | some cost => exact .pure (decided cost rfl)

theorem Site.price_ensures (closed : Number.SumClosed N) {site : Site} {child : Number}
    (inside : N child)
    (answers : ∀ estimate ∈ chain, ∀ call : Call, call.child = .num child →
      (estimate call).Ensures fun reply => reply.answer.FiniteWithin N) :
    (site.price chain child).Ensures N :=
  price_ensures_of_consult closed inside <| consult_ensures (I := fun _ => True) trivial
    fun estimate member _ _ => (answers estimate member _ rfl).mono fun _ within => ⟨within, trivial⟩

namespace Visit

mutual

theorem price_ensures (closed : Number.SumClosed N) : ∀ v : Visit,
    (∀ f ∈ fields v, ∀ child, N child → (f.1.price chain child).Ensures N) →
    (v.price chain).Ensures fun added => ∀ cost, added = some cost → N cost
  | .excluded notices, _ => by
    unfold price
    exact .bind (.noteAll notices) fun _ _ => .pure (by simp)
  | .unexpanded notices, _ => by
    unfold price
    exact .bind (.noteAll notices) fun _ _ => .pure (by simp)
  | .unresolved notices, _ => by
    unfold price
    refine .bind (.noteAll notices) fun _ _ => .pure ?_
    rintro cost ⟨⟩
    exact closed.one
  | .field notices site below, sites => by
    simp only [fields, List.forall_mem_cons] at sites
    unfold price
    refine .bind (.noteAll notices) fun _ _ => ?_
    refine .bind (priceAll_ensures closed below sites.2 closed.zero) fun child inside => ?_
    refine .bind (sites.1 child inside) fun cost holds => .pure ?_
    rintro x ⟨⟩
    exact holds
  | .group notices below, sites => by
    simp only [fields] at sites
    unfold price
    refine .bind (.noteAll notices) fun _ _ => ?_
    refine .bind (priceAll_ensures closed below sites closed.zero) fun cost holds => .pure ?_
    rintro x ⟨⟩
    exact holds

/-- Totals stay in a closed set if the price of every field does. -/
theorem priceAll_ensures (closed : Number.SumClosed N) : ∀ visits : List Visit,
    (∀ f ∈ fieldsAll visits, ∀ child, N child → (f.1.price chain child).Ensures N) →
    ∀ {total}, N total → (priceAll chain total visits).Ensures N
  | [], _, total, inside => by
    unfold priceAll
    exact .pure inside
  | v :: rest, sites, total, inside => by
    simp only [fieldsAll, List.forall_mem_append] at sites
    unfold priceAll
    refine .bind (price_ensures closed v sites.1) fun added holds => ?_
    cases added with
    | none => exact priceAll_ensures closed rest sites.2 inside
    | some cost =>
      refine .bind (.ofExcept (closed.add inside (holds cost rfl))) fun total inside => ?_
      exact priceAll_ensures closed rest sites.2 inside

end

end Visit

end Chain

namespace Site

/-- A cost is not declared, or as a number in the set with the names of arguments that are in the set as
far as they are numbers. -/
def DeclaresWithin (N : Number → Prop) (site : Site) : Prop :=
  site.declaration? = .ok none ∨
  ∃ (base : Number) (names : List String),
    site.declaration? = .ok (some ⟨.num base, names.map .str⟩) ∧ N base ∧
      ∀ name ∈ names, (site.argument name).Within N

variable {N : Number → Prop} {site : Site} {child : Number}

theorem multiply_ensures (closed : Number.Closed N) {names : List String}
    (arguments : ∀ name ∈ names, (site.argument name).Within N) {factor : Number}
    (inside : N factor) :
    (Estimate.multiply (site.call child) factor (names.map .str) : Run σ Number).Ensures N := by
  induction names generalizing factor with
  | nil => exact .pure inside
  | cons name others ih =>
    rw [List.forall_mem_cons] at arguments
    have value : Estimate.multiplierValue (site.call child) (.str name) = site.argument name := rfl
    simp only [List.map_cons, Estimate.multiply, Value.isKey, value, Bool.not_true,
      Bool.false_eq_true, if_false]
    refine .bind (.ofExcept (site.argument name).finite?_outcome) fun found number => ?_
    cases found with
    | none => exact .bind (.note _) fun _ _ => ih arguments.2 inside
    | some x =>
      have argument : N x := arguments.1 x (number x rfl).1
      exact .bind (.ofExcept (closed.mul inside argument)) fun factor inside => ih arguments.2 inside

theorem declaration_ensures (closed : Number.Closed N) (declares : site.DeclaresWithin N)
    (inside : N child) :
    (Formula.declaration.estimate (site.call child)).Ensures fun reply =>
      reply.answer.Within N ∧ reply.args = site.args := by
  obtain undeclared | ⟨base, names, declared, number, arguments⟩ := declares
  · exact .returns (declaration_returns_null undeclared child) ⟨by rintro x ⟨⟩, rfl⟩
  · have found : Declaration.find? (site.call child).field (some (site.call child).parent)
        (some (site.call child).name) = .ok (some ⟨.num base, names.map .str⟩) := declared
    refine .bind (.returns (.ofExcept found) rfl) ?_
    rintro d rfl
    suffices cost : (Estimate.plainCost (site.call child) ⟨.num base, names.map .str⟩).Ensures
        (Value.Within N) from cost.bind fun v within => .pure ⟨within, rfl⟩
    refine .bind (multiply_ensures closed arguments closed.one) fun factor holds => ?_
    refine .bind (.ofExcept (Value.mul_outcome closed holds inside)) ?_
    rintro product ⟨z, rfl, holds⟩
    refine .ofExcept ((Value.add_outcome closed number holds).mono ?_)
    rintro v ⟨cost, rfl, holds⟩
    exact Value.within_num holds

/-- Declared costs with a fixed rate for all other fields. -/
theorem price_ratedChain_ensures (closed : Number.Closed N) {rate : Int} (flat : N (.int rate))
    (declares : site.DeclaresWithin N) (inside : N child) :
    (site.price (ratedChain rate) child).Ensures N := by
  have counted : ∀ v : Value, v.Within N → v.FiniteWithin N := fun _ within x same _ => within x same
  refine price_ensures_of_consult closed.toSumClosed inside
    (consult_ensures (I := (· = site.args)) rfl ?_)
  rw [ratedChain, List.forall_mem_cons, List.forall_mem_singleton]
  constructor
  · rintro args rfl
    exact (declaration_ensures closed declares inside).mono fun reply within =>
      ⟨counted _ within.1, within.2⟩
  · rintro args rfl
    refine .bind (.ofExcept (Value.add_outcome closed flat inside)) ?_
    rintro v ⟨cost, rfl, holds⟩
    exact .pure ⟨counted _ (Value.within_num holds), rfl⟩

end Site

end QueryCost
