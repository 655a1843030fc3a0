import Mathlib.Algebra.BigOperators.Group.List.Basic
import Mathlib.Tactic.Ring
import QueryCost.Estimate.Formula
import QueryCost.Visit.Price
import QueryCost.Proofs.Run

/-!
# The closed form of a score

Costs are computed from the bottom up: a declared field adds its base to the product of its multipliers
and the cost of its children. The closed form looks at the same visits from the top: every field counts
with its own base, times the multipliers of all the fields around it. Both agree as long as all numbers
are integers in the range of doubles. The proof goes through the visits with the fields around them as
a parameter (`sum_occurrencesAll`), since the product from above and the sum from below meet in between.
-/
namespace QueryCost

/-- Integers that fit into a double. -/
def Number.InRange (n : Int) : Prop := (int n).isFinite = .ok true

instance (n : Int) : Decidable (Number.InRange n) :=
  inferInstanceAs (Decidable ((Number.int n).isFinite = .ok true))

theorem Value.finite?_int {n : Int} (range : Number.InRange n) :
    (Value.num (.int n)).finite? = .ok (some (.int n)) := by
  unfold Number.InRange at range
  simp only [finite?, range]
  rfl

namespace Site

/-- What is declared for the field. -/
def declaration? (site : Site) : Except Fault (Option Declaration) :=
  Declaration.find? site.field (some site.parent) (some site.name)

/-- The value of an argument by the name that a declaration gives it. -/
def argument (site : Site) (name : String) : Value :=
  (Entries.get? site.args (Estimate.multiplierKey site.field name)).getD .null

/-- Of the named arguments, those that are numbers are integers in the range of doubles. -/
def IntegerArguments (site : Site) (names : List String) : Prop :=
  ∀ name ∈ names, ∀ x, site.argument name = .num x → ∃ n, x = .int n ∧ Number.InRange n

/-- No cost is declared, or an integer with the names of such arguments as multipliers. -/
def IsPlain (site : Site) : Prop :=
  site.declaration? = .ok none ∨
  ∃ (base : Int) (names : List String),
    site.declaration? = .ok (some ⟨.num (.int base), names.map .str⟩) ∧ site.IntegerArguments names

/-- The declared base, or `rate` without a declaration. -/
def own (rate : Int) (site : Site) : Int :=
  match site.declaration? with
  | .ok (some ⟨.num (.int base), _⟩) => base
  | _ => rate

/-- What one multiplier contributes: the argument if it is an integer, and one otherwise. -/
def multiplier (site : Site) : Value → Int
  | .str name => match site.argument name with
    | .num (.int n) => n
    | _ => 1
  | _ => 1

/-- The product of the multipliers; one without a declaration. -/
def factor (site : Site) : Int :=
  match site.declaration? with
  | .ok (some d) => (d.multipliers.map site.multiplier).prod
  | _ => 1

variable {site : Site}

theorem own_of_undeclared (rate : Int) (undeclared : site.declaration? = .ok none) :
    site.own rate = rate := by
  simp [own, undeclared]

theorem factor_of_undeclared (undeclared : site.declaration? = .ok none) : site.factor = 1 := by
  simp [factor, undeclared]

theorem own_of_declared (rate : Int) {base : Int} {multipliers : List Value}
    (declared : site.declaration? = .ok (some ⟨.num (.int base), multipliers⟩)) :
    site.own rate = base := by
  simp [own, declared]

theorem factor_of_declared {base : Value} {multipliers : List Value}
    (declared : site.declaration? = .ok (some ⟨base, multipliers⟩)) :
    site.factor = (multipliers.map site.multiplier).prod := by
  simp [factor, declared]

end Site

/-- A field as it is met below other fields; without a site if its type does not have it. -/
structure Occurrence where
  /-- The fields around it, from the inside to the outside. -/
  above : List Site
  site : Option Site

namespace Occurrence

/-- The cost of the field itself. -/
def own (rate : Int) (o : Occurrence) : Int :=
  match o.site with
  | some site => site.own rate
  | none => 1

/-- The cost of the field itself, as often as the fields around it ask for it. -/
def cost (rate : Int) (o : Occurrence) : Int :=
  o.own rate * (o.above.map Site.factor).prod

end Occurrence

namespace Visit

mutual

/-- The occurrences of fields at and below a visit. -/
def occurrences (above : List Site) : Visit → List Occurrence
  | .unresolved _ => [⟨above, none⟩]
  | .field _ site below => ⟨above, some site⟩ :: occurrencesAll (site :: above) below
  | .group _ below => occurrencesAll above below
  | _ => []

def occurrencesAll (above : List Site) : List Visit → List Occurrence
  | [] => []
  | v :: rest => occurrences above v ++ occurrencesAll above rest

end

mutual

/-- The fields that have a site, at and below a visit, with the visits below them. -/
def fields : Visit → List (Site × List Visit)
  | .field _ site below => (site, below) :: fieldsAll below
  | .group _ below => fieldsAll below
  | _ => []

def fieldsAll : List Visit → List (Site × List Visit)
  | [] => []
  | v :: rest => fields v ++ fieldsAll rest

end

/-- The sum over all occurrences of fields. -/
def closedForm (rate : Int) (visits : List Visit) : Int :=
  ((occurrencesAll [] visits).map (·.cost rate)).sum

section TopDown

variable (rate : Int)

@[simp] theorem closedForm_nil : closedForm rate [] = 0 := rfl

theorem closedForm_cons (v : Visit) (rest : List Visit) :
    closedForm rate (v :: rest) = closedForm rate [v] + closedForm rate rest := by
  simp [closedForm, occurrencesAll]

theorem closedForm_group (notices : List Notice) (below : List Visit) :
    closedForm rate [.group notices below] = closedForm rate below := by
  simp [closedForm, occurrencesAll, occurrences]

theorem closedForm_unresolved (notices : List Notice) :
    closedForm rate [.unresolved notices] = 1 := by
  simp [closedForm, occurrencesAll, occurrences, Occurrence.cost, Occurrence.own]

mutual

theorem sum_occurrences (above : List Site) : ∀ v : Visit,
    ((occurrences above v).map (·.cost rate)).sum =
      (above.map Site.factor).prod * ((occurrences [] v).map (·.cost rate)).sum
  | .excluded _ => by simp [occurrences]
  | .unresolved _ => by simp [occurrences, Occurrence.cost, Occurrence.own]
  | .unexpanded _ => by simp [occurrences]
  | .field _ site below => by
    have inner := sum_occurrencesAll (site :: above) below
    have outer := sum_occurrencesAll [site] below
    simp only [occurrences, List.map_cons, List.sum_cons, inner, outer]
    simp only [Occurrence.cost, Occurrence.own, List.map_nil, List.prod_nil, List.prod_cons]
    ring
  | .group _ below => by
    simp only [occurrences]
    exact sum_occurrencesAll above below

/-- Fields around all visits multiply the whole sum. -/
theorem sum_occurrencesAll (above : List Site) : ∀ visits : List Visit,
    ((occurrencesAll above visits).map (·.cost rate)).sum =
      (above.map Site.factor).prod * closedForm rate visits
  | [] => by simp [occurrencesAll]
  | v :: rest => by
    have first := sum_occurrences above v
    have others := sum_occurrencesAll above rest
    simp only [closedForm] at others ⊢
    simp only [occurrencesAll, List.map_append, List.sum_append, first, others, mul_add]

end

/-- The closed form from the bottom up: what is below a field counts as often as the field asks for it. -/
theorem closedForm_field (notices : List Notice) (site : Site) (below : List Visit) :
    closedForm rate [.field notices site below] =
      site.own rate + site.factor * closedForm rate below := by
  have inner := sum_occurrencesAll rate [site] below
  simp only [closedForm, occurrencesAll, occurrences, List.append_nil, List.map_cons, List.sum_cons]
  rw [inner]
  simp [Occurrence.cost, Occurrence.own, closedForm]

end TopDown

end Visit

/-- Declared costs, and a fixed rate for all other fields. -/
def ratedChain (rate : Int) : List (Estimate Memory) :=
  [Formula.declaration.estimate, (Formula.flat (.int rate)).estimate]

theorem defaults_eq_ratedChain : Formula.defaults.map Formula.estimate = ratedChain 1 := rfl

section Chain

variable {σ : Type} {estimate : Estimate σ} {rest : List (Estimate σ)} {call : Call}

theorem consult_of_int {n : Int} {args : Entries}
    (answers : (estimate call).Returns ⟨.num (.int n), args⟩)
    (range : Number.InRange n) : (consult (estimate :: rest) call).Returns (some (.int n)) := by
  unfold consult
  exact answers.bind (.bind (.ofExcept (Value.finite?_int range)) (.pure _))

theorem consult_of_null {cost : Option Number}
    (declines : (estimate call).Returns (call.reply .null))
    (others : (consult rest call).Returns cost) :
    (consult (estimate :: rest) call).Returns cost := by
  unfold consult
  exact declines.bind (.bind (.ofExcept rfl) others)

end Chain

namespace Site

variable {rate child : Int} {site : Site} {base : Int} {names : List String}

/-- The multipliers of a declaration are multiplied one after the other onto a factor. -/
theorem multiply_returns {σ : Type} (cost : Number) (numeric : site.IntegerArguments names)
    (start : Int) :
    (Estimate.multiply (site.call cost) (.int start) (names.map .str) : Run σ Number).Returns
      (.int (start * ((names.map .str).map site.multiplier).prod)) := by
  induction names generalizing start with
  | nil => simpa [Estimate.multiply] using Run.Returns.pure (σ := σ) (Number.int start)
  | cons name others ih =>
    have later := ih fun other member => numeric other (List.mem_cons_of_mem _ member)
    have value : Estimate.multiplierValue (site.call cost) (.str name) = site.argument name := rfl
    simp only [List.map_cons, Estimate.multiply, Value.isKey, value, List.prod_cons, Bool.not_true,
      Bool.false_eq_true, if_false]
    cases given : site.argument name with
    | num x =>
      obtain ⟨n, rfl, range⟩ := numeric name (by simp) x given
      have factor : site.multiplier (.str name) = n := by simp [multiplier, given]
      rw [factor, ← mul_assoc]
      exact .bind (.ofExcept (Value.finite?_int range)) (.bind (.ofExcept rfl) (later (start * n)))
    | _ =>
      have factor : site.multiplier (.str name) = 1 := by simp [multiplier, given]
      rw [factor, one_mul]
      exact .bind (.ofExcept rfl) (.bind (.note _) (later start))

theorem declaration_returns_null (undeclared : site.declaration? = .ok none) (cost : Number) :
    (Formula.declaration.estimate (site.call cost)).Returns ((site.call cost).reply .null) :=
  .bind (.ofExcept undeclared) (.pure _)

theorem declaration_returns
    (declared : site.declaration? = .ok (some ⟨.num (.int base), names.map .str⟩))
    (numeric : site.IntegerArguments names) :
    (Formula.declaration.estimate (site.call (.int child))).Returns ((site.call (.int child)).reply
      (.num (.int (base + ((names.map .str).map site.multiplier).prod * child)))) := by
  have product := multiply_returns (σ := Memory) (.int child) numeric 1
  rw [one_mul] at product
  have cost : (Estimate.plainCost (site.call (.int child)) ⟨.num (.int base), names.map .str⟩ :
      Run Memory Value).Returns _ := product.bind (.bind (.ofExcept rfl) (.ofExcept rfl))
  exact .bind (.ofExcept declared) (cost.bind (.pure _))

/-- A plain field costs its base, plus its children times its factor. -/
theorem price_returns (plain : site.IsPlain)
    (range : Number.InRange (site.own rate + site.factor * child)) :
    (site.price (ratedChain rate) (.int child)).Returns
      (.int (site.own rate + site.factor * child)) := by
  suffices answered : (consult (ratedChain rate) (site.call (.int child))).Returns
      (some (.int (site.own rate + site.factor * child))) from answered.bind (.pure _)
  obtain undeclared | ⟨base, names, declared, numeric⟩ := plain
  · rw [own_of_undeclared rate undeclared, factor_of_undeclared undeclared, one_mul] at range ⊢
    exact consult_of_null (declaration_returns_null undeclared _)
      (consult_of_int (.bind (.ofExcept rfl) (.pure _)) range)
  · rw [own_of_declared rate declared, factor_of_declared declared] at range ⊢
    exact consult_of_int (declaration_returns declared numeric) range

end Site

namespace Visit

/-- A plain field, with a cost that does not leave the range of doubles. -/
def Bounded (rate : Int) (f : Site × List Visit) : Prop :=
  f.1.IsPlain ∧ Number.InRange (f.1.own rate + f.1.factor * closedForm rate f.2)

variable {rate : Int}

mutual

/-- What a visit adds is its closed form, where nothing counts as zero. -/
theorem price_returns : ∀ v : Visit, (∀ f ∈ fields v, Bounded rate f) →
    ∃ added, (v.price (ratedChain rate)).Returns added ∧
      added.getD (.int 0) = .int (closedForm rate [v])
  | .excluded notices, _ => ⟨none, .bind (.noteAll notices) (.pure none), rfl⟩
  | .unexpanded notices, _ => ⟨none, .bind (.noteAll notices) (.pure none), rfl⟩
  | .unresolved notices, _ => by
    refine ⟨some (.int 1), .bind (.noteAll notices) (.pure _), ?_⟩
    rw [closedForm_unresolved]
    rfl
  | .field notices site below, bounded => by
    simp only [fields, List.forall_mem_cons] at bounded
    have children := priceAll_returns below bounded.2 0
    rw [zero_add] at children
    refine ⟨some _, .bind (.noteAll notices) (children.bind
      (.bind (Site.price_returns bounded.1.1 bounded.1.2) (.pure _))), ?_⟩
    rw [closedForm_field]
    rfl
  | .group notices below, bounded => by
    simp only [fields] at bounded
    have children := priceAll_returns below bounded 0
    rw [zero_add] at children
    refine ⟨some _, .bind (.noteAll notices) (children.bind (.pure _)), ?_⟩
    rw [closedForm_group]
    rfl

theorem priceAll_returns : ∀ visits : List Visit, (∀ f ∈ fieldsAll visits, Bounded rate f) →
    ∀ total : Int, (priceAll (ratedChain rate) (.int total) visits).Returns
      (.int (total + closedForm rate visits))
  | [], _, total => by
    simpa [priceAll] using Run.Returns.pure (σ := Memory) (Number.int total)
  | v :: rest, bounded, total => by
    simp only [fieldsAll, List.forall_mem_append] at bounded
    obtain ⟨added, first, sum⟩ := price_returns v bounded.1
    have others := priceAll_returns rest bounded.2
    rw [closedForm_cons, ← Int.add_assoc]
    unfold priceAll
    cases added with
    | none =>
      have nothing : closedForm rate [v] = 0 := (Number.int.inj sum).symm
      rw [nothing, Int.add_zero]
      exact first.bind (others total)
    | some cost =>
      obtain rfl : cost = .int (closedForm rate [v]) := sum
      exact first.bind (.bind (.ofExcept rfl) (others _))

end

mutual

theorem closedForm_one_undeclared (above : List Site) : ∀ v : Visit,
    (∀ f ∈ fields v, f.1.declaration? = .ok none) →
    closedForm 1 [v] = (occurrences above v).length
  | .excluded _, _ => rfl
  | .unexpanded _, _ => rfl
  | .unresolved notices, _ => closedForm_unresolved 1 notices
  | .field notices site below, undeclared => by
    simp only [fields, List.forall_mem_cons] at undeclared
    have inner := closedFormAll_one_undeclared (site :: above) below undeclared.2
    rw [closedForm_field, Site.own_of_undeclared 1 undeclared.1,
      Site.factor_of_undeclared undeclared.1, one_mul, inner]
    simp only [occurrences, List.length_cons]
    omega
  | .group notices below, undeclared => by
    simp only [fields] at undeclared
    rw [closedForm_group, closedFormAll_one_undeclared above below undeclared]
    simp only [occurrences]

/-- Without declarations every occurrence counts one, whatever is around it. -/
theorem closedFormAll_one_undeclared (above : List Site) : ∀ visits : List Visit,
    (∀ f ∈ fieldsAll visits, f.1.declaration? = .ok none) →
    closedForm 1 visits = (occurrencesAll above visits).length
  | [], _ => rfl
  | v :: rest, undeclared => by
    simp only [fieldsAll, List.forall_mem_append] at undeclared
    rw [closedForm_cons, closedForm_one_undeclared above v undeclared.1,
      closedFormAll_one_undeclared above rest undeclared.2]
    simp only [occurrencesAll, List.length_append]
    omega

end

end Visit

namespace Scope

open Visit (occurrencesAll fieldsAll nodesAll)

/-- The cost of selections, priced by declared costs and a fixed rate, is the sum over all occurrences of
fields of the own cost times the factors of all fields around it. At rate one and without declarations it
is the number of occurrences. -/
theorem score_returns_closedForm (scope : Scope) (rate : Int) (path : List String)
    (parent : Option TypeDef) (selections : List Selection)
    (bounded : ∀ f ∈ fieldsAll (scope.expand path parent selections), Visit.Bounded rate f) :
    (scope.score (ratedChain rate) path parent selections).Returns
      ⟨.int ((occurrencesAll [] (scope.expand path parent selections)).map fun o =>
          o.own rate * (o.above.map Site.factor).prod).sum,
        nodesAll (scope.expand path parent selections)⟩ ∧
    (rate = 1 → (∀ f ∈ fieldsAll (scope.expand path parent selections),
        f.1.declaration? = .ok none) →
      (scope.score (ratedChain rate) path parent selections).Returns
        ⟨.int (occurrencesAll [] (scope.expand path parent selections)).length,
          nodesAll (scope.expand path parent selections)⟩) := by
  have priced := Visit.priceAll_returns _ bounded 0
  rw [zero_add] at priced
  refine ⟨priced.bind (.pure _), ?_⟩
  rintro rfl undeclared
  rw [Visit.closedFormAll_one_undeclared [] _ undeclared] at priced
  exact priced.bind (.pure _)

/-- Items below items, with the number of them as an argument. -/
def listing : Scope :=
  ⟨⟨[⟨"T", .object [] [⟨"id", .named "Int", [], none, none, []⟩,
      ⟨"items", .named "T", [⟨"limit", .named "Int", none, none⟩],
        some [("complexity", .declared (.int 1) [.str "limit"])], none, []⟩], none⟩],
      none, none, none, []⟩,
    [⟨"F", "T", [], [.field ⟨none, "items", [("limit", .var "n")], []⟩
      [.field ⟨none, "id", [], []⟩ [], .field ⟨none, "missing", [], []⟩ []]]⟩],
    [("n", .int 10)]⟩

/-- Ten items, each with an id of cost two and ten items of its own, and in each of them a field that is
skipped with all below it; and at rate one a field with a definition and one without. -/
theorem score_returns_closedForm_nested :
    (listing.score (ratedChain 2) [] (listing.schema.type? "T")
      [.field ⟨none, "items", [("limit", .var "n")], []⟩
        [.field ⟨none, "id", [], []⟩ [], .spread "F" [],
          .field ⟨none, "items", [], [⟨"skip", [("if", .bool true)]⟩]⟩
            [.field ⟨none, "id", [], []⟩ []]]]).Returns ⟨.int 331, 7⟩ ∧
    (listing.score (ratedChain 1) [] (listing.schema.type? "T")
      [.field ⟨none, "id", [], []⟩ [], .field ⟨none, "missing", [], []⟩ []]).Returns
        ⟨.int 2, 2⟩ := by
  have ten : ∀ site : Site, site.argument "limit" = .num (.int 10) →
      site.IntegerArguments ["limit"] := by
    intro site limit name member x given
    rw [List.mem_singleton.mp member, limit] at given
    cases given
    exact ⟨10, rfl, by decide +kernel⟩
  constructor
  · refine (score_returns_closedForm listing 2 [] (listing.schema.type? "T") _ ?_).1
    refine List.forall_mem_cons.mpr ⟨⟨.inr ⟨1, ["limit"], rfl, ten _ rfl⟩, by decide +kernel⟩, ?_⟩
    refine List.forall_mem_cons.mpr ⟨⟨.inl rfl, by decide +kernel⟩, ?_⟩
    refine List.forall_mem_cons.mpr ⟨⟨.inr ⟨1, ["limit"], rfl, ten _ rfl⟩, by decide +kernel⟩, ?_⟩
    exact List.forall_mem_singleton.mpr ⟨.inl rfl, by decide +kernel⟩
  · refine (score_returns_closedForm listing 1 [] (listing.schema.type? "T") _ ?_).2 rfl ?_
    · exact List.forall_mem_singleton.mpr ⟨.inl rfl, by decide +kernel⟩
    · exact List.forall_mem_singleton.mpr rfl

end Scope

end QueryCost
