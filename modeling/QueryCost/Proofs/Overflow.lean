import QueryCost.Proofs.SchemaSites
import QueryCost.Proofs.Verdict

/-!
# Verdicts and overflows

Costs are integers of any size, but an estimate counts only if it is finite, and this question is asked
of a double. So a cost beyond the range of doubles is not reported as too high: it ends the check with an
overflow. With declared integers there is no other fault, and the cost of every field that is met decides
whether it arises.
-/
namespace QueryCost

variable {σ : Type}

theorem Number.inRange_of_isFinite {n : Int} {finite : Bool}
    (answered : (Number.int n).isFinite = .ok finite) : Number.InRange n := by
  unfold InRange
  rw [isFinite] at answered ⊢
  revert answered
  cases Binary64.ofInt? n with
  | none => rintro ⟨⟩
  | some x =>
    intro _
    rfl

/-- Only integers in the range of doubles can be asked whether they are finite. -/
theorem Value.inRange_of_finite? {n : Int} {found : Option Number}
    (answered : (Value.num (.int n)).finite? = .ok found) : Number.InRange n := by
  rw [finite?] at answered
  cases finite : (Number.int n).isFinite with
  | error fault =>
    rw [finite] at answered
    cases answered
  | ok b => exact Number.inRange_of_isFinite finite

/-- A chain that comes to an end has asked its first estimator, and the others only without a finite
answer. -/
theorem consult_success {estimate : Estimate σ} {rest : List (Estimate σ)} {call : Call}
    {s after : Session σ} {found : Option Number}
    (success : (consult (estimate :: rest) call).exec s = (.ok found, after)) :
    ∃ reply between number, (estimate call).exec s = (.ok reply, between) ∧
      reply.answer.finite? = .ok number ∧
      (number = none →
        (consult rest (call.withArgs reply.args)).exec between = (.ok found, after)) := by
  unfold consult at success
  obtain ⟨reply, between, estimated, success⟩ := Run.exec_bind_success success
  obtain ⟨number, _, asked, success⟩ := Run.exec_bind_success success
  obtain ⟨finite, rfl⟩ := Run.exec_ofExcept_success asked
  refine ⟨reply, _, number, estimated, finite, ?_⟩
  rintro rfl
  exact success

namespace Site

variable {site : Site} {allowed : Int → Prop} {rate child : Int} {s after : Session σ}

/-- Multiplying integers succeeds only with arguments in the range of doubles. -/
theorem integerArguments_of_multiply {cost product : Number} {names : List String} {start : Int}
    (integer : ∀ name ∈ names, (site.argument name).Within Number.IsInteger)
    (success : (Estimate.multiply (site.call cost) (.int start) (names.map .str)).exec s =
      (.ok product, after)) : site.IntegerArguments names := by
  induction names generalizing start s with
  | nil => exact List.forall_mem_nil _
  | cons name others ih =>
    rw [List.forall_mem_cons] at integer
    have value : Estimate.multiplierValue (site.call cost) (.str name) = site.argument name := rfl
    simp only [List.map_cons, Estimate.multiply, Value.isKey, value, Bool.not_true,
      Bool.false_eq_true, if_false] at success
    obtain ⟨found, _, asked, success⟩ := Run.exec_bind_success success
    obtain ⟨finite, rfl⟩ := Run.exec_ofExcept_success asked
    refine List.forall_mem_cons.mpr ?_
    cases given : site.argument name with
    | num x =>
      obtain ⟨n, rfl⟩ := integer.1 x given
      rw [given] at finite
      have range := Value.inRange_of_finite? finite
      rw [Value.finite?_int range] at finite
      cases finite
      obtain ⟨factor, _, multiplied, success⟩ := Run.exec_bind_success success
      obtain ⟨product, -⟩ := Run.exec_ofExcept_success multiplied
      cases product
      refine ⟨?_, ih integer.2 success⟩
      rintro x ⟨⟩
      exact ⟨n, rfl, range⟩
    | _ =>
      rw [given] at finite
      cases finite
      obtain ⟨_, _, _, success⟩ := Run.exec_bind_success success
      refine ⟨?_, ih integer.2 success⟩
      rintro x ⟨⟩

theorem IsPlain.multipliersWithin (plain : site.IsPlain) :
    site.MultipliersWithin Number.IsInteger := by
  obtain undeclared | ⟨base, names, declared, numeric⟩ := plain
  · exact .of_undeclared undeclared
  · refine .of_declared names declared fun name member x given => ?_
    obtain ⟨n, integer, -⟩ := numeric name member x given
    exact ⟨n, integer⟩

/-- A field above children of an integer cost gets a price only if its own cost is in range. -/
theorem bounded_of_price {s after : Session Memory} {cost : Number}
    (declares : site.DeclaresInteger allowed) (integer : site.MultipliersWithin Number.IsInteger)
    (success : (site.price (ratedChain rate) (.int child)).exec s = (.ok cost, after)) :
    site.IsPlain ∧ Number.InRange (site.own rate + site.factor * child) := by
  obtain ⟨found, _, consulted, -⟩ := Run.exec_bind_success success
  obtain ⟨reply, _, number, estimated, finite, others⟩ := consult_success consulted
  obtain undeclared | ⟨base, names, declared, -⟩ := declares
  · obtain rfl := (declaration_returns_null undeclared _).unique estimated
    cases finite
    obtain ⟨reply, _, number, estimated, finite, -⟩ := consult_success (others rfl)
    have flat : ((Formula.flat (.int rate)).estimate (site.call (.int child))).Returns
        ((site.call (.int child)).reply (.num (.int (rate + child)))) := .bind (.ofExcept rfl) (.pure _)
    obtain rfl := flat.unique estimated
    rw [own_of_undeclared rate undeclared, factor_of_undeclared undeclared, one_mul]
    exact ⟨.inl undeclared, Value.inRange_of_finite? finite⟩
  · have numeric : site.IntegerArguments names := by
      obtain ⟨d, _, looked, estimated⟩ := Run.exec_bind_success estimated
      obtain ⟨same, -⟩ := Run.exec_ofExcept_success looked
      obtain rfl : some ⟨.num (.int base), names.map .str⟩ = d := Except.ok.inj (declared.symm.trans same)
      obtain ⟨_, _, costed, -⟩ := Run.exec_bind_success estimated
      obtain ⟨_, _, multiplied, -⟩ := Run.exec_bind_success costed
      exact integerArguments_of_multiply
        (fun name member => integer _ declared name (List.mem_map_of_mem member)) multiplied
    obtain rfl := (declaration_returns declared numeric).unique estimated
    rw [own_of_declared rate declared, factor_of_declared declared]
    exact ⟨.inr ⟨base, names, declared, numeric⟩, Value.inRange_of_finite? finite⟩

end Site

namespace Visit

variable {allowed : Int → Prop} {rate : Int}

mutual

theorem bounded_of_price : ∀ v : Visit,
    (∀ f ∈ fields v, f.1.DeclaresInteger allowed ∧ f.1.MultipliersWithin Number.IsInteger) →
    ∀ {s after : Session Memory} {added : Option Number},
      (v.price (ratedChain rate)).exec s = (.ok added, after) → ∀ f ∈ fields v, Bounded rate f
  | .excluded _, _, _, _, _, _ => by simp [fields]
  | .unexpanded _, _, _, _, _, _ => by simp [fields]
  | .unresolved _, _, _, _, _, _ => by simp [fields]
  | .field notices site below, sites, _, _, _, success => by
    simp only [fields, List.forall_mem_cons] at sites ⊢
    unfold price at success
    obtain ⟨_, _, _, success⟩ := Run.exec_bind_success success
    obtain ⟨child, _, children, success⟩ := Run.exec_bind_success success
    obtain ⟨cost, _, priced, -⟩ := Run.exec_bind_success success
    have bounded := bounded_of_priceAll below sites.2 children
    have total := priceAll_returns below bounded 0
    rw [zero_add] at total
    rw [total.unique children] at priced
    exact ⟨Site.bounded_of_price sites.1.1 sites.1.2 priced, bounded⟩
  | .group notices below, sites, _, _, _, success => by
    simp only [fields] at sites ⊢
    unfold price at success
    obtain ⟨_, _, _, success⟩ := Run.exec_bind_success success
    obtain ⟨cost, _, children, -⟩ := Run.exec_bind_success success
    exact bounded_of_priceAll below sites children

/-- Visits get a price only if the cost of every field among them is in range. -/
theorem bounded_of_priceAll : ∀ visits : List Visit,
    (∀ f ∈ fieldsAll visits, f.1.DeclaresInteger allowed ∧ f.1.MultipliersWithin Number.IsInteger) →
    ∀ {total : Int} {s after : Session Memory} {cost : Number},
      (priceAll (ratedChain rate) (.int total) visits).exec s = (.ok cost, after) →
      ∀ f ∈ fieldsAll visits, Bounded rate f
  | [], _, _, _, _, _, _ => by simp [fieldsAll]
  | v :: rest, sites, total, _, _, _, success => by
    simp only [fieldsAll, List.forall_mem_append] at sites ⊢
    unfold priceAll at success
    obtain ⟨added, _, first, success⟩ := Run.exec_bind_success success
    -- What the first visit adds is an integer, so the others start from an integer again.
    have bounded := bounded_of_price v sites.1 first
    obtain ⟨known, returned, sum⟩ := price_returns v bounded
    obtain rfl := returned.unique first
    cases added with
    | none => exact ⟨bounded, bounded_of_priceAll rest sites.2 success⟩
    | some cost =>
      obtain rfl : cost = .int (closedForm rate [v]) := sum
      obtain ⟨next, _, added, success⟩ := Run.exec_bind_success success
      obtain ⟨same, -⟩ := Run.exec_ofExcept_success added
      cases same
      exact ⟨bounded, bounded_of_priceAll rest sites.2 success⟩

end

end Visit

theorem Scope.priceAll_of_score_failure {scope : Scope} {chain : List (Estimate σ)}
    {path : List String} {parent : Option TypeDef} {selections : List Selection}
    {s after : Session σ} {fault : Fault}
    (failed : (scope.score chain path parent selections).exec s = (.error fault, after)) :
    (Visit.priceAll chain (.int 0) (scope.expand path parent selections)).exec s =
      (.error fault, after) :=
  Run.exec_map_failure failed

namespace Rule

open Visit (fieldsAll)

variable {rule : Rule σ} {schema : Schema} {fragments : List Fragment} {s after : Session σ}
  {fault : Fault}

theorem variablesFor_returns (schema : Schema) (op : Operation) (sent : Entries) :
    (op.variablesFor schema sent : Run σ Entries).Returns
      ((op.coerceVariables? schema sent).getD sent) := by
  unfold Operation.variablesFor
  cases op.coerceVariables? schema sent with
  | none => exact .bind (.note _) (.pure _)
  | some coerced => exact .pure coerced

/-- Pricing the operation's selections on its root type ends with this fault from some session. -/
def Faulty (rule : Rule σ) (schema : Schema) (fragments : List Fragment) (fault : Fault)
    (op : Operation) : Prop :=
  ∃ root s after, (rule.schema.getD schema).root? op.kind = some root ∧
    ((rule.scope schema fragments op).score rule.chain [] (some root) op.selections).exec s =
      (.error fault, after)

theorem faulty_of_score? {op : Operation}
    (failed : (rule.score? schema fragments op).exec s = (.error fault, after)) :
    rule.Faulty schema fragments fault op := by
  cases rooted : (rule.schema.getD schema).root? op.kind with
  | none =>
    rw [score?_of_rootless op rooted] at failed
    cases failed
  | some root =>
    rw [score?_of_root op rooted] at failed
    have returned := variablesFor_returns (σ := σ) (rule.schema.getD schema) op rule.vars
    rcases Run.exec_bind_failure failed with early | ⟨vars, _, coerced, failed⟩
    · exact absurd early returned.not_failed
    rw [returned.unique coerced] at failed
    rcases Run.exec_bind_failure failed with pricing | ⟨score, _, _, late⟩
    · exact ⟨root, _, _, rooted, pricing⟩
    · cases Run.exec_map_failure late

theorem faulty_of_scored {ops : List Operation}
    (failed : (rule.scored schema fragments ops).exec s = (.error fault, after)) :
    ∃ op ∈ ops, rule.Faulty schema fragments fault op := by
  induction ops generalizing s with
  | nil => cases failed
  | cons op rest ih =>
    rcases Run.exec_bind_failure failed with first | ⟨score?, _, _, failed⟩
    · exact ⟨op, List.mem_cons_self, faulty_of_score? first⟩
    rcases Run.exec_bind_failure failed with remaining | ⟨others, _, _, late⟩
    · obtain ⟨other, member, faulty⟩ := ih remaining
      exact ⟨other, List.mem_cons_of_mem _ member, faulty⟩
    · cases score? with
      | none => cases late
      | some score => cases late

/-- The check of a document fails only in pricing one of its operations. -/
theorem faulty_of_check {doc : Document}
    (failed : (rule.check schema doc).exec s = (.error fault, after)) :
    ∃ op ∈ doc.operations, rule.Faulty schema doc.fragments fault op := by
  rw [check_eq_scored] at failed
  exact faulty_of_scored (Run.exec_map_failure failed)

/-- A field, with the visits below it, that the rule comes across in a document. -/
def Meets (rule : Rule σ) (schema : Schema) (doc : Document) (f : Site × List Visit) : Prop :=
  ∃ op ∈ doc.operations, ∃ root, (rule.schema.getD schema).root? op.kind = some root ∧
    f ∈ fieldsAll ((rule.scope schema doc.fragments op).expand [] (some root) op.selections)

theorem known_root (rule : Rule σ) (fragments : List Fragment) {op : Operation} {root : TypeDef}
    (rooted : (rule.schema.getD schema).root? op.kind = some root) :
    (rule.scope schema fragments op).Known (some root) := by
  rw [← rooted]
  exact Scope.known_root? op.kind

theorem Meets.has {doc : Document} {f : Site × List Visit} (met : rule.Meets schema doc f) :
    (rule.schema.getD schema).Has f.1 := by
  obtain ⟨op, _, root, rooted, member⟩ := met
  exact Scope.fieldsAll_expand_has (rule.known_root doc.fragments rooted) [] op.selections f member

/-- Pricing has no fault but an overflow if the prices of fields have none. -/
theorem Faulty.overflow_of_prices {op : Operation}
    (prices : ∀ root, (rule.schema.getD schema).root? op.kind = some root →
      ∀ f ∈ fieldsAll ((rule.scope schema fragments op).expand [] (some root) op.selections),
        ∀ child, (f.1.price rule.chain child).Ensures fun _ => True)
    (faulty : rule.Faulty schema fragments fault op) : fault = .overflow := by
  obtain ⟨root, s, after, rooted, failed⟩ := faulty
  have priced : (Visit.priceAll rule.chain (.int 0)
      ((rule.scope schema fragments op).expand [] (some root) op.selections)).Ensures
        fun _ => True :=
    Visit.priceAll_ensures Number.closed_all.toSumClosed _
      (fun f member child _ => prices root rooted f member child) trivial
  have outcome := priced s
  rw [Scope.priceAll_of_score_failure failed] at outcome
  exact outcome

/-- With declared integers and the default estimators, pricing has no fault but an overflow. -/
theorem Faulty.eq_overflow {rule : Rule Memory} {op : Operation}
    (defaults : rule.chain = Formula.defaults.map Formula.estimate) {allowed : Int → Prop}
    (declares : (rule.schema.getD schema).DeclaresIntegers allowed)
    (faulty : rule.Faulty schema fragments fault op) : fault = .overflow := by
  refine faulty.overflow_of_prices fun root rooted f member child => ?_
  have sites := Scope.fieldsAll_expand_has (rule.known_root fragments rooted) [] op.selections
  have site := (declares.site (sites f member)).within (fun _ _ => trivial) fun _ _ _ _ _ _ => trivial
  rw [defaults, defaults_eq_ratedChain]
  exact Site.price_ratedChain_ensures Number.closed_all trivial site trivial

/-- A document gets a verdict only if each of its operations gets a price. -/
theorem priced_of_check {doc : Document} {p : Progress} {op : Operation} {root : TypeDef}
    (success : (rule.check schema doc).exec s = (.ok p, after)) (listed : op ∈ doc.operations)
    (rooted : (rule.schema.getD schema).root? op.kind = some root) :
    ∃ score, rule.Priced schema doc.fragments op score := by
  rw [check_eq_scored] at success
  obtain ⟨scored, _, priced, -⟩ := Run.exec_bind_success success
  obtain ⟨operations, prices⟩ := scored_success priced
  have member : op ∈ scored.map (·.1) := by
    rw [operations, List.mem_filter]
    exact ⟨listed, by rw [hasRoot, rooted]; rfl⟩
  obtain ⟨⟨_, score⟩, among, rfl⟩ := List.mem_map.mp member
  exact ⟨score, prices _ among⟩

/-- With declared integers and the default estimators, the check of a document ends with a verdict, which
is one report or none, or with an overflow. If the arguments that multiply costs are integers, there is
a verdict exactly if these and the costs of all fields that are met stay in the range of doubles. -/
theorem check_decides_iff (rule : Rule Memory)
    (defaults : rule.chain = Formula.defaults.map Formula.estimate) (schema : Schema)
    (declares : (rule.schema.getD schema).DeclaresIntegers fun _ => True) (doc : Document)
    (s : Session Memory) :
    ((∃ p after, (rule.check schema doc).exec s = (.ok p, after)) ∨
      ∃ after, (rule.check schema doc).exec s = (.error .overflow, after)) ∧
    ((∀ f, rule.Meets schema doc f → f.1.MultipliersWithin Number.IsInteger) →
      ((∃ p after, (rule.check schema doc).exec s = (.ok p, after)) ↔
        ∀ f, rule.Meets schema doc f → Visit.Bounded 1 f)) := by
  constructor
  · rcases ended : (rule.check schema doc).exec s with ⟨fault | p, after⟩
    · obtain ⟨op, _, faulty⟩ := faulty_of_check ended
      obtain rfl := faulty.eq_overflow defaults declares
      exact .inr ⟨after, rfl⟩
    · exact .inl ⟨p, after, rfl⟩
  intro integer
  constructor
  · rintro ⟨p, after, success⟩ f ⟨op, listed, root, rooted, member⟩
    obtain ⟨score, root', _, _, rooted', priced⟩ := priced_of_check success listed rooted
    obtain rfl := Option.some.inj (rooted.symm.trans rooted')
    obtain ⟨cost, _, priced, -⟩ := Run.exec_bind_success priced
    have sites : ∀ g ∈ fieldsAll ((rule.scope schema doc.fragments op).expand [] (some root)
        op.selections), g.1.DeclaresInteger (fun _ => True) ∧
          g.1.MultipliersWithin Number.IsInteger := by
      intro g inside
      have met : rule.Meets schema doc g := ⟨op, listed, root, rooted, inside⟩
      exact ⟨declares.site met.has, integer g met⟩
    rw [defaults, defaults_eq_ratedChain] at priced
    exact Visit.bounded_of_priceAll _ sites priced f member
  · intro bounded
    rcases ended : (rule.check schema doc).exec s with ⟨fault | p, after⟩
    · obtain ⟨op, listed, root, _, _, rooted, failed⟩ := faulty_of_check ended
      have priced := Visit.priceAll_returns _
        (fun f member => bounded f ⟨op, listed, root, rooted, member⟩) 0
      rw [defaults, defaults_eq_ratedChain] at failed
      exact absurd (Scope.priceAll_of_score_failure failed) priced.not_failed
    · exact ⟨p, after, rfl⟩

/-- Items below items, with the number of them as an argument. -/
def itemSchema : Schema :=
  ⟨[⟨"Query", .object [] [⟨"id", .named "Int", [], none, none, []⟩,
      ⟨"items", .named "Query", [⟨"limit", .named "Int", none, none⟩],
        some [("complexity", .declared (.int 1) [.str "limit"])], none, []⟩], none⟩,
      ⟨"Int", .scalar .int, none⟩], some "Query", none, none, []⟩

theorem itemSchema_declares {allowed : Int → Prop} (one : allowed 1) :
    itemSchema.DeclaresIntegers allowed := by
  refine List.forall_mem_cons.mpr ⟨?_, List.forall_mem_singleton.mpr (List.forall_mem_nil _)⟩
  refine List.forall_mem_cons.mpr ⟨.inl rfl, ?_⟩
  exact List.forall_mem_singleton.mpr (.inr ⟨1, ["limit"], rfl, one⟩)

def nestedItems : Nat → Selection
  | 0 => .field ⟨none, "id", [], []⟩ []
  | depth + 1 => .field ⟨none, "items", [("limit", .var "n")], []⟩ [nestedItems depth]

def nestedQuery (depth : Nat) : Document :=
  ⟨[.operation ⟨.query, none, [⟨"n", .named "Int", none, []⟩], [], [nestedItems depth], ⟨1, 1⟩⟩]⟩

/-- The default estimators, and the largest argument of 32 bits. -/
def largestItems : Rule Memory :=
  ⟨Formula.defaults.map Formula.estimate, ⟨.int 1000, 10000⟩, none, [("n", .int 2147483647)]⟩

theorem check_decides_iff_nested :
    ∃ p after, (largestItems.check itemSchema (nestedQuery 1)).exec ⟨.empty, #[]⟩ = (.ok p, after) := by
  have largest : ∀ site : Site, site.argument "limit" = .num (.int 2147483647) →
      site.IntegerArguments ["limit"] := by
    intro site limit name member x given
    rw [List.mem_singleton.mp member, limit] at given
    cases given
    exact ⟨2147483647, rfl, by decide +kernel⟩
  have bounded : ∀ f, largestItems.Meets itemSchema (nestedQuery 1) f → Visit.Bounded 1 f := by
    rintro f ⟨op, listed, root, rooted, member⟩
    obtain rfl := List.mem_singleton.mp listed
    cases rooted
    revert f
    refine List.forall_mem_cons.mpr ⟨⟨.inr ⟨1, ["limit"], rfl, largest _ rfl⟩, by decide +kernel⟩, ?_⟩
    exact List.forall_mem_singleton.mpr ⟨.inl rfl, by decide +kernel⟩
  exact ((check_decides_iff largestItems rfl itemSchema (itemSchema_declares trivial) (nestedQuery 1)
    ⟨.empty, #[]⟩).2 fun f met => (bounded f met).1.multipliersWithin).mpr bounded

/-- Costs declared by integers of 32 bits and an argument of 32 bits: thirty-four lists in each other
end the check with an overflow, where thirty-three are reported as too expensive. -/
theorem nested_items_overflow :
    (itemSchema.DeclaresIntegers fun n => -2 ^ 31 ≤ n ∧ n < 2 ^ 31) ∧
    ((largestItems.check itemSchema (nestedQuery 34)).exec ⟨.empty, #[]⟩).1 = .error .overflow ∧
    ((largestItems.check itemSchema (nestedQuery 33)).exec ⟨.empty, #[]⟩).1.toOption.map
      (·.violation.isSome) = some true :=
  ⟨itemSchema_declares (by decide), by decide +kernel, by decide +kernel⟩

end Rule

end QueryCost
