import QueryCost.Proofs.Causes

/-!
# Sums of whatever estimators answer

Estimators answer with any value. What counts as a cost is checked once, when an answer comes back; from there
costs go into sums, as children into the next calls, and from there into the fallback. `Visit.tally` computes
with values all the way and knows nothing of this. Still it meets nothing but numbers, and computes what the
prices are.
-/
namespace QueryCost

variable {σ : Type}

open Number (InRange)

/-- The call for a field above children whose cost is any value. -/
def Site.callWith (site : Site) (child : Value) : Call :=
  ⟨site.args, child, site.field, site.name, site.parent⟩

namespace Visit

mutual

/-- What a visit adds to a total, in values. -/
def tally (chain : List (Estimate σ)) : Visit → Run σ (Option Value)
  | .excluded notices => do
    Run.noteAll notices
    return none
  | .unresolved notices => do
    Run.noteAll notices
    return some (.int 1)
  | .unexpanded notices => do
    Run.noteAll notices
    return none
  | .field notices site below => do
    Run.noteAll notices
    let child ← tallyAll chain (.int 0) below
    return some (← answer chain (site.callWith child))
  | .group notices below => do
    Run.noteAll notices
    return some (← tallyAll chain (.int 0) below)

def tallyAll (chain : List (Estimate σ)) : (total : Value) → List Visit → Run σ Value
  | total, [] => return total
  | total, v :: rest => do
    match (← tally chain v) with
    | some cost => do
      let total ← Run.ofExcept (total.add cost)
      tallyAll chain total rest
    | none => tallyAll chain total rest

end

mutual

theorem tally_eq_price (chain : List (Estimate σ)) : ∀ v : Visit,
    v.tally chain = (do return (← v.price chain).map Value.num)
  | .excluded notices => by simp [tally, price]
  | .unresolved notices => by
    simp only [tally, price, bind_assoc, pure_bind, Option.map_some]
    rfl
  | .unexpanded notices => by simp [tally, price]
  | .field notices site below => by
    have inner : tallyAll chain (.int 0) below = _ := tallyAll_eq_priceAll chain (.int 0) below
    have answered : ∀ child, answer chain (site.callWith (.num child)) =
        (do return Value.num (← site.price chain child)) := answer_call chain site
    simp only [tally, price, inner, answered, bind_assoc, pure_bind, Option.map_some]
  | .group notices below => by
    have inner : tallyAll chain (.int 0) below = _ := tallyAll_eq_priceAll chain (.int 0) below
    simp only [tally, price, inner, bind_assoc, pure_bind, Option.map_some]

theorem tallyAll_eq_priceAll (chain : List (Estimate σ)) : ∀ (total : Number) (visits : List Visit),
    tallyAll chain (.num total) visits = (do return Value.num (← priceAll chain total visits))
  | total, [] => by simp [tallyAll, priceAll]
  | total, v :: rest => by
    have first := tally_eq_price chain v
    rw [tallyAll, priceAll, first, bind_assoc, bind_assoc]
    congr 1
    funext added
    rw [pure_bind]
    cases added with
    | none => exact tallyAll_eq_priceAll chain total rest
    | some cost =>
      dsimp only [Option.map_some]
      rw [Value.add_num, bind_assoc]
      cases total.add cost with
      | error fault => rfl
      | ok next => exact tallyAll_eq_priceAll chain next rest

end

end Visit

namespace Scope

/-- The cost of selections in values, and their nodes counted on from a given number. -/
def tallyFrom (scope : Scope) (chain : List (Estimate σ)) (path : List String) (start : Int)
    (parent : Option TypeDef) (selections : List Selection) : Run σ (Value × Int) := do
  let visits := scope.expand path parent selections
  let cost ← Visit.tallyAll chain (.int 0) visits
  return (cost, start + Visit.nodesAll visits)

/-- What happens when selections are priced from a session. -/
def Happens (scope : Scope) (chain : List (Estimate σ)) (path : List String) (parent : Option TypeDef)
    (selections : List Selection) (s : Session σ) (e : Event) : Prop :=
  Visit.HappensAll chain (.int 0) (scope.expand path parent selections) s e

section

variable {scope : Scope} {chain : List (Estimate σ)} {path : List String} {parent : Option TypeDef}
  {selections : List Selection} {start : Int}

theorem tallyFrom_eq_scoreFrom : scope.tallyFrom chain path start parent selections = (do
    let (cost, nodes) ← scope.scoreFrom chain path start parent selections
    return (.num cost, nodes)) := by
  have tallied : Visit.tallyAll chain (.int 0) (scope.expand path parent selections) = _ :=
    Visit.tallyAll_eq_priceAll chain (.int 0) (scope.expand path parent selections)
  simp only [tallyFrom, scoreFrom, score, tallied, bind_assoc, pure_bind]

theorem exec_tallyFrom {s after : Session σ} {outcome : Except Fault Number}
    (priced : (Visit.priceAll chain (.int 0) (scope.expand path parent selections)).exec s =
      (outcome, after)) :
    (scope.tallyFrom chain path start parent selections).exec s =
      (outcome.map fun cost =>
        (.num cost, start + Visit.nodesAll (scope.expand path parent selections)), after) := by
  have tallied : Visit.tallyAll chain (.int 0) (scope.expand path parent selections) = _ :=
    Visit.tallyAll_eq_priceAll chain (.int 0) (scope.expand path parent selections)
  simp only [tallyFrom, tallied, bind_assoc, pure_bind]
  rw [Run.exec_bind, priced]
  cases outcome <;> rfl

end

/-- Whatever estimators answer, as long as none fails when it is asked: the cost is a number, or there is an
overflow. The overflow has a cause, an integer beyond the range of doubles that was an answer or was added to a
double. Where all numbers among the answers are integers in that range, the cost is an integer, however large. -/
theorem sums_withstand_answers (scope : Scope) (chain : List (Estimate σ)) (path : List String)
    (start : Int) (parent : Option TypeDef) (selections : List Selection) (s : Session σ)
    (unfailing : ∀ fault, ¬ scope.Happens chain path parent selections s (.reply (.error fault))) :
    (scope.tallyFrom chain path start parent selections = (do
      let (cost, nodes) ← scope.scoreFrom chain path start parent selections
      return (.num cost, nodes))) ∧
    ((∃ cost nodes after, (scope.tallyFrom chain path start parent selections).exec s =
        (.ok (.num cost, nodes), after)) ∨
      ∃ after, (scope.tallyFrom chain path start parent selections).exec s =
        (.error .overflow, after)) ∧
    ((∃ after, (scope.tallyFrom chain path start parent selections).exec s =
        (.error .overflow, after)) ↔
      ∃ e, scope.Happens chain path parent selections s e ∧ e.Breaks) ∧
    ((∀ v, scope.Happens chain path parent selections s (.reply (.ok v)) → v.IsFiniteNumber →
        ∃ n, v = .num (.int n) ∧ InRange n) →
      ∃ cost nodes after, (scope.tallyFrom chain path start parent selections).exec s =
        (.ok (.num (.int cost), nodes), after)) := by
  refine ⟨tallyFrom_eq_scoreFrom, ?_, ?_, ?_⟩
  · rcases priced : (Visit.priceAll chain (.int 0) (scope.expand path parent selections)).exec s with
      ⟨fault | cost, after⟩
    · rcases Visit.priceAll_explained _ priced with failed | ⟨rfl, -⟩
      · exact absurd failed (unfailing fault)
      · exact .inr ⟨after, exec_tallyFrom priced⟩
    · exact .inl ⟨cost, _, after, exec_tallyFrom priced⟩
  · constructor
    · rintro ⟨_, failed⟩
      rcases priced : (Visit.priceAll chain (.int 0) (scope.expand path parent selections)).exec s with
        ⟨fault | cost, after⟩
      · rw [exec_tallyFrom priced] at failed
        cases failed
        rcases Visit.priceAll_explained _ priced with failed | ⟨-, cause⟩
        · exact absurd failed (unfailing _)
        · exact cause
      · rw [exec_tallyFrom priced] at failed
        cases failed
    · rintro ⟨e, happened, breaks⟩
      obtain ⟨after, failed⟩ := Visit.priceAll_breaks _ happened breaks
      exact ⟨after, exec_tallyFrom failed⟩
  · intro integers
    have plain : ∀ e, scope.Happens chain path parent selections s e → e.IsPlain := by
      intro e happened
      cases e with
      | sum total cost => trivial
      | reply outcome =>
        cases outcome with
        | error fault => exact absurd happened (unfailing fault)
        | ok v => exact integers v happened
    obtain ⟨cost, after, priced⟩ := Visit.priceAll_plain _ plain
    exact ⟨cost, _, after, exec_tallyFrom priced⟩

/-- Four fields, one of them with fields of its own. -/
def oddities : Scope :=
  ⟨⟨[⟨"Query", .object [] [⟨"a", .named "Int", [], none, none, []⟩, ⟨"b", .named "Int", [], none, none, []⟩,
      ⟨"c", .named "Int", [], none, none, []⟩, ⟨"d", .named "Query", [], none, none, []⟩], none⟩,
    ⟨"Int", .scalar .int, none⟩], some "Query", none, none, []⟩, [], []⟩

/-- A Boolean, a text, a list and an integer as answers. -/
def oddAnswers : Entries :=
  [("a", .bool true), ("b", .str "7"), ("c", .list [.num (.int 7)]), ("d", .num (.int 7))]

def oddSelections : List Selection :=
  [.field ⟨none, "a", [], []⟩ [], .field ⟨none, "unknown", [], []⟩ [],
    .field ⟨none, "d", [], []⟩ [.field ⟨none, "b", [], []⟩ [], .field ⟨none, "c", [], []⟩ []]]

/-- Only the integer counts of these answers. With an integer that is no double as answer there is an
overflow, and the theorem finds its cause. -/
theorem sums_withstand_answers_odd :
    (∃ cost nodes after, (oddities.tallyFrom [(Formula.byField oddAnswers).estimate] [] 0
      (oddities.schema.type? "Query") oddSelections).exec ⟨.empty, #[]⟩ =
        (.ok (.num (.int cost), nodes), after)) ∧
    ∃ e, oddities.Happens [(Formula.byField [("a", .num (.int (2 ^ 1024)))]).estimate] []
      (oddities.schema.type? "Query") oddSelections ⟨.empty, #[]⟩ e ∧ e.Breaks := by
  have replies : ∀ {table : Entries} {outcome : Except Fault Value},
      oddities.Happens [(Formula.byField table).estimate] [] (oddities.schema.type? "Query") oddSelections
        ⟨.empty, #[]⟩ (.reply outcome) → ∃ key, outcome = .ok ((Entries.get? table key).getD .null) := by
    intro table outcome happened
    obtain ⟨_, member, call, t, ended⟩ := Visit.reply_of_happensAll _ happened
    obtain rfl := List.mem_singleton.mp member
    exact ⟨call.name, ended.symm⟩
  have unfailing : ∀ {table : Entries} (fault : Fault),
      ¬ oddities.Happens [(Formula.byField table).estimate] [] (oddities.schema.type? "Query")
        oddSelections ⟨.empty, #[]⟩ (.reply (.error fault)) := by
    intro table fault happened
    obtain ⟨_, ⟨⟩⟩ := replies happened
  constructor
  · obtain ⟨-, -, -, integers⟩ := sums_withstand_answers oddities [(Formula.byField oddAnswers).estimate] [] 0
      (oddities.schema.type? "Query") oddSelections ⟨.empty, #[]⟩ unfailing
    have seven : InRange 7 := by decide +kernel
    have entries : ∀ entry ∈ oddAnswers, entry.2.IsFiniteNumber →
        ∃ n, entry.2 = .num (.int n) ∧ InRange n := by
      simp only [oddAnswers, List.forall_mem_cons, Value.IsFiniteNumber]
      exact ⟨False.elim, False.elim, False.elim, fun _ => ⟨7, rfl, seven⟩, List.forall_mem_nil _⟩
    apply integers
    intro v happened counts
    obtain ⟨key, ⟨⟩⟩ := replies happened
    unfold Entries.get? at counts ⊢
    cases found : oddAnswers.find? (·.1 == key) with
    | none =>
      rw [found] at counts
      cases counts
    | some entry =>
      rw [found] at counts
      exact entries entry (List.mem_of_find?_eq_some found) counts
  · obtain ⟨counted, -, causes, -⟩ := sums_withstand_answers oddities
      [(Formula.byField [("a", .num (.int (2 ^ 1024)))]).estimate] [] 0 (oddities.schema.type? "Query")
      oddSelections ⟨.empty, #[]⟩ unfailing
    apply causes.mp
    have overflow : ((oddities.scoreFrom [(Formula.byField [("a", .num (.int (2 ^ 1024)))]).estimate] [] 0
        (oddities.schema.type? "Query") oddSelections).exec ⟨.empty, #[]⟩).1 = .error .overflow := by
      decide +kernel
    rw [counted]
    exact ⟨_, Run.exec_bind_error _ (Run.exec_of_outcome overflow)⟩

end Scope

end QueryCost
