import QueryCost.Proofs.Inlining
import QueryCost.Proofs.Verdict
import QueryCost.Validity.Introspection
import QueryCost.Validity.Typing

/-!
# Nodes that are not counted

Besides the fields that a type defines, a valid query may select `__typename` anywhere and `__schema`
and `__type` on the query root. No type lists these among its fields, so the expansion takes them for
unknown fields and does not look below them. For `__typename` there is nothing below. Everything below
`__schema` and `__type` escapes the count: `Accepts` describes the valid queries, `hiddenAll` counts
what the expansion leaves out, and the nodes of a score are all the others.
-/
namespace QueryCost

/-- No directive that could leave the selection out. -/
def Unconditional (directives : List Directive) : Prop :=
  ∀ d ∈ directives, d.name ≠ "skip" ∧ d.name ≠ "include"

theorem Unconditional.find_silent {directives : List Directive} {name : String} (vars : Entries)
    (absent : ∀ d ∈ directives, d.name ≠ name) :
    Condition.find vars name directives = .silent := by
  have none : directives.find? (·.name == name) = none := by
    rw [List.find?_eq_none]
    intro d member
    simpa using absent d member
  rw [Condition.find, none]

theorem Unconditional.included {directives : List Directive}
    (unconditional : Unconditional directives) (vars : Entries) :
    (exclusion vars directives).excluded = false := by
  have skip := find_silent vars fun d member => (unconditional d member).1
  have inclusion := find_silent vars fun d member => (unconditional d member).2
  simp [exclusion, skip, inclusion, Condition.isBool]

namespace Scope

/-- Selections on a type without spreads and conditions, in which each field is defined by the type it
is selected on, or is one of the fields that describe types and the schema. -/
inductive Accepts (scope : Scope) : Option TypeDef → List Selection → Prop
  | nil (parent : Option TypeDef) : Accepts scope parent []
  | own (head : FieldHead) {parent : Option TypeDef} {t : TypeDef} {field : FieldDef}
      {below rest : List Selection} (unconditional : Unconditional head.directives)
      (resolved : resolve? parent head.name = some (t, field))
      (inner : Accepts scope (scope.schema.type? field.type.base) below)
      (others : Accepts scope parent rest) : Accepts scope parent (.field head below :: rest)
  | typename (head : FieldHead) {t : TypeDef} {rest : List Selection}
      (unconditional : Unconditional head.directives) (named : head.name = "__typename")
      (composite : t.isComposite = true) (unlisted : t.field? head.name = none)
      (others : Accepts scope (some t) rest) : Accepts scope (some t) (.field head [] :: rest)
  | description (head : FieldHead) {t : TypeDef} {field : FieldDef} {below rest : List Selection}
      (unconditional : Unconditional head.directives) (root : scope.schema.root? .query = some t)
      (standard : field ∈ Schema.Standard.metaFields) (named : head.name = field.name)
      (unlisted : t.field? head.name = none) (nonempty : below ≠ [])
      (inner : Accepts scope (scope.schema.type? field.type.base) below)
      (others : Accepts scope (some t) rest) : Accepts scope (some t) (.field head below :: rest)
  | inline (condition : Option String) (directives : List Directive) {parent : Option TypeDef}
      {below rest : List Selection} (unconditional : Unconditional directives)
      (inner : Accepts scope (scope.conditioned condition parent) below)
      (others : Accepts scope parent rest) :
      Accepts scope parent (.inline condition directives below :: rest)

open Selection (sizeAll)
open Visit (nodesAll)

mutual

/-- Number of nodes below fields that their type does not list. -/
def hidden (scope : Scope) (parent : Option TypeDef) : Selection → Nat
  | .field head below =>
    match resolve? parent head.name with
    | some (_, field) => hiddenAll scope (scope.schema.type? field.type.base) below
    | none => sizeAll below
  | .inline condition _ below => hiddenAll scope (scope.conditioned condition parent) below
  | .spread _ _ => 0

def hiddenAll (scope : Scope) (parent : Option TypeDef) : List Selection → Nat
  | [] => 0
  | s :: rest => hidden scope parent s + hiddenAll scope parent rest

end

mutual

/-- Whether a description of the schema is asked for at or below a selection. -/
def describes (scope : Scope) (parent : Option TypeDef) : Selection → Bool
  | .field head below =>
    match resolve? parent head.name with
    | some (_, field) => describesAny scope (scope.schema.type? field.type.base) below
    | none => Introspection.isEntry head.name
  | .inline condition _ below => describesAny scope (scope.conditioned condition parent) below
  | .spread _ _ => false

def describesAny (scope : Scope) (parent : Option TypeDef) : List Selection → Bool
  | [] => false
  | s :: rest => describes scope parent s || describesAny scope parent rest

end

variable {scope : Scope}

theorem resolve?_unlisted {t : TypeDef} {name : String} (unlisted : t.field? name = none) :
    resolve? (some t) name = none := by
  simp [resolve?, unlisted]

theorem isEntry_of_metaField {field : FieldDef} (standard : field ∈ Schema.Standard.metaFields) :
    Introspection.isEntry field.name = true := by
  simp only [Schema.Standard.metaFields, List.mem_cons, List.not_mem_nil, or_false] at standard
  rcases standard with rfl | rfl <;> rfl

/-- Every node of an accepted query is counted or hidden. -/
theorem nodesAll_add_hiddenAll {parent : Option TypeDef} {written : List Selection}
    (accepts : scope.Accepts parent written) (path : List String) :
    nodesAll (scope.expand path parent written) + scope.hiddenAll parent written =
      sizeAll written := by
  induction accepts with
  | nil parent => simp [hiddenAll, nodesAll, sizeAll]
  | own head unconditional resolved inner others below later =>
    rw [expand_cons, visitAt_resolved path _ _ (unconditional.included _) resolved]
    simp only [nodesAll, Visit.nodes, hiddenAll, hidden, resolved, sizeAll, Selection.size]
    omega
  | typename head unconditional named composite unlisted others later =>
    have unresolved := resolve?_unlisted unlisted
    rw [expand_cons, visitAt_unresolved path _ _ (unconditional.included _) unresolved]
    simp only [nodesAll, Visit.nodes, hiddenAll, hidden, unresolved, sizeAll, Selection.size]
    omega
  | description head unconditional root standard named unlisted nonempty inner others below later =>
    have unresolved := resolve?_unlisted unlisted
    rw [expand_cons, visitAt_unresolved path _ _ (unconditional.included _) unresolved]
    simp only [nodesAll, Visit.nodes, hiddenAll, hidden, unresolved, sizeAll, Selection.size]
    omega
  | inline condition directives unconditional inner others below later =>
    rw [expand_cons, visitAt_inline path _ condition _ (unconditional.included _)]
    simp only [nodesAll, Visit.nodes, hiddenAll, hidden, sizeAll, Selection.size]
    omega

theorem sizeAll_pos {selections : List Selection} (nonempty : selections ≠ []) :
    0 < sizeAll selections := by
  cases selections with
  | nil => exact absurd rfl nonempty
  | cons s rest => cases s <;> simp only [sizeAll, Selection.size] <;> omega

/-- An accepted query hides something exactly if it asks for a description of the schema. -/
theorem hiddenAll_eq_zero_iff {parent : Option TypeDef} {written : List Selection}
    (accepts : scope.Accepts parent written) :
    scope.hiddenAll parent written = 0 ↔ scope.describesAny parent written = false := by
  induction accepts with
  | nil parent => simp [hiddenAll, describesAny]
  | own head unconditional resolved inner others below later =>
    simp only [hiddenAll, hidden, describesAny, describes, resolved, Nat.add_eq_zero_iff,
      Bool.or_eq_false_iff, below, later]
  | typename head unconditional named composite unlisted others later =>
    have plain : Introspection.isEntry head.name = false := by rw [named]; rfl
    simp only [hiddenAll, hidden, describesAny, describes, resolve?_unlisted unlisted, sizeAll,
      Nat.zero_add, plain, Bool.false_or, later]
  | description head unconditional root standard named unlisted nonempty inner others below later =>
    have entry : Introspection.isEntry head.name = true := by
      rw [named]
      exact isEntry_of_metaField standard
    have some := sizeAll_pos nonempty
    simp only [hiddenAll, hidden, describesAny, describes, resolve?_unlisted unlisted, entry,
      Bool.true_or, Bool.true_eq_false, iff_false]
    omega
  | inline condition directives unconditional inner others below later =>
    simp only [hiddenAll, hidden, describesAny, describes, Nat.add_eq_zero_iff,
      Bool.or_eq_false_iff, below, later]

/-- The nodes of a score are the visits of its selections, whatever the estimators did. -/
theorem score_nodes {σ : Type} {chain : List (Estimate σ)} {path : List String}
    {parent : Option TypeDef} {selections : List Selection} {s after : Session σ} {score : Score}
    (success : (scope.score chain path parent selections).exec s = (.ok score, after)) :
    score.nodes = nodesAll (scope.expand path parent selections) := by
  obtain ⟨cost, _, _, success⟩ := Run.exec_bind_success success
  rw [(Run.exec_pure_success success).1]

/-- The node count of a valid query is the number of its nodes, with spreads expanded, less those below
`__schema` and `__type`. So it covers all nodes exactly if neither of these is selected. -/
theorem score_nodes_of_accepted {σ : Type} (scope : Scope) (acyclic : scope.Acyclic)
    (parent : Option TypeDef) (selections written : List Selection)
    (inlines : scope.Inlines selections written) (accepts : scope.Accepts parent written)
    (chain : List (Estimate σ)) (s after : Session σ) (score : Score)
    (success : (scope.score chain [] parent selections).exec s = (.ok score, after)) :
    score.nodes + scope.hiddenAll parent written = sizeAll written ∧
      (sizeAll written ≤ score.nodes ↔ scope.describesAny parent written = false) := by
  have visits := inlines.expand_eq acyclic scope.fragments (fun _ undefined => undefined) []
    (.nil selections) parent
  have counted := nodesAll_add_hiddenAll accepts []
  have nodes : score.nodes = nodesAll (scope.expand [] parent written) := by
    rw [score_nodes success, ← visits]
    rfl
  rw [← nodes] at counted
  refine ⟨counted, ?_⟩
  rw [← hiddenAll_eq_zero_iff accepts]
  omega

/-- A query root with one field beside the standard types, and a fragment on it. -/
def describedQuery : Scope :=
  ⟨⟨⟨"Query", .object [] [⟨"a", .named "Int", [], none, none, []⟩], none⟩ ::
      Schema.Standard.introspectionTypes, some "Query", none, none, []⟩,
    [⟨"F", "Query", [], [.field ⟨none, "__typename", [], []⟩ []]⟩], []⟩

/-- The names of all types. -/
def typeNames : Selection :=
  .field ⟨none, "__schema", [], []⟩
    [.field ⟨none, "types", [], []⟩ [.field ⟨none, "name", [], []⟩ []]]

theorem unconditional_nil : Unconditional [] := by
  intro d member
  cases member

theorem describedQuery_acyclic : describedQuery.Acyclic := by
  apply acyclic_of_rank fun _ => 0
  rintro outer inner ⟨f, defined, spread⟩
  obtain ⟨member, rfl⟩ := fragment?_some defined
  simp only [describedQuery, List.mem_singleton] at member
  subst member
  simp [Selection.spreadsAll, Selection.spreads] at spread

theorem typeNames_accepted {rest : List Selection}
    (others : describedQuery.Accepts (describedQuery.schema.root? .query) rest) :
    describedQuery.Accepts (describedQuery.schema.root? .query) (typeNames :: rest) := by
  refine .description _ unconditional_nil rfl (List.mem_cons_self ..) rfl rfl (by simp) ?_ others
  refine .own _ unconditional_nil rfl ?_ (.nil _)
  exact .own _ unconditional_nil rfl (.nil _) (.nil _)

/-- Of a field, a fragment with `__typename`, and the names of all types, two nodes are hidden. -/
theorem score_nodes_of_accepted_description :
    ∃ score after, (describedQuery.score Rule.undecided.chain []
        (describedQuery.schema.root? .query)
        [.field ⟨none, "a", [], []⟩ [], .spread "F" [], typeNames]).exec ⟨(), #[]⟩ =
          (.ok score, after) ∧
      score.nodes + 2 = 6 ∧ ¬ 6 ≤ score.nodes := by
  have success : (describedQuery.score Rule.undecided.chain []
      (describedQuery.schema.root? .query)
      [.field ⟨none, "a", [], []⟩ [], .spread "F" [], typeNames]).exec ⟨(), #[]⟩ =
        (.ok ⟨.int 3, 4⟩, ⟨(), #[]⟩) := rfl
  have inlines : describedQuery.Inlines
      [.field ⟨none, "a", [], []⟩ [], .spread "F" [], typeNames]
      [.field ⟨none, "a", [], []⟩ [],
        .inline (some "Query") [] [.field ⟨none, "__typename", [], []⟩ []], typeNames] :=
    inlined_inlines describedQuery_acyclic _
  have accepts : describedQuery.Accepts (describedQuery.schema.root? .query)
      [.field ⟨none, "a", [], []⟩ [],
        .inline (some "Query") [] [.field ⟨none, "__typename", [], []⟩ []], typeNames] := by
    refine .own _ unconditional_nil rfl (.nil _) (.inline _ _ unconditional_nil ?_
      (typeNames_accepted (.nil _)))
    exact .typename _ unconditional_nil rfl rfl rfl (.nil _)
  obtain ⟨counted, covered⟩ := score_nodes_of_accepted describedQuery describedQuery_acyclic _ _ _
    inlines accepts _ _ _ _ success
  refine ⟨_, _, success, counted, ?_⟩
  intro all
  cases covered.mp all

/-- Asking for the names of all types is valid and selects three nodes, of which one is counted. -/
theorem description_escapes_count :
    describedQuery.Acyclic ∧ describedQuery.Inlines [typeNames] [typeNames] ∧
      describedQuery.Accepts (describedQuery.schema.root? .query) [typeNames] ∧
      sizeAll [typeNames] = 3 ∧
      (describedQuery.score Rule.undecided.chain []
        (describedQuery.schema.root? .query) [typeNames]).Returns ⟨.int 1, 1⟩ := by
  refine ⟨describedQuery_acyclic, inlined_inlines describedQuery_acyclic _,
    typeNames_accepted (.nil _), rfl, ?_⟩
  intro s
  exact ⟨s, rfl⟩

end Scope

end QueryCost
