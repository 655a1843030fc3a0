import QueryCost.Proofs.SharedPath
import QueryCost.Validity.Fragments

/-!
# Fragments in place of their spreads

A named fragment is a way to write an inline fragment once and use it often. `Inlines` relates
selections to their written-out form, in which each spread of a known fragment is the inline fragment
with the condition and the selections of its definition. `inlined` computes that form whenever
fragments do not lead back to themselves.

Both forms have the same visits, so everything that is computed from visits is the same as well. The
expansion of a spread is guarded by the path and that of an inline fragment is not; on an acyclic
table the guard never holds, because every fragment on the path leads to all spreads below it
(`LeadsTo`), and a fragment that is spread below itself would lead to itself.
-/
namespace QueryCost

namespace Scope

variable (scope : Scope)

/-- A fragment spreads another one, at any depth. -/
def Spreads (outer inner : String) : Prop :=
  ∃ f, scope.fragment? outer = some f ∧ inner ∈ Selection.spreadsAll f.selections

/-- No fragment leads back to itself. -/
def Acyclic : Prop := ∀ name, ¬ Relation.TransGen scope.Spreads name name

variable {scope} in
/-- A number that falls along spreads rules out cycles. -/
theorem acyclic_of_rank (rank : String → Nat)
    (falls : ∀ outer inner, scope.Spreads outer inner → rank inner < rank outer) :
    scope.Acyclic := by
  have lower : ∀ outer inner, Relation.TransGen scope.Spreads outer inner →
      rank inner < rank outer := by
    intro outer inner leads
    induction leads with
    | single step => exact falls _ _ step
    | tail _ step ih => exact Nat.lt_trans (falls _ _ step) ih
  intro name cycle
  exact Nat.lt_irrefl _ (lower name name cycle)

/-- The same selections with each spread of a known fragment replaced by an inline fragment, also in
what is put in its place. -/
inductive Inlines : List Selection → List Selection → Prop
  | nil : Inlines [] []
  | field (head : FieldHead) {below below' rest rest' : List Selection}
      (inner : Inlines below below') (others : Inlines rest rest') :
      Inlines (.field head below :: rest) (.field head below' :: rest')
  | inline (condition : Option String) (directives : List Directive)
      {below below' rest rest' : List Selection}
      (inner : Inlines below below') (others : Inlines rest rest') :
      Inlines (.inline condition directives below :: rest)
        (.inline condition directives below' :: rest')
  | expanded {name : String} (directives : List Directive) {f : Fragment}
      {below rest rest' : List Selection} (defined : scope.fragment? name = some f)
      (inner : Inlines f.selections below) (others : Inlines rest rest') :
      Inlines (.spread name directives :: rest)
        (.inline (some f.condition) directives below :: rest')
  | unknown {name : String} (directives : List Directive) {rest rest' : List Selection}
      (undefined : scope.fragment? name = none) (others : Inlines rest rest') :
      Inlines (.spread name directives :: rest) (.spread name directives :: rest')

mutual

/-- Replace the spreads of known fragments, with `body` for the selections of a fragment. -/
def substitute (scope : Scope) (body : Fragment → List Selection) : Selection → Selection
  | .field head below => .field head (substituteAll scope body below)
  | .inline condition directives below =>
    .inline condition directives (substituteAll scope body below)
  | .spread name directives =>
    match scope.fragment? name with
    | some f => .inline (some f.condition) directives (body f)
    | none => .spread name directives

def substituteAll (scope : Scope) (body : Fragment → List Selection) :
    List Selection → List Selection
  | [] => []
  | s :: rest => substitute scope body s :: substituteAll scope body rest

end

/-- Write spreads out, nesting at most so many of them. -/
def inlineWithin (scope : Scope) : (budget : Nat) → List Selection → List Selection
  | 0, selections => scope.substituteAll (·.selections) selections
  | budget + 1, selections =>
    scope.substituteAll (fun f => scope.inlineWithin budget f.selections) selections

/-- The written-out form of selections. -/
def inlined (scope : Scope) (selections : List Selection) : List Selection :=
  scope.inlineWithin scope.fragments.length selections

/-- Every fragment on the path leads to every spread of the selections. -/
def LeadsTo (path : List String) (selections : List Selection) : Prop :=
  ∀ outer ∈ path, ∀ name ∈ Selection.spreadsAll selections,
    Relation.TransGen scope.Spreads outer name

variable {scope}

namespace LeadsTo

variable {path : List String} {selections : List Selection}

theorem nil (selections : List Selection) : scope.LeadsTo [] selections := by
  intro outer member
  cases member

theorem mono {fewer : List Selection} (leads : scope.LeadsTo path selections)
    (sub : Selection.spreadsAll fewer ⊆ Selection.spreadsAll selections) :
    scope.LeadsTo path fewer :=
  fun outer onPath name member => leads outer onPath name (sub member)

theorem tail {s : Selection} (leads : scope.LeadsTo path (s :: selections)) :
    scope.LeadsTo path selections :=
  leads.mono (by simp [Selection.spreadsAll])

theorem field {head : FieldHead} {below : List Selection}
    (leads : scope.LeadsTo path (.field head below :: selections)) : scope.LeadsTo path below :=
  leads.mono (by simp [Selection.spreadsAll, Selection.spreads])

theorem inline {condition : Option String} {directives : List Directive} {below : List Selection}
    (leads : scope.LeadsTo path (.inline condition directives below :: selections)) :
    scope.LeadsTo path below :=
  leads.mono (by simp [Selection.spreadsAll, Selection.spreads])

/-- A fragment of the selections goes onto the path of its own selections. -/
theorem expanded (leads : scope.LeadsTo path selections) {name : String} {f : Fragment}
    (member : name ∈ Selection.spreadsAll selections) (defined : scope.fragment? name = some f) :
    scope.LeadsTo (name :: path) f.selections := by
  intro outer onPath inner spread
  have step : scope.Spreads name inner := ⟨f, defined, spread⟩
  rcases List.mem_cons.mp onPath with rfl | above
  · exact .single step
  · exact .tail (leads outer above name member) step

theorem fresh (leads : scope.LeadsTo path selections) (acyclic : scope.Acyclic) {name : String}
    (member : name ∈ Selection.spreadsAll selections) : name ∉ path :=
  fun onPath => acyclic name (leads name onPath name member)

end LeadsTo

mutual

theorem substitute_inlines {body : Fragment → List Selection} {rest rest' : List Selection}
    (others : scope.Inlines rest rest') : ∀ s : Selection,
    (∀ name ∈ s.spreads, ∀ f, scope.fragment? name = some f → scope.Inlines f.selections (body f)) →
    scope.Inlines (s :: rest) (scope.substitute body s :: rest')
  | .field head below, bodies => by
    rw [substitute]
    exact .field head (substituteAll_inlines below bodies) others
  | .inline condition directives below, bodies => by
    rw [substitute]
    exact .inline condition directives (substituteAll_inlines below bodies) others
  | .spread name directives, bodies => by
    cases defined : scope.fragment? name with
    | none =>
      simp only [substitute, defined]
      exact .unknown directives defined others
    | some f =>
      simp only [substitute, defined]
      exact .expanded directives defined (bodies name (by simp [Selection.spreads]) f defined) others

/-- If bodies are written out, so are the selections that they are put into. -/
theorem substituteAll_inlines {body : Fragment → List Selection} : ∀ selections : List Selection,
    (∀ name ∈ Selection.spreadsAll selections, ∀ f, scope.fragment? name = some f →
      scope.Inlines f.selections (body f)) →
    scope.Inlines selections (scope.substituteAll body selections)
  | [], _ => .nil
  | s :: rest, bodies => by
    simp only [Selection.spreadsAll, List.forall_mem_append] at bodies
    exact substitute_inlines (substituteAll_inlines rest bodies.2) s bodies.1

end

/-- The budget counts the fragments that are not on the path; each spread that is written out uses up
one of them. -/
theorem inlineWithin_inlines (acyclic : scope.Acyclic) {budget : Nat} {path : List String}
    {selections : List Selection} (leads : scope.LeadsTo path selections)
    (enough : scope.unexpanded path ≤ budget) :
    scope.Inlines selections (scope.inlineWithin budget selections) := by
  induction budget generalizing path selections with
  | zero =>
    apply substituteAll_inlines
    intro name member f defined
    have less := unexpanded_cons_lt (leads.fresh acyclic member) defined
    omega
  | succ budget ih =>
    apply substituteAll_inlines
    intro name member f defined
    have less := unexpanded_cons_lt (leads.fresh acyclic member) defined
    exact ih (leads.expanded member defined) (by omega)

/-- Without cycles every selection set has a written-out form. -/
theorem inlined_inlines (acyclic : scope.Acyclic) (selections : List Selection) :
    scope.Inlines selections (scope.inlined selections) :=
  inlineWithin_inlines acyclic (.nil selections) (scope.unexpanded_le [])

/-- What is left are spreads of unknown fragments. -/
theorem Inlines.spreads_unknown {selections written : List Selection}
    (inlines : scope.Inlines selections written) :
    ∀ name ∈ Selection.spreadsAll written, scope.fragment? name = none := by
  induction inlines with
  | nil => simp [Selection.spreadsAll]
  | field head inner others below later =>
    simp only [Selection.spreadsAll, Selection.spreads, List.forall_mem_append]
    exact ⟨below, later⟩
  | inline condition directives inner others below later =>
    simp only [Selection.spreadsAll, Selection.spreads, List.forall_mem_append]
    exact ⟨below, later⟩
  | expanded directives defined inner others below later =>
    simp only [Selection.spreadsAll, Selection.spreads, List.forall_mem_append]
    exact ⟨below, later⟩
  | unknown directives undefined others later =>
    simp only [Selection.spreadsAll, Selection.spreads, List.singleton_append, List.forall_mem_cons]
    exact ⟨undefined, later⟩

/-- The same schema and variables with other fragments. -/
def onTable (scope : Scope) (table : List Fragment) : Scope := { scope with fragments := table }

section SameVisits

variable {table : List Fragment} {path path' : List String} (parent : Option TypeDef)

theorem visitAt_field_congr (head : FieldHead) {below below' : List Selection}
    (same : ∀ type, (scope.onTable table).expand path' type below' = scope.expand path type below) :
    (scope.onTable table).visitAt path' parent (.field head below') =
      scope.visitAt path parent (.field head below) := by
  cases left : (exclusion scope.vars head.directives).excluded with
  | true =>
    rw [visitAt_excluded path parent (s := .field head below) left]
    exact visitAt_excluded path' parent (s := .field head below') left
  | false =>
    cases resolved : resolve? parent head.name with
    | none =>
      rw [visitAt_unresolved path parent below left resolved]
      exact visitAt_unresolved path' parent below' left resolved
    | some found =>
      obtain ⟨t, field⟩ := found
      rw [visitAt_resolved path parent below left resolved, ← same]
      exact visitAt_resolved path' parent below' left resolved

theorem visitAt_inline_congr (condition : Option String) (directives : List Directive)
    {below below' : List Selection}
    (same : ∀ type, (scope.onTable table).expand path' type below' = scope.expand path type below) :
    (scope.onTable table).visitAt path' parent (.inline condition directives below') =
      scope.visitAt path parent (.inline condition directives below) := by
  cases left : (exclusion scope.vars directives).excluded with
  | true =>
    rw [visitAt_excluded path parent (s := .inline condition directives below) left]
    exact visitAt_excluded path' parent (s := .inline condition directives below') left
  | false =>
    rw [visitAt_inline path parent condition below left, ← same]
    exact visitAt_inline path' parent condition below' left

/-- Off the path, a spread is visited like the inline fragment that stands for it. -/
theorem visitAt_spread_eq_inline {name : String} (directives : List Directive) {f : Fragment}
    {below : List Selection} (fresh : name ∉ path) (defined : scope.fragment? name = some f)
    (same : ∀ type, (scope.onTable table).expand path' type below =
      scope.expand (name :: path) type f.selections) :
    (scope.onTable table).visitAt path' parent (.inline (some f.condition) directives below) =
      scope.visitAt path parent (.spread name directives) := by
  cases left : (exclusion scope.vars directives).excluded with
  | true =>
    rw [visitAt_excluded path parent (s := .spread name directives) left]
    exact visitAt_excluded path' parent (s := .inline (some f.condition) directives below) left
  | false =>
    rw [visitAt_expanded path parent left fresh defined, ← same]
    exact visitAt_inline path' parent (some f.condition) below left

theorem visitAt_unknown_congr {name : String} (directives : List Directive)
    (undefined : scope.fragment? name = none)
    (undefined' : (scope.onTable table).fragment? name = none) :
    (scope.onTable table).visitAt path' parent (.spread name directives) =
      scope.visitAt path parent (.spread name directives) := by
  cases left : (exclusion scope.vars directives).excluded with
  | true =>
    rw [visitAt_excluded path parent (s := .spread name directives) left]
    exact visitAt_excluded path' parent (s := .spread name directives) left
  | false =>
    rw [visitAt_undefined path parent left undefined]
    exact visitAt_undefined path' parent left undefined'

end SameVisits

/-- The written-out form has the same visits, whatever fragments stand beside it. -/
theorem Inlines.expand_eq (acyclic : scope.Acyclic) {selections written : List Selection}
    (inlines : scope.Inlines selections written) (table : List Fragment)
    (unknown : ∀ name, scope.fragment? name = none → (scope.onTable table).fragment? name = none)
    {path : List String} (path' : List String) (leads : scope.LeadsTo path selections)
    (parent : Option TypeDef) :
    (scope.onTable table).expand path' parent written = scope.expand path parent selections := by
  induction inlines generalizing path parent with
  | nil => rw [expand_nil, expand_nil]
  | field head inner others below later =>
    rw [expand_cons, expand_cons, later leads.tail,
      visitAt_field_congr parent head fun type => below leads.field type]
  | inline condition directives inner others below later =>
    rw [expand_cons, expand_cons, later leads.tail,
      visitAt_inline_congr parent condition directives fun type => below leads.inline type]
  | @expanded name directives f below rest rest' defined inner others body later =>
    have member : name ∈ Selection.spreadsAll (.spread name directives :: rest) := by
      simp [Selection.spreadsAll, Selection.spreads]
    have fresh : name ∉ path := leads.fresh acyclic member
    rw [expand_cons, expand_cons, later leads.tail,
      visitAt_spread_eq_inline parent directives fresh defined
        fun type => body (leads.expanded member defined) type]
  | unknown directives undefined others later =>
    rw [expand_cons, expand_cons, later leads.tail,
      visitAt_unknown_congr parent directives undefined (unknown _ undefined)]

/-- Spreads cost what their written-out form costs. On an acyclic table of fragments every selection set
has such a form, without a spread of a known fragment, and for each form, beside any fragments that
leave unknown ones unknown, pricing is the same run with the same calls of the estimators. -/
theorem scoreFrom_inlined {σ : Type} (scope : Scope) (acyclic : scope.Acyclic)
    (selections : List Selection) :
    scope.Inlines selections (scope.inlined selections) ∧
    ∀ written, scope.Inlines selections written →
      (∀ name ∈ Selection.spreadsAll written, scope.fragment? name = none) ∧
      ∀ table, (∀ name, scope.fragment? name = none →
          (scope.onTable table).fragment? name = none) →
        ∀ (chain : List (Estimate σ)) (count : Int) (parent : Option TypeDef),
        (scope.onTable table).scoreFrom chain [] count parent written =
          scope.scoreFrom chain [] count parent selections ∧
        ∀ s, (((scope.onTable table).scoreFrom (loggedChain chain) [] count parent written).exec
            s).2.memory.2 =
          ((scope.scoreFrom (loggedChain chain) [] count parent selections).exec s).2.memory.2 := by
  refine ⟨inlined_inlines acyclic selections, ?_⟩
  intro written inlines
  refine ⟨inlines.spreads_unknown, ?_⟩
  intro table unknown chain count parent
  have visits := inlines.expand_eq acyclic table unknown [] (.nil selections) parent
  have same : ∀ {τ : Type} (chain : List (Estimate τ)),
      (scope.onTable table).scoreFrom chain [] count parent written =
        scope.scoreFrom chain [] count parent selections := by
    intro τ chain
    rw [scoreFrom_eq_priceFrom, scoreFrom_eq_priceFrom, visits]
  refine ⟨same chain, ?_⟩
  intro s
  rw [same (loggedChain chain)]

/-- A fragment that spreads another one twice, which in turn spreads an unknown one. -/
def shared : Scope :=
  ⟨⟨[⟨"T", .object [] [⟨"a", .named "T", [], none, none, []⟩], none⟩], none, none, none, []⟩,
    [⟨"A", "T", [], [.field ⟨none, "a", [], []⟩ [.spread "B" []], .spread "B" []]⟩,
      ⟨"B", "T", [], [.field ⟨none, "a", [], []⟩ [], .spread "C" []]⟩], []⟩

theorem shared_acyclic : shared.Acyclic := by
  apply acyclic_of_rank fun name => if name = "A" then 2 else if name = "B" then 1 else 0
  rintro outer inner ⟨f, defined, spread⟩
  obtain ⟨member, rfl⟩ := fragment?_some defined
  simp only [shared, List.mem_cons, List.not_mem_nil, or_false] at member
  rcases member with rfl | rfl
  · simp only [Selection.spreadsAll, Selection.spreads, List.append_nil, List.mem_append,
      List.mem_singleton, or_self] at spread
    subst spread
    decide
  · simp only [Selection.spreadsAll, Selection.spreads, List.append_nil, List.nil_append,
      List.mem_singleton] at spread
    subst spread
    decide

/-- The inner fragment is written out twice, and then no table of fragments is needed. -/
theorem scoreFrom_inlined_shared :
    shared.inlined [.spread "A" []] =
      [.inline (some "T") [] [
        .field ⟨none, "a", [], []⟩ [
          .inline (some "T") [] [.field ⟨none, "a", [], []⟩ [], .spread "C" []]],
        .inline (some "T") [] [.field ⟨none, "a", [], []⟩ [], .spread "C" []]]] ∧
    (shared.onTable []).scoreFrom [Estimate.flat (σ := Unit) (.int 1)] [] 0 (shared.schema.type? "T")
        (shared.inlined [.spread "A" []]) =
      shared.scoreFrom [Estimate.flat (.int 1)] [] 0 (shared.schema.type? "T") [.spread "A" []] := by
  obtain ⟨inlines, same⟩ := scoreFrom_inlined (σ := Unit) shared shared_acyclic [.spread "A" []]
  exact ⟨rfl, ((same _ inlines).2 [] (fun _ _ => rfl) _ 0 _).1⟩

end Scope

end QueryCost
