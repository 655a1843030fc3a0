import QueryCost.Proofs.ClosedSets
import QueryCost.Proofs.Expansion

/-!
# The sites of a schema

Every field that is priced is a field of a type of the schema, under its own name. So a condition on the
declarations of a schema holds at all sites that an expansion comes across.
-/
namespace QueryCost

/-- A field of a type of the schema. -/
def Schema.Has (schema : Schema) (site : Site) : Prop :=
  site.parent ∈ schema.types ∧ site.field ∈ site.parent.fields ∧ site.name = site.field.name

/-- No cost is declared, or an allowed integer with names of arguments as multipliers. -/
def Site.DeclaresInteger (allowed : Int → Prop) (site : Site) : Prop :=
  site.declaration? = .ok none ∨
  ∃ (base : Int) (names : List String),
    site.declaration? = .ok (some ⟨.num (.int base), names.map .str⟩) ∧ allowed base

/-- All costs that a schema declares are allowed integers. -/
def Schema.DeclaresIntegers (schema : Schema) (allowed : Int → Prop) : Prop :=
  ∀ t ∈ schema.types, ∀ field ∈ t.fields, Site.DeclaresInteger allowed ⟨field, field.name, t, []⟩

/-- What is declared does not depend on the arguments. -/
theorem Schema.DeclaresIntegers.site {schema : Schema} {allowed : Int → Prop}
    (declares : schema.DeclaresIntegers allowed) {site : Site} (has : schema.Has site) :
    site.DeclaresInteger allowed := by
  obtain ⟨type, field, named⟩ := has
  have declared := declares site.parent type site.field field
  unfold Site.DeclaresInteger Site.declaration? at declared ⊢
  rw [named]
  exact declared

/-- The arguments that multiply a declared cost are in the set as far as they are numbers. -/
def Site.MultipliersWithin (N : Number → Prop) (site : Site) : Prop :=
  ∀ d, site.declaration? = .ok (some d) → ∀ name, Value.str name ∈ d.multipliers →
    (site.argument name).Within N

namespace Site.MultipliersWithin

variable {N : Number → Prop} {site : Site}

theorem of_undeclared (undeclared : site.declaration? = .ok none) : site.MultipliersWithin N := by
  intro d found
  rw [undeclared] at found
  cases found

theorem of_declared {base : Value} (names : List String)
    (declared : site.declaration? = .ok (some ⟨base, names.map .str⟩))
    (arguments : ∀ name ∈ names, (site.argument name).Within N) : site.MultipliersWithin N := by
  intro d found name member
  rw [declared] at found
  cases found
  exact arguments name (by simpa using member)

end Site.MultipliersWithin

theorem Site.DeclaresInteger.within {allowed : Int → Prop} {N : Number → Prop} {site : Site}
    (declares : site.DeclaresInteger allowed) (bases : ∀ n, allowed n → N (.int n))
    (arguments : site.MultipliersWithin N) : site.DeclaresWithin N := by
  obtain undeclared | ⟨base, names, declared, inside⟩ := declares
  · exact .inl undeclared
  · refine .inr ⟨.int base, names, declared, bases base inside, ?_⟩
    intro name member
    exact arguments _ declared name (List.mem_map_of_mem member)

namespace Scope

open Visit (fields fieldsAll)

variable {scope : Scope}

/-- A type of the schema, if it is one at all. -/
def Known (scope : Scope) (parent : Option TypeDef) : Prop :=
  ∀ t, parent = some t → t ∈ scope.schema.types

theorem known_type? (name : String) : scope.Known (scope.schema.type? name) :=
  fun _ found => List.mem_of_find?_eq_some found

theorem known_root? (kind : OperationKind) : scope.Known (scope.schema.root? kind) := by
  intro t found
  obtain ⟨name, _, found⟩ := Option.bind_eq_some_iff.mp found
  exact known_type? name t found

theorem known_conditioned (condition : Option String) {parent : Option TypeDef}
    (known : scope.Known parent) : scope.Known (scope.conditioned condition parent) := by
  cases condition with
  | none => exact known
  | some name => exact known_type? name

theorem resolve?_success {parent : Option TypeDef} {name : String} {t : TypeDef} {field : FieldDef}
    (resolved : resolve? parent name = some (t, field)) :
    parent = some t ∧ t.field? name = some field := by
  cases parent with
  | none => cases resolved
  | some p =>
    by_cases composite : p.isComposite = true
    · cases found : p.field? name with
      | none => simp [resolve?, composite, found] at resolved
      | some q =>
        simp only [resolve?, composite, found, Option.bind_eq_bind, Option.bind_some, if_true,
          Option.pure_def, Option.some.injEq, Prod.mk.injEq] at resolved
        obtain ⟨rfl, rfl⟩ := resolved
        exact ⟨rfl, found⟩
    · simp [resolve?, composite] at resolved

theorem site_has {parent : Option TypeDef} (known : scope.Known parent) {head : FieldHead}
    {t : TypeDef} {field : FieldDef} (resolved : resolve? parent head.name = some (t, field)) :
    scope.schema.Has (scope.site t field head).1 := by
  obtain ⟨rfl, found⟩ := resolve?_success resolved
  have member : field ∈ t.fields := List.mem_of_find?_eq_some found
  have named : head.name = field.name := by
    have same := List.find?_some found
    simpa using (beq_iff_eq.mp same).symm
  unfold site
  split
  · exact ⟨known t rfl, member, named⟩
  · exact ⟨known t rfl, member, named⟩

mutual

theorem fields_visit_has {spread : String → Option (List Visit)}
    (bodies : ∀ name below, spread name = some below → ∀ f ∈ fieldsAll below, scope.schema.Has f.1)
    {parent : Option TypeDef} (known : scope.Known parent) : ∀ s : Selection,
    ∀ f ∈ fields (scope.visit spread parent s), scope.schema.Has f.1
  | .field head below => by
    cases left : (exclusion scope.vars head.directives).excluded with
    | true => simp [visit, left, fields]
    | false =>
      cases resolved : resolve? parent head.name with
      | none => simp [visit, left, resolved, fields]
      | some found =>
        obtain ⟨t, field⟩ := found
        simp only [visit, left, resolved, Bool.false_eq_true, if_false, fields,
          List.forall_mem_cons]
        exact ⟨site_has known resolved, fieldsAll_visitAll_has bodies (known_type? _) below⟩
  | .inline condition directives below => by
    cases left : (exclusion scope.vars directives).excluded with
    | true => simp [visit, left, fields]
    | false =>
      simp only [visit, left, Bool.false_eq_true, if_false, fields]
      exact fieldsAll_visitAll_has bodies (known_conditioned condition known) below
  | .spread name directives => by
    cases left : (exclusion scope.vars directives).excluded with
    | true => simp [visit, left, fields]
    | false =>
      cases body : spread name with
      | none => simp [visit, left, body, fields]
      | some below =>
        simp only [visit, left, body, Bool.false_eq_true, if_false, fields]
        exact bodies name below body

theorem fieldsAll_visitAll_has {spread : String → Option (List Visit)}
    (bodies : ∀ name below, spread name = some below → ∀ f ∈ fieldsAll below, scope.schema.Has f.1)
    {parent : Option TypeDef} (known : scope.Known parent) : ∀ selections : List Selection,
    ∀ f ∈ fieldsAll (scope.visitAll spread parent selections), scope.schema.Has f.1
  | [] => by simp [visitAll, fieldsAll]
  | s :: rest => by
    simp only [visitAll, fieldsAll, List.forall_mem_append]
    exact ⟨fields_visit_has bodies known s, fieldsAll_visitAll_has bodies known rest⟩

end

/-- All sites of an expansion are in the schema. -/
theorem fieldsAll_expand_has {parent : Option TypeDef} (known : scope.Known parent)
    (path : List String) (selections : List Selection) :
    ∀ f ∈ fieldsAll (scope.expand path parent selections), scope.schema.Has f.1 := by
  unfold expand
  generalize scope.fragments.length = budget
  induction budget generalizing path parent selections with
  | zero => exact fieldsAll_visitAll_has (by simp) known selections
  | succ budget ih =>
    rw [expandWithin_succ]
    apply fieldsAll_visitAll_has _ known
    intro name below body
    unfold spreadWith at body
    split at body
    · cases body
    · obtain ⟨fragment, _, rfl⟩ := Option.map_eq_some_iff.mp body
      exact ih (known_type? _) _ _

end Scope

end QueryCost
