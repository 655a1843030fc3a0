import Mathlib.Data.Finset.Card
import Mathlib.Data.Finset.SDiff
import QueryCost.Visit.Expansion

/-!
# Expansion without a budget

The expansion of selections nests at most as many spreads as there are fragments. This module shows
that the limit is never felt: a fragment on the path is not expanded again, so every nested spread
uses up one of the fragments that are left (`unexpanded_cons_lt`), and a larger budget than these
changes nothing (`expandWithin_eq_expand`). From here on `expand` is known by its equations alone: it
visits each selection on its own, and each kind of selection has one lemma.
-/
namespace QueryCost.Scope

variable (scope : Scope)

/-- Number of fragments, by name, that are not on a path. -/
def unexpanded (path : List String) : Nat :=
  ((scope.fragments.map (·.name)).toFinset \ path.toFinset).card

theorem unexpanded_le (path : List String) : scope.unexpanded path ≤ scope.fragments.length := by
  calc
    scope.unexpanded path ≤ (scope.fragments.map (·.name)).toFinset.card :=
      Finset.card_le_card Finset.sdiff_subset
    _ ≤ (scope.fragments.map (·.name)).length := List.toFinset_card_le _
    _ = scope.fragments.length := List.length_map _

variable {scope}

theorem fragment?_some {name : String} {f : Fragment} (defined : scope.fragment? name = some f) :
    f ∈ scope.fragments ∧ f.name = name := by
  have member := List.mem_of_find?_eq_some defined
  have named := List.find?_some defined
  exact ⟨by simpa using member, by simpa using named⟩

/-- A fragment that is put on the path is one less to expand. -/
theorem unexpanded_cons_lt {path : List String} {name : String} {f : Fragment}
    (fresh : name ∉ path) (defined : scope.fragment? name = some f) :
    scope.unexpanded (name :: path) < scope.unexpanded path := by
  obtain ⟨member, rfl⟩ := fragment?_some defined
  unfold unexpanded
  rw [List.toFinset_cons, Finset.sdiff_insert]
  apply Finset.card_erase_lt_of_mem
  rw [Finset.mem_sdiff]
  exact ⟨by simpa using ⟨f, member, rfl⟩, by simpa using fresh⟩

/-- What a spread of a fragment leads to below a path, with `body` for the expansion of fragments. -/
def spreadWith (scope : Scope) (body : List String → Option TypeDef → List Selection → List Visit)
    (path : List String) (name : String) : Option (List Visit) :=
  if path.contains name then none
  else (scope.fragment? name).map fun f =>
    body (name :: path) (scope.schema.type? f.condition) f.selections

theorem expandWithin_succ (budget : Nat) (path : List String) (parent : Option TypeDef)
    (selections : List Selection) :
    scope.expandWithin (budget + 1) path parent selections =
      scope.visitAll (scope.spreadWith (scope.expandWithin budget) path) parent selections := rfl

/-- Spreads only lead to paths with fewer fragments left. -/
theorem spreadWith_congr {body body' : List String → Option TypeDef → List Selection → List Visit}
    {path : List String}
    (same : ∀ name parent selections, scope.unexpanded (name :: path) < scope.unexpanded path →
      body (name :: path) parent selections = body' (name :: path) parent selections) :
    scope.spreadWith body path = scope.spreadWith body' path := by
  funext name
  unfold spreadWith
  split
  · rfl
  next fresh =>
    cases defined : scope.fragment? name with
    | none => rfl
    | some f =>
      have less := unexpanded_cons_lt (by simpa using fresh) defined
      simp only [Option.map_some, same name _ _ less]

theorem spreadWith_of_unexpanded (body : List String → Option TypeDef → List Selection → List Visit)
    {path : List String} (spent : scope.unexpanded path = 0) :
    scope.spreadWith body path = fun _ => none := by
  funext name
  unfold spreadWith
  split
  · rfl
  next fresh =>
    cases defined : scope.fragment? name with
    | none => rfl
    | some f =>
      have less := unexpanded_cons_lt (by simpa using fresh) defined
      omega

/-- One more than enough is as good as enough. -/
theorem expandWithin_step {budget : Nat} {path : List String}
    (enough : scope.unexpanded path ≤ budget) (parent : Option TypeDef)
    (selections : List Selection) :
    scope.expandWithin (budget + 1) path parent selections =
      scope.expandWithin budget path parent selections := by
  induction budget generalizing path parent selections with
  | zero =>
    rw [expandWithin_succ, spreadWith_of_unexpanded _ (by omega)]
    rfl
  | succ budget ih =>
    rw [expandWithin_succ, expandWithin_succ budget, spreadWith_congr]
    intro name parent selections less
    exact ih (by omega) parent selections

theorem expandWithin_eq_of_le {budget budget' : Nat} {path : List String}
    (enough : scope.unexpanded path ≤ budget) (more : budget ≤ budget') (parent : Option TypeDef)
    (selections : List Selection) :
    scope.expandWithin budget' path parent selections =
      scope.expandWithin budget path parent selections := by
  induction more with
  | refl => rfl
  | step more ih => rw [expandWithin_step (Nat.le_trans enough more), ih]

/-- Every budget that covers the fragments not on the path gives the full expansion. -/
theorem expandWithin_eq_expand {budget : Nat} {path : List String}
    (enough : scope.unexpanded path ≤ budget) (parent : Option TypeDef)
    (selections : List Selection) :
    scope.expandWithin budget path parent selections = scope.expand path parent selections := by
  rcases Nat.le_total budget scope.fragments.length with less | more
  · exact (expandWithin_eq_of_le enough less parent selections).symm
  · exact expandWithin_eq_of_le (scope.unexpanded_le path) more parent selections

/-- The visit of one selection below a path. -/
def visitAt (scope : Scope) (path : List String) (parent : Option TypeDef) (s : Selection) : Visit :=
  scope.visit (scope.spreadWith scope.expand path) parent s

/-- Expansion needs no budget: a spread leads to the expansion of its fragment. -/
theorem expand_eq_visitAll (path : List String) (parent : Option TypeDef)
    (selections : List Selection) :
    scope.expand path parent selections =
      scope.visitAll (scope.spreadWith scope.expand path) parent selections := by
  have more := expandWithin_step (scope.unexpanded_le path) parent selections
  rw [expand, ← more, expandWithin_succ, spreadWith_congr]
  intro name parent selections _
  exact expandWithin_eq_expand (scope.unexpanded_le _) parent selections

@[simp] theorem expand_nil (path : List String) (parent : Option TypeDef) :
    scope.expand path parent [] = [] := by
  rw [expand_eq_visitAll, visitAll]

@[simp] theorem expand_cons (path : List String) (parent : Option TypeDef) (s : Selection)
    (rest : List Selection) :
    scope.expand path parent (s :: rest) =
      scope.visitAt path parent s :: scope.expand path parent rest := by
  rw [expand_eq_visitAll, visitAll, ← expand_eq_visitAll, visitAt]

section VisitAt

variable (path : List String) (parent : Option TypeDef)

/-- What its directives exclude is not looked into, whatever it is. -/
theorem visitAt_excluded {s : Selection}
    (excluded : (exclusion scope.vars s.directives).excluded = true) :
    scope.visitAt path parent s = .excluded (exclusion scope.vars s.directives).notices := by
  cases s with
  | field head selections =>
    rw [Selection.directives] at excluded ⊢
    simp [visitAt, visit, excluded]
  | inline condition directives selections =>
    rw [Selection.directives] at excluded ⊢
    simp [visitAt, visit, excluded]
  | spread name directives =>
    rw [Selection.directives] at excluded ⊢
    simp [visitAt, visit, excluded]

theorem visitAt_unresolved {head : FieldHead} (selections : List Selection)
    (included : (exclusion scope.vars head.directives).excluded = false)
    (unresolved : resolve? parent head.name = none) :
    scope.visitAt path parent (.field head selections) =
      .unresolved (exclusion scope.vars head.directives).notices := by
  simp [visitAt, visit, included, unresolved]

theorem visitAt_resolved {head : FieldHead} (selections : List Selection) {t : TypeDef}
    {field : FieldDef} (included : (exclusion scope.vars head.directives).excluded = false)
    (resolved : resolve? parent head.name = some (t, field)) :
    scope.visitAt path parent (.field head selections) =
      .field ((exclusion scope.vars head.directives).notices ++ (scope.site t field head).2)
        (scope.site t field head).1
        (scope.expand path (scope.schema.type? field.type.base) selections) := by
  simp [visitAt, visit, included, resolved, expand_eq_visitAll]

theorem visitAt_inline (condition : Option String) {directives : List Directive}
    (selections : List Selection)
    (included : (exclusion scope.vars directives).excluded = false) :
    scope.visitAt path parent (.inline condition directives selections) =
      .group (exclusion scope.vars directives).notices
        (scope.expand path (scope.conditioned condition parent) selections) := by
  simp [visitAt, visit, included, expand_eq_visitAll]

theorem visitAt_onPath {name : String} {directives : List Directive}
    (included : (exclusion scope.vars directives).excluded = false) (onPath : name ∈ path) :
    scope.visitAt path parent (.spread name directives) =
      .unexpanded (exclusion scope.vars directives).notices := by
  simp [visitAt, visit, included, spreadWith, onPath]

theorem visitAt_undefined {name : String} {directives : List Directive}
    (included : (exclusion scope.vars directives).excluded = false)
    (undefined : scope.fragment? name = none) :
    scope.visitAt path parent (.spread name directives) =
      .unexpanded (exclusion scope.vars directives).notices := by
  simp [visitAt, visit, included, spreadWith, undefined]

theorem visitAt_expanded {name : String} {directives : List Directive} {body : Fragment}
    (included : (exclusion scope.vars directives).excluded = false) (fresh : name ∉ path)
    (defined : scope.fragment? name = some body) :
    scope.visitAt path parent (.spread name directives) =
      .group (exclusion scope.vars directives).notices
        (scope.expand (name :: path) (scope.schema.type? body.condition) body.selections) := by
  simp [visitAt, visit, included, spreadWith, fresh, defined]

end VisitAt

end QueryCost.Scope
