import Mathlib.Logic.Relation
import QueryCost.Proofs.Expansion

/-!
# Nested selection sets

A frame is a selection set as a walk enters it: with the fragments on the path and the type that is
selected on. `Calls` relates a frame to the frames that are entered from it. A field or an inline
fragment keeps the path and goes to a smaller selection set; a spread goes to a body of any size, but
leaves one fragment less to expand. So the pair of both decreases in lexicographic order
(`Calls.measure_lex`), and `rank` is a single number that decreases along with it.
-/
namespace QueryCost

namespace Selection

theorem sizeAll_lt_cons (s : Selection) (rest : List Selection) :
    sizeAll rest < sizeAll (s :: rest) := by
  have positive : 0 < s.size := by
    cases s <;> simp only [size] <;> omega
  rw [sizeAll]
  omega

theorem size_le_sizeAll {s : Selection} {selections : List Selection} (member : s ∈ selections) :
    s.size ≤ sizeAll selections := by
  induction selections with
  | nil => cases member
  | cons first rest ih =>
    rw [sizeAll]
    rcases List.mem_cons.mp member with rfl | later
    · omega
    · have tail := ih later
      omega

theorem sizeAll_lt_of_field {head : FieldHead} {below selections : List Selection}
    (member : .field head below ∈ selections) : sizeAll below < sizeAll selections := by
  have whole := size_le_sizeAll member
  rw [size] at whole
  omega

theorem sizeAll_lt_of_inline {condition : Option String} {directives : List Directive}
    {below selections : List Selection} (member : .inline condition directives below ∈ selections) :
    sizeAll below < sizeAll selections := by
  have whole := size_le_sizeAll member
  rw [size] at whole
  omega

end Selection

/-- A selection set as it is entered. -/
structure Frame where
  path : List String
  parent : Option TypeDef
  selections : List Selection

namespace Scope

/-- The frames that are entered directly from a frame. Excluded selections, fields without a type,
fragments on the path and unknown fragments lead nowhere. -/
inductive Calls (scope : Scope) (f : Frame) : Frame → Prop
  | field (head : FieldHead) (selections : List Selection) (t : TypeDef) (field : FieldDef)
      (member : .field head selections ∈ f.selections)
      (included : (exclusion scope.vars head.directives).excluded = false)
      (resolved : resolve? f.parent head.name = some (t, field)) (nonempty : selections ≠ []) :
      Calls scope f ⟨f.path, scope.schema.type? field.type.base, selections⟩
  | inline (condition : Option String) (directives : List Directive) (selections : List Selection)
      (member : .inline condition directives selections ∈ f.selections)
      (included : (exclusion scope.vars directives).excluded = false) :
      Calls scope f ⟨f.path, scope.conditioned condition f.parent, selections⟩
  | spread (name : String) (directives : List Directive) (body : Fragment)
      (member : .spread name directives ∈ f.selections)
      (included : (exclusion scope.vars directives).excluded = false)
      (fresh : name ∉ f.path) (defined : scope.fragment? name = some body) :
      Calls scope f ⟨name :: f.path, scope.schema.type? body.condition, body.selections⟩

/-- The fragments that are left to expand, and the size of the selection set. -/
def measure (scope : Scope) (f : Frame) : Nat × Nat :=
  (scope.unexpanded f.path, Selection.sizeAll f.selections)

/-- The size of the largest fragment body. -/
def largestBody (scope : Scope) : Nat :=
  (scope.fragments.map fun f => Selection.sizeAll f.selections).max?.getD 0

/-- A bound on how deep frames nest below a frame. -/
def rank (scope : Scope) (f : Frame) : Nat :=
  scope.unexpanded f.path * (scope.largestBody + 1) + Selection.sizeAll f.selections

variable {scope : Scope}

theorem sizeAll_le_largestBody {name : String} {body : Fragment}
    (defined : scope.fragment? name = some body) :
    Selection.sizeAll body.selections ≤ scope.largestBody := by
  obtain ⟨member, _⟩ := fragment?_some defined
  exact List.le_max?_getD_of_mem (List.mem_map.mpr ⟨body, member, rfl⟩)

namespace Calls

variable {f g : Frame}

/-- Every call decreases the measure in lexicographic order. -/
theorem measure_lex (call : scope.Calls f g) :
    Prod.Lex (· < ·) (· < ·) (scope.measure g) (scope.measure f) := by
  cases call with
  | field head selections t field member included resolved nonempty =>
    exact .right _ (Selection.sizeAll_lt_of_field member)
  | inline condition directives selections member included =>
    exact .right _ (Selection.sizeAll_lt_of_inline member)
  | spread name directives body member included fresh defined =>
    exact .left _ _ (unexpanded_cons_lt fresh defined)

theorem rank_lt (call : scope.Calls f g) : scope.rank g < scope.rank f := by
  unfold rank
  cases call with
  | field head selections t field member included resolved nonempty =>
    exact Nat.add_lt_add_left (Selection.sizeAll_lt_of_field member) _
  | inline condition directives selections member included =>
    exact Nat.add_lt_add_left (Selection.sizeAll_lt_of_inline member) _
  | spread name directives body member included fresh defined =>
    -- One fragment less pays for any body, since none is larger than `largestBody`.
    have less := unexpanded_cons_lt fresh defined
    have small := sizeAll_le_largestBody defined
    calc
      scope.unexpanded (name :: f.path) * (scope.largestBody + 1) +
          Selection.sizeAll body.selections
        < scope.unexpanded (name :: f.path) * (scope.largestBody + 1) +
          (scope.largestBody + 1) := by omega
      _ = (scope.unexpanded (name :: f.path) + 1) * (scope.largestBody + 1) :=
        (Nat.succ_mul _ _).symm
      _ ≤ scope.unexpanded f.path * (scope.largestBody + 1) := Nat.mul_le_mul_right _ less
      _ ≤ scope.unexpanded f.path * (scope.largestBody + 1) + Selection.sizeAll f.selections :=
        Nat.le_add_right _ _

/-- The path is kept, or gets longer by one defined fragment that was not on it. -/
theorem path_cases (call : scope.Calls f g) :
    g.path = f.path ∨
      ∃ name, g.path = name :: f.path ∧ name ∉ f.path ∧ (scope.fragment? name).isSome := by
  cases call with
  | field head selections t field member included resolved nonempty => exact Or.inl rfl
  | inline condition directives selections member included => exact Or.inl rfl
  | spread name directives body member included fresh defined =>
    exact Or.inr ⟨name, rfl, fresh, by simp [defined]⟩

/-- Along a chain of calls the fragments being expanded are distinct and defined. -/
theorem chain_path (chain : Relation.ReflTransGen scope.Calls f g) :
    ∃ names, g.path = names ++ f.path ∧ names.Nodup ∧
      ∀ name ∈ names, name ∉ f.path ∧ (scope.fragment? name).isSome := by
  induction chain with
  | refl => exact ⟨[], rfl, List.nodup_nil, by simp⟩
  | tail _ call ih =>
    obtain ⟨names, path, distinct, defined⟩ := ih
    rcases call.path_cases with same | ⟨name, longer, fresh, known⟩
    · exact ⟨names, same.trans path, distinct, defined⟩
    · rw [path, List.mem_append, not_or] at fresh
      refine ⟨name :: names, by rw [longer, path]; rfl, List.nodup_cons.mpr ⟨fresh.1, distinct⟩, ?_⟩
      intro other member
      rcases List.mem_cons.mp member with rfl | old
      · exact ⟨fresh.2, known⟩
      · exact defined other old

end Calls

end Scope

end QueryCost
