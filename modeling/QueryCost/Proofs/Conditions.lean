import QueryCost.Proofs.Variables

/-!
# Conditions that count

A selection is left out by a Boolean and by nothing else. Variables are handed to a directive as they are, and
if they do not fit their declarations these are the raw values that a client sent, so any value can stand
where a condition is expected. `Condition.Means` is the reading of a directive in terms of what is written:
the first directive of the name counts, of its conditions the last one, and this has a value if it is a
Boolean literal or a variable that has one. What cannot be read so is ignored with a notice, and
the other directive decides alone.
-/
namespace QueryCost

/-- The literal that a directive has for an argument; of several for one name the last counts. -/
def Directive.Gives (d : Directive) (name : String) (literal : Literal) : Prop :=
  ∃ before after, d.args = before ++ (name, literal) :: after ∧ ∀ a ∈ after, a.1 ≠ name

/-- The directive is the first of a name. -/
def Directive.First (d : Directive) (name : String) (directives : List Directive) : Prop :=
  ∃ before after, directives = before ++ d :: after ∧ d.name = name ∧ ∀ e ∈ before, e.name ≠ name

/-- What a condition stands for. A variable needs a value that is not null. -/
inductive Literal.Resolves (vars : Entries) : Literal → Value → Prop
  | bool (b : Bool) : Resolves vars (.bool b) (.bool b)
  | var {name : String} {v : Value} (present : Entries.get? vars name = some v)
      (notNull : v ≠ .null) (defined : v ≠ .undefined) : Resolves vars (.var name) v

/-- The first directive of a name has a condition that stands for a value. -/
def Condition.Means (vars : Entries) (name : String) (directives : List Directive) (v : Value) : Prop :=
  ∃ d literal, Directive.First d name directives ∧ d.Gives "if" literal ∧ literal.Resolves vars v

theorem Directive.gives_iff {d : Directive} {name : String} {literal : Literal} :
    d.Gives name literal ↔ givenArgument? d.args name = some literal := by
  unfold Gives givenArgument?
  rw [Option.map_eq_some_iff]
  constructor
  · rintro ⟨before, after, args, later⟩
    refine ⟨(name, literal), ?_, rfl⟩
    rw [List.find?_eq_some_iff_append]
    refine ⟨by simp, after.reverse, before.reverse, by simp [args], ?_⟩
    intro a member
    simpa using later a (by simpa using member)
  · rintro ⟨a, found, rfl⟩
    obtain ⟨named, after, before, args, later⟩ := List.find?_eq_some_iff_append.mp found
    have named : a.1 = name := by simpa using named
    refine ⟨before.reverse, after.reverse, ?_, ?_⟩
    · rw [← List.reverse_reverse d.args, args, ← named]
      simp
    · intro other member
      simpa using later other (by simpa using member)

theorem Directive.first_iff {d : Directive} {name : String} {directives : List Directive} :
    d.First name directives ↔ directives.find? (·.name == name) = some d := by
  unfold First
  rw [List.find?_eq_some_iff_append]
  constructor
  · rintro ⟨before, after, whole, named, others⟩
    exact ⟨by simpa using named, before, after, whole, fun e member => by simpa using others e member⟩
  · rintro ⟨named, before, after, whole, others⟩
    exact ⟨before, after, whole, by simpa using named, fun e member => by simpa using others e member⟩

namespace Literal

variable {vars : Entries} {literal : Literal} {v : Value}

/-- A variable that has a value is read as this value. -/
theorem variableValue?_required {name : String} {inner : TypeRef} :
    variableValue? vars (.nonNull inner) name = some v ↔
      Entries.get? vars name = some v ∧ v ≠ .null ∧ v ≠ .undefined := by
  unfold variableValue?
  cases Entries.get? vars name with
  | none => simp
  | some w =>
    constructor
    · intro read
      cases w <;> simp [Value.isNull, TypeRef.isNonNull] at read
      all_goals
        subst read
        exact ⟨rfl, nofun, nofun⟩
    · rintro ⟨same, notNull, defined⟩
      cases same
      cases v with
      | null => exact absurd rfl notNull
      | undefined => exact absurd rfl defined
      | _ => rfl

/-- Of the other literals only Booleans are conditions. -/
theorem value?_condition (constant : ∀ name, literal ≠ .var name) :
    literal.value? Condition.types vars Schema.Standard.condition.type = some v ↔
      literal.Resolves vars v := by
  have body : Condition.types.body? Schema.Standard.condition.type.base = some (.scalar .boolean) := rfl
  have named : Condition.types.body? "Boolean" = some (.scalar .boolean) := rfl
  have leaf : Schema.Standard.condition.type.nullable = .named "Boolean" := rfl
  have strict : Schema.Standard.condition.type.isNonNull = true := rfl
  constructor
  · intro read
    cases literal with
    | var name => exact absurd rfl (constant name)
    | bool b =>
      have same : Value.bool b = v := Option.some.inj read
      subst same
      exact .bool b
    | null => simp [value?, strict] at read
    | list items => simp [value?, leaf, named, leafValue?, scalarValue?] at read
    | _ => simp [value?, body, leafValue?, scalarValue?] at read
  · intro resolves
    cases resolves with
    | bool b => rfl
    | var present notNull defined => exact absurd rfl (constant _)

theorem Resolves.unique {w : Value} (first : literal.Resolves vars v)
    (second : literal.Resolves vars w) : v = w := by
  cases first with
  | bool b =>
    cases second
    rfl
  | var present notNull defined =>
    cases second with
    | var present' _ _ => exact Option.some.inj (present.symm.trans present')

end Literal

namespace Condition

variable {vars : Entries} {name : String} {directives : List Directive}

theorem read?_eq_some {given : List (String × Literal)} {literal : Literal} {entries : Entries}
    (present : givenArgument? given "if" = some literal) :
    Schema.Standard.condition.read? types vars given [] = some entries ↔
      ∃ v, literal.Resolves vars v ∧ [("if", v)] = entries := by
  have named : givenArgument? given Schema.Standard.condition.name = some literal := present
  by_cases constant : ∀ other, literal ≠ .var other
  · have read : Schema.Standard.condition.read? types vars given [] =
        (literal.value? types vars Schema.Standard.condition.type).map fun v => [("if", v)] := by
      unfold ArgDef.read?
      rw [named]
      cases literal with
      | var other => exact absurd rfl (constant other)
      | _ => rfl
    simp only [read, Option.map_eq_some_iff, Literal.value?_condition constant]
  · push Not at constant
    obtain ⟨other, rfl⟩ := constant
    have read : Schema.Standard.condition.read? types vars given [] =
        (Literal.variableValue? vars Schema.Standard.condition.type other).map
          fun v => [("if", v)] := by
      unfold ArgDef.read?
      simp only [named, Entries.contains_eq_isSome]
      cases bound : Entries.get? vars other with
      | none => simp [Literal.variableValue?, bound, ArgDef.absent, Schema.Standard.condition,
          Schema.Standard.required, TypeRef.isNonNull]
      | some v => rfl
    rw [read, Option.map_eq_some_iff]
    constructor
    · rintro ⟨v, valued, rfl⟩
      obtain ⟨bound, notNull, defined⟩ := Literal.variableValue?_required.mp valued
      exact ⟨v, .var bound notNull defined, rfl⟩
    · rintro ⟨v, resolves, rfl⟩
      cases resolves with
      | var bound notNull defined =>
        exact ⟨v, Literal.variableValue?_required.mpr ⟨bound, notNull, defined⟩, rfl⟩

/-- The arguments of a directive can be read exactly if its condition stands for a value. -/
theorem argumentValues?_eq_some {d : Directive} {entries : Entries} :
    argumentValues? types [Schema.Standard.condition] d.args vars = some entries ↔
      ∃ literal v, d.Gives "if" literal ∧ literal.Resolves vars v ∧ [("if", v)] = entries := by
  have single : argumentValues? types [Schema.Standard.condition] d.args vars =
      Schema.Standard.condition.read? types vars d.args [] := by
    simp [argumentValues?]
  simp only [single, Directive.gives_iff]
  cases present : givenArgument? d.args "if" with
  | none =>
    have absent : Schema.Standard.condition.read? types vars d.args [] = none := by
      have named : givenArgument? d.args Schema.Standard.condition.name = none := present
      unfold ArgDef.read?
      rw [named]
      rfl
    simp [absent]
  | some literal => simp [read?_eq_some present]

/-- A directive is not there, or its condition stands for a value, or it is noticed as unfit. -/
theorem find_cases (vars : Entries) (name : String) (directives : List Directive) :
    ((∀ d, ¬ Directive.First d name directives) ∧ find vars name directives = .silent) ∨
    ((∃ d, Directive.First d name directives) ∧ (∀ v, ¬ Means vars name directives v) ∧
      find vars name directives = .unfit) ∨
    ∃ v, Means vars name directives v ∧ find vars name directives = .holds v := by
  unfold find Means
  simp only [Directive.first_iff]
  cases directives.find? (·.name == name) with
  | none => exact .inl ⟨by rintro d ⟨⟩, rfl⟩
  | some d =>
    right
    cases read : argumentValues? types [Schema.Standard.condition] d.args vars with
    | none =>
      refine .inl ⟨⟨d, rfl⟩, ?_, by simp only [read]⟩
      rintro v ⟨_, literal, ⟨⟩, gives, resolves⟩
      have readable := argumentValues?_eq_some.mpr ⟨literal, v, gives, resolves, rfl⟩
      rw [read] at readable
      cases readable
    | some entries =>
      obtain ⟨literal, v, gives, resolves, rfl⟩ := argumentValues?_eq_some.mp read
      exact .inr ⟨v, ⟨d, literal, rfl, gives, resolves⟩, by simp only [read]; rfl⟩

theorem Means.unique {v w : Value} (first : Means vars name directives v)
    (second : Means vars name directives w) : v = w := by
  obtain ⟨d, literal, foremost, gives, resolves⟩ := first
  obtain ⟨d', literal', foremost', gives', resolves'⟩ := second
  rw [Directive.first_iff] at foremost foremost'
  obtain rfl := Option.some.inj (foremost.symm.trans foremost')
  rw [Directive.gives_iff] at gives gives'
  obtain rfl := Option.some.inj (gives.symm.trans gives')
  exact resolves.unique resolves'

theorem isBool_find {b : Bool} :
    (find vars name directives).isBool b = true ↔ Means vars name directives (.bool b) := by
  obtain ⟨absent, found⟩ | ⟨-, unread, found⟩ | ⟨v, means, found⟩ := find_cases vars name directives
  · rw [found]
    refine ⟨nofun, ?_⟩
    rintro ⟨d, _, first, -⟩
    exact absurd first (absent d)
  · rw [found]
    exact ⟨nofun, fun means => absurd means (unread _)⟩
  · rw [found]
    constructor
    · intro counts
      cases v with
      | bool c =>
        have same : b = c := by simpa [isBool] using counts
        rwa [same]
      | _ => cases counts
    · intro genuine
      rw [means.unique genuine]
      simp [isBool]

/-- A directive is noticed if it is there and its condition has no value. -/
def Unfit (vars : Entries) (name : String) (directives : List Directive) : Prop :=
  (∃ d, Directive.First d name directives) ∧ ∀ v, ¬ Means vars name directives v

/-- There is at most the one notice, and exactly if the directive is unfit. -/
theorem notices_find (vars : Entries) (name : String) (directives : List Directive) :
    ((find vars name directives).notices name).Sublist [.directive name] ∧
    ∀ label, .directive label ∈ (find vars name directives).notices name ↔
      label = name ∧ Unfit vars name directives := by
  obtain ⟨absent, found⟩ | ⟨present, unread, found⟩ | ⟨v, means, found⟩ :=
    find_cases vars name directives
  · have fit : ¬ Unfit vars name directives := fun unfit => unfit.1.elim absent
    simp [found, notices, fit]
  · have unfit : Unfit vars name directives := ⟨present, unread⟩
    simp [found, notices, unfit]
  · have fit : ¬ Unfit vars name directives := fun unfit => unfit.2 v means
    simp [found, notices, fit]

/-- A condition depends on the first directive of its name only. -/
theorem find_congr {directives' : List Directive}
    (same : ∀ d, Directive.First d name directives' ↔ Directive.First d name directives) :
    find vars name directives' = find vars name directives := by
  have first : directives'.find? (·.name == name) = directives.find? (·.name == name) := by
    ext d
    exact Directive.first_iff.symm.trans ((same d).trans Directive.first_iff)
  unfold find
  rw [first]

/-- Directives of another name can be dropped. -/
theorem find_filter_of_ne {other : String} (differ : name ≠ other) :
    find vars name (directives.filter (·.name != other)) = find vars name directives := by
  have first : (directives.filter (·.name != other)).find? (·.name == name) =
      directives.find? (·.name == name) := by
    rw [List.find?_filter]
    congr 1
    funext d
    by_cases mine : d.name = name
    · simp [mine, differ]
    · simp [mine]
  unfold find
  rw [first]

theorem find_filter_self : find vars name (directives.filter (·.name != name)) = .silent := by
  have none : (directives.filter (·.name != name)).find? (·.name == name) = none := by
    simp
  rw [find, none]

end Condition

open Condition (Means Unfit)

theorem excluded_iff_means (vars : Entries) (directives : List Directive) :
    (exclusion vars directives).excluded = true ↔
      Means vars "skip" directives (.bool true) ∨ Means vars "include" directives (.bool false) := by
  unfold exclusion
  dsimp only
  split
  next skipped => simp [Condition.isBool_find.mp skipped]
  next kept =>
    rw [Condition.isBool_find] at kept
    simp [kept, Condition.isBool_find]

/-- Without a Boolean for its condition a directive is as good as absent. -/
theorem excluded_filter {vars : Entries} {name : String} {directives : List Directive}
    (none : ∀ b, ¬ Means vars name directives (.bool b)) :
    (exclusion vars (directives.filter (·.name != name))).excluded =
      (exclusion vars directives).excluded := by
  have asked : ∀ other b, (Condition.find vars other (directives.filter (·.name != name))).isBool b =
      (Condition.find vars other directives).isBool b := by
    intro other b
    by_cases mine : other = name
    · subst mine
      have ignored : (Condition.find vars other directives).isBool b = false := by
        rw [← Bool.not_eq_true, Condition.isBool_find]
        exact none b
      rw [Condition.find_filter_self, ignored]
      rfl
    · rw [Condition.find_filter_of_ne mine]
  unfold exclusion
  dsimp only
  rw [asked, asked]
  split <;> rfl

/-- A notice is left for each directive that is looked at and cannot be read. -/
theorem notices_exclusion (vars : Entries) (directives : List Directive) :
    (exclusion vars directives).notices.Sublist [.directive "skip", .directive "include"] ∧
    ∀ name, .directive name ∈ (exclusion vars directives).notices ↔
      (name = "skip" ∨ name = "include") ∧ Unfit vars name directives ∧
        ¬ Means vars "skip" directives (.bool true) := by
  unfold exclusion
  dsimp only
  split
  next skipped => simp [Condition.isBool_find.mp skipped]
  next kept =>
    rw [Condition.isBool_find] at kept
    have skip := Condition.notices_find vars "skip" directives
    have inclusion := Condition.notices_find vars "include" directives
    refine ⟨skip.1.append inclusion.1, fun name => ?_⟩
    rw [List.mem_append, skip.2, inclusion.2]
    constructor
    · rintro (⟨rfl, unfit⟩ | ⟨rfl, unfit⟩)
      · exact ⟨.inl rfl, unfit, kept⟩
      · exact ⟨.inr rfl, unfit, kept⟩
    · rintro ⟨rfl | rfl, unfit, -⟩
      · exact .inl ⟨rfl, unfit⟩
      · exact .inr ⟨rfl, unfit⟩

/-- What is not excluded is visited in some other way. -/
theorem Scope.visitAt_eq_excluded_iff (scope : Scope) (path : List String) (parent : Option TypeDef)
    (s : Selection) :
    (∃ notices, scope.visitAt path parent s = .excluded notices) ↔
      (exclusion scope.vars s.directives).excluded = true := by
  constructor
  · rintro ⟨notices, visited⟩
    by_contra included
    rw [Bool.not_eq_true] at included
    cases s with
    | field head below =>
      rw [Selection.directives] at included
      cases resolved : resolve? parent head.name with
      | none => simp [visitAt_unresolved path parent below included resolved] at visited
      | some found => simp [visitAt_resolved path parent below included resolved] at visited
    | inline condition directives below =>
      rw [Selection.directives] at included
      simp [visitAt_inline path parent condition below included] at visited
    | spread name directives =>
      rw [Selection.directives] at included
      simp only [visitAt, visit, included] at visited
      cases expanded : scope.spreadWith scope.expand path name <;> simp [expanded] at visited
  · intro excluded
    exact ⟨_, visitAt_excluded path parent excluded⟩

/-- A selection is removed by a Boolean and by nothing else: if the first skip directive has a condition that
stands for true, or the first include directive one that stands for false. This holds for every map of
variables, also for values as they were sent. Any other condition is ignored together with its directive,
so that the other one decides alone. Directives of other names, repetitions and the order in which
directives stand do not matter. What cannot be read ends nothing, it is noted down, and there is no
note on an include directive that is not looked at. -/
theorem removed_iff_genuine_boolean (scope : Scope) (s : Selection) :
    ((exclusion scope.vars s.directives).excluded = true ↔
      Means scope.vars "skip" s.directives (.bool true) ∨
        Means scope.vars "include" s.directives (.bool false)) ∧
    (∀ path parent, (∃ notices, scope.visitAt path parent s = .excluded notices) ↔
      (exclusion scope.vars s.directives).excluded = true) ∧
    (∀ name, (∀ b, ¬ Means scope.vars name s.directives (.bool b)) →
      (exclusion scope.vars (s.directives.filter (·.name != name))).excluded =
        (exclusion scope.vars s.directives).excluded) ∧
    (∀ directives, (∀ name, name = "skip" ∨ name = "include" → ∀ d,
        (Directive.First d name directives ↔ Directive.First d name s.directives)) →
      exclusion scope.vars directives = exclusion scope.vars s.directives) ∧
    (exclusion scope.vars s.directives).notices.Sublist [.directive "skip", .directive "include"] ∧
    ∀ name, .directive name ∈ (exclusion scope.vars s.directives).notices ↔
      (name = "skip" ∨ name = "include") ∧ Unfit scope.vars name s.directives ∧
        ¬ Means scope.vars "skip" s.directives (.bool true) := by
  refine ⟨excluded_iff_means _ _, ?_, fun name none => excluded_filter none, ?_,
    notices_exclusion _ _⟩
  · intro path parent
    exact scope.visitAt_eq_excluded_iff path parent s
  · intro directives same
    have skip := @Condition.find_congr scope.vars _ _ directives (same "skip" (.inl rfl))
    have inclusion := @Condition.find_congr scope.vars _ _ directives (same "include" (.inr rfl))
    unfold exclusion
    rw [skip, inclusion]

/-- A field under a skip directive with a number, an include directive with false, and once more a skip
directive with true. -/
def doubtful : Selection :=
  .field ⟨none, "a", [], [⟨"cached", []⟩, ⟨"skip", [("if", .bool true), ("if", .var "n")]⟩,
    ⟨"include", [("if", .var "b")]⟩, ⟨"skip", [("if", .bool true)]⟩]⟩ []

/-- The variables as they were sent. -/
def sentRaw : Scope := ⟨⟨[], none, none, none, []⟩, [], [("n", .int 1), ("b", .bool false)]⟩

/-- The number is no Boolean, so the include directive decides. -/
theorem removed_iff_genuine_boolean_doubtful :
    Means sentRaw.vars "skip" doubtful.directives (.int 1) ∧
    (∀ b, ¬ Means sentRaw.vars "skip" doubtful.directives (.bool b)) ∧
    (exclusion sentRaw.vars doubtful.directives).excluded = true ∧
    (exclusion sentRaw.vars (doubtful.directives.filter (·.name != "skip"))).excluded = true := by
  have number : Means sentRaw.vars "skip" doubtful.directives (.int 1) :=
    ⟨⟨"skip", [("if", .bool true), ("if", .var "n")]⟩, .var "n", Directive.first_iff.mpr rfl,
      Directive.gives_iff.mpr rfl, .var rfl nofun nofun⟩
  have other : ∀ b, ¬ Means sentRaw.vars "skip" doubtful.directives (.bool b) :=
    fun b genuine => by cases number.unique genuine
  have refused : Means sentRaw.vars "include" doubtful.directives (.bool false) :=
    ⟨⟨"include", [("if", .var "b")]⟩, .var "b", Directive.first_iff.mpr rfl,
      Directive.gives_iff.mpr rfl, .var rfl nofun nofun⟩
  obtain ⟨removed, -, ignored, -⟩ := removed_iff_genuine_boolean sentRaw doubtful
  have gone := removed.mpr (.inr refused)
  exact ⟨number, other, gone, (ignored "skip" other).trans gone⟩

end QueryCost
