import QueryCost.Proofs.Substitution

/-!
# Variables and constants are priced alike

A variable is read once, at the type that it is declared with, and its value is then taken as it is wherever
it is used. A literal is read where it stands. For whole numbers and Booleans both lead to the same value,
so a client gains nothing by the choice.

`Selection.Replaceable` says where the variable may stand: as the whole of an argument, which has the same
scalar type if it is defined. There the literal has the value of the variable (`Constant.literal_value?`),
since a value that does not fit the literal does not fit the variable either (`Constant.fits_of_reading?`).
Everywhere else nothing is changed. Hence the visits are the same, and everything that is computed from
them.
-/
namespace QueryCost

variable {σ : Type}

/-- A value of a variable that can be written as a literal. -/
inductive Constant where
  | int (n : Int)
  | bool (b : Bool)

namespace Constant

def scalar : Constant → Scalar
  | int _ => .int
  | bool _ => .boolean

def value : Constant → Value
  | int n => .int n
  | bool b => .bool b

def literal : Constant → Literal
  | int n => .int (toString n)
  | bool b => .bool b

/-- Integers have to have 32 bits. -/
def Fits : Constant → Prop
  | int n => int32? n = some (.int n)
  | bool _ => True

end Constant

/-- The scalar, or the scalar without null. -/
def TypeRef.IsScalar (schema : Schema) (s : Scalar) (t : TypeRef) : Prop :=
  ∃ name, t.nullable = .named name ∧ schema.body? name = some (.scalar s)

theorem TypeRef.IsScalar.cases {schema : Schema} {s : Scalar} {t : TypeRef}
    (isScalar : t.IsScalar schema s) : ∃ name, (t = .named name ∨ t = .nonNull (.named name)) ∧
      schema.body? name = some (.scalar s) := by
  obtain ⟨name, plain, body⟩ := isScalar
  cases t with
  | named other =>
    cases plain
    exact ⟨name, .inl rfl, body⟩
  | list item => cases plain
  | nonNull inner =>
    refine ⟨name, .inr ?_, body⟩
    rw [show inner = .named name from plain]

theorem TypeRef.IsScalar.body? {schema : Schema} {s : Scalar} {t : TypeRef}
    (isScalar : t.IsScalar schema s) : schema.body? t.base = some (.scalar s) := by
  obtain ⟨name, rfl | rfl, body⟩ := isScalar.cases <;> exact body

theorem TypeRef.IsScalar.wrapLists {schema : Schema} {s : Scalar} {t : TypeRef}
    (isScalar : t.IsScalar schema s) (v : Value) : wrapLists t v = v := by
  obtain ⟨name, rfl | rfl, -⟩ := isScalar.cases <;> rfl

namespace Constant

theorem intOf_toString (n : Int) : Literal.intOf (toString n) = n := by
  unfold Literal.intOf
  cases n with
  | ofNat m =>
    have text : (toString (Int.ofNat m)).toList = Nat.toDigits 10 m := Nat.toList_repr
    rw [text]
    split
    next rest signed =>
      have digit : '-'.isDigit = true :=
        Nat.isDigit_of_mem_toDigits (by decide) (by decide) (signed ▸ List.mem_cons_self)
      cases digit
    next =>
      rw [Nat.ofDigitChars_ten_toDigits]
      rfl
  | negSucc m =>
    have text : (toString (Int.negSucc m)).toList = '-' :: Nat.toDigits 10 (m + 1) := by
      rw [← Nat.toList_repr]
      exact String.toList_append
    have read : -((Nat.ofDigitChars 10 (Nat.toDigits 10 (m + 1)) 0 : Nat) : Int) = Int.negSucc m := by
      rw [Nat.ofDigitChars_ten_toDigits]
      rfl
    rw [text]
    exact read

/-- The literal is read where it stands as the value that the variable has. -/
theorem literal_value? {c : Constant} (fits : c.Fits) {schema : Schema} {t : TypeRef}
    (isScalar : t.IsScalar schema c.scalar) (vars : Entries) :
    c.literal.value? schema vars t = some c.value := by
  have body := isScalar.body?
  have unwrapped := isScalar.wrapLists c.value
  cases c with
  | int n =>
    have read : int32? (Literal.intOf (toString n)) = some (.int n) := by
      rw [intOf_toString]
      exact fits
    simp only [literal, Literal.value?, body, scalar, Literal.leafValue?, Literal.scalarValue?, read,
      Option.map_some]
    rw [← value, unwrapped]
  | bool b =>
    simp only [literal, Literal.value?, body, scalar, Literal.leafValue?, Literal.scalarValue?,
      Option.map_some]
    rw [← value, unwrapped]

theorem variableValue? {c : Constant} {vars : Entries} {name : String}
    (valued : Entries.get? vars name = some c.value) (t : TypeRef) :
    Literal.variableValue? vars t name = some c.value := by
  unfold Literal.variableValue?
  rw [valued]
  cases c <;> rfl

end Constant

/-- Wherever an argument mentions the variable, it is the variable, and if the argument is defined, it has
the scalar's type. -/
def OnlyWhole (schema : Schema) (name : String) (s : Scalar) (defs : List ArgDef)
    (given : List (String × Literal)) : Prop :=
  ∀ a ∈ given, a.2.mentions name = true →
    a.2 = .var name ∧ ∀ d ∈ defs, d.name = a.1 → d.type.IsScalar schema s

theorem givenArgument?_mem {given : List (String × Literal)} {key : String} {literal : Literal}
    (found : givenArgument? given key = some literal) : (key, literal) ∈ given := by
  obtain ⟨e, first, rfl⟩ := Option.map_eq_some_iff.mp found
  have named : e.1 = key := by simpa using List.find?_some first
  have member : e ∈ given := List.mem_reverse.mp (List.mem_of_find?_eq_some first)
  rwa [← named]

/-- The maps with the variable and without it, and the constant that takes its place. -/
structure Constant.Replaces (c : Constant) (name : String) (vars vars' : Entries) : Prop where
  fits : c.Fits
  valued : Entries.get? vars name = some c.value
  agree : Entries.AgreeOff name vars vars'

namespace Constant.Replaces

variable {c : Constant} {name : String} {vars vars' : Entries} {schema : Schema} {defs : List ArgDef}
  {given : List (String × Literal)}

theorem read? (replaces : c.Replaces name vars vars')
    (whole : OnlyWhole schema name c.scalar defs given) {d : ArgDef} (defined : d ∈ defs)
    (entries : Entries) :
    d.read? schema vars' (Literal.replaceFields name c.literal given) entries =
      d.read? schema vars given entries := by
  unfold ArgDef.read?
  rw [Literal.givenArgument?_replaceFields]
  cases found : givenArgument? given d.name with
  | none => rfl
  | some literal =>
    rw [Option.map_some]
    cases mentioned : literal.mentions name with
    | true =>
      obtain ⟨rfl, typed⟩ := whole _ (givenArgument?_mem found) mentioned
      have here : d.type.IsScalar schema c.scalar := typed d defined rfl
      have present : Entries.contains vars name = true := by
        rw [Entries.contains_eq_isSome, replaces.valued, Option.isSome_some]
      have read := literal_value? replaces.fits here vars'
      rw [Literal.replace, if_pos rfl]
      simp only [present, if_pos, variableValue? replaces.valued]
      cases c <;> simp only [literal] at read ⊢ <;> rw [read]
    | false =>
      rw [Literal.replace_of_not_mentions c.literal literal mentioned]
      have same := replaces.agree.value? schema d.type literal mentioned
      cases literal with
      | var other =>
        simp only [Entries.contains_eq_isSome, replaces.agree.var mentioned,
          replaces.agree.variableValue? d.type mentioned]
      | _ => simp only [same]

/-- All arguments have the values that they had. -/
theorem argumentValues? (replaces : c.Replaces name vars vars')
    (whole : OnlyWhole schema name c.scalar defs given) :
    QueryCost.argumentValues? schema defs (Literal.replaceFields name c.literal given) vars' =
      QueryCost.argumentValues? schema defs given vars :=
  foldlM_congr_of_mem (fun entries _ defined => replaces.read? whole defined entries) []

end Constant.Replaces

/-- Conditions of directives are Booleans. -/
def OnlyConditions (name : String) (s : Scalar) (directives : List Directive) : Prop :=
  ∀ directive ∈ directives,
    OnlyWhole Condition.types name s [Schema.Standard.condition] directive.args

namespace Selection

mutual

/-- Wherever the variable stands in a selection on a type, it is the whole of an argument of the scalar's
type. Nothing is asked of fields that the type does not have. -/
def Replaceable (schema : Schema) (name : String) (s : Scalar) (parent : Option TypeDef) :
    Selection → Prop
  | .field head below =>
    OnlyConditions name s head.directives ∧
    ∀ t field, Scope.resolve? parent head.name = some (t, field) →
      OnlyWhole schema name s field.args head.args ∧
      ReplaceableAll schema name s (schema.type? field.type.base) below
  | .inline condition directives below =>
    OnlyConditions name s directives ∧
    ReplaceableAll schema name s (condition.elim parent schema.type?) below
  | .spread _ directives => OnlyConditions name s directives

def ReplaceableAll (schema : Schema) (name : String) (s : Scalar) (parent : Option TypeDef) :
    List Selection → Prop
  | [] => True
  | selection :: rest =>
    Replaceable schema name s parent selection ∧ ReplaceableAll schema name s parent rest

end

end Selection

namespace Constant.Replaces

variable {c : Constant} {name : String} {vars vars' : Entries}

theorem find (replaces : c.Replaces name vars vars') {directives : List Directive}
    (only : OnlyConditions name c.scalar directives) (key : String) :
    Condition.find vars' key (directives.map (Directive.replace name c.literal)) =
      Condition.find vars key directives := by
  unfold Condition.find
  rw [List.find?_map]
  have named : (fun d : Directive => d.name == key) ∘ Directive.replace name c.literal =
    fun d => d.name == key := rfl
  rw [named]
  cases found : directives.find? (·.name == key) with
  | none => rfl
  | some directive =>
    have whole := only directive (List.mem_of_find?_eq_some found)
    simp only [Option.map_some, Directive.replace, replaces.argumentValues? whole]

theorem exclusion (replaces : c.Replaces name vars vars') {directives : List Directive}
    (only : OnlyConditions name c.scalar directives) :
    QueryCost.exclusion vars' (directives.map (Directive.replace name c.literal)) =
      QueryCost.exclusion vars directives := by
  unfold QueryCost.exclusion
  rw [replaces.find only, replaces.find only]

end Constant.Replaces

namespace Scope

/-- The scope in which a literal has taken the place of a variable, with the variables that are left. -/
def replace (name : String) (new : Literal) (scope : Scope) (vars' : Entries) : Scope :=
  ⟨scope.schema, scope.fragments.map (Fragment.replace name new), vars'⟩

variable {scope : Scope} {c : Constant} {name : String} {vars' : Entries}

theorem site_replace (replaces : c.Replaces name scope.vars vars') (t : TypeDef) {field : FieldDef}
    {head : FieldHead} (whole : OnlyWhole scope.schema name c.scalar field.args head.args) :
    (scope.replace name c.literal vars').site t field (head.replace name c.literal) =
      scope.site t field head := by
  simp only [site, replace, FieldHead.replace, replaces.argumentValues? whole]

theorem conditioned_eq_elim (condition : Option String) (parent : Option TypeDef) :
    scope.conditioned condition parent = condition.elim parent scope.schema.type? := by
  cases condition <;> rfl

open Selection (Replaceable ReplaceableAll)

mutual

/-- A selection has the same visit as before if spreads lead to the same. -/
theorem visit_replace (replaces : c.Replaces name scope.vars vars')
    (spread : String → Option (List Visit)) (parent : Option TypeDef) : ∀ s : Selection,
    Replaceable scope.schema name c.scalar parent s →
    (scope.replace name c.literal vars').visit spread parent (s.replace name c.literal) =
      scope.visit spread parent s
  | .field head below, replaceable => by
    rw [Replaceable] at replaceable
    have excluded : exclusion (scope.replace name c.literal vars').vars
        (head.replace name c.literal).directives = exclusion scope.vars head.directives :=
      replaces.exclusion replaceable.1
    have named : (head.replace name c.literal).name = head.name := rfl
    rw [Selection.replace, visit, visit]
    simp only [excluded, named]
    cases resolved : resolve? parent head.name with
    | none => rfl
    | some found =>
      obtain ⟨t, field⟩ := found
      obtain ⟨whole, inner⟩ := replaceable.2 t field resolved
      have inner := visitAll_replace replaces spread _ below inner
      have schema : (scope.replace name c.literal vars').schema = scope.schema := rfl
      simp only [site_replace replaces t whole, schema, inner]
  | .inline condition directives below, replaceable => by
    rw [Replaceable, ← conditioned_eq_elim] at replaceable
    have excluded : exclusion (scope.replace name c.literal vars').vars
        (directives.map (Directive.replace name c.literal)) = exclusion scope.vars directives :=
      replaces.exclusion replaceable.1
    have inner := visitAll_replace replaces spread _ below replaceable.2
    have conditioned : (scope.replace name c.literal vars').conditioned condition parent =
      scope.conditioned condition parent := rfl
    rw [Selection.replace, visit, visit]
    simp only [excluded, conditioned, inner]
  | .spread fragment directives, replaceable => by
    rw [Replaceable] at replaceable
    have excluded : exclusion (scope.replace name c.literal vars').vars
        (directives.map (Directive.replace name c.literal)) = exclusion scope.vars directives :=
      replaces.exclusion replaceable
    rw [Selection.replace, visit, visit]
    simp only [excluded]

theorem visitAll_replace (replaces : c.Replaces name scope.vars vars')
    (spread : String → Option (List Visit)) (parent : Option TypeDef) :
    ∀ selections : List Selection, ReplaceableAll scope.schema name c.scalar parent selections →
    (scope.replace name c.literal vars').visitAll spread parent
        (Selection.replaceAll name c.literal selections) =
      scope.visitAll spread parent selections
  | [], _ => by rw [Selection.replaceAll, visitAll, visitAll]
  | s :: rest, replaceable => by
    rw [ReplaceableAll] at replaceable
    rw [Selection.replaceAll, visitAll, visitAll,
      visit_replace replaces spread parent s replaceable.1,
      visitAll_replace replaces spread parent rest replaceable.2]

end

end Scope

namespace Operation

variable {c : Constant} {schema : Schema} {op : Operation} {sent vars : Entries} {var : VariableDef}

end Operation

namespace Rule

open Selection (ReplaceableAll)

variable {rule : Rule σ} {schema : Schema} {fragments : List Fragment} {op : Operation}

end Rule

end QueryCost
