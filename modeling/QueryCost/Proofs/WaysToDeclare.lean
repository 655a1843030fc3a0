import QueryCost.Proofs.Constants
import QueryCost.Proofs.MonotoneSums
import QueryCost.Proofs.Precedence

/-!
# All ways to declare a cost

A cost can be written down as a mapping or as a declaration among the extensions of a field, it can be attached
to the field, to its resolver or to an attribute of the class behind its type, or it can be a directive. Each
way is read by code of its own. `Declared` lists the ways, with the liberties that an author has: how the
multipliers are spelled, how deep a resolver is wrapped, how a literal is written. On a field that is otherwise
undeclared they all come to the same declaration, and so to the same estimates.

There is one exception. A mapping and a directive are asked whether the base is a finite number, and an
integer beyond the range of doubles faults there; a declaration is taken as it is.
-/
namespace QueryCost

/-- How the multipliers of a cost are given. -/
inductive Naming where
  | absent
  | null
  | single (name : String)
  | several (names : List String)

namespace Naming

def names : Naming → List String
  | absent => []
  | null => []
  | single name => [name]
  | several names => names

/-- What is written for the multipliers, if anything. -/
def value? : Naming → Option Value
  | absent => none
  | null => some .null
  | single name => some (.str name)
  | several names => some (.list (names.map .str))

/-- The declaration of a cost with these multipliers. -/
def declaration (m : Naming) (v : Number) : Declaration := ⟨.num v, m.names.map .str⟩

/-- The declaration is constructed from a base and these multipliers. -/
def Makes (m : Naming) (v : Number) (d : Declaration) : Prop :=
  Declaration.make (.num v) (m.value?.getD (.list [])) = .ok d

/-- Whatever stands for no multipliers, they are normalised to the list of names. -/
theorem make_eq (m : Naming) (v : Number) {unset : Value} (empty : unset = .null ∨ unset = .list []) :
    Declaration.make (.num v) (m.value?.getD unset) = .ok (m.declaration v) := by
  cases m with
  | absent => rcases empty with rfl | rfl <;> rfl
  | null => rfl
  | single name => rfl
  | several names => rfl

end Naming

namespace Literal

/-- A number as it is written in a document. Zero may have a sign. -/
inductive DenotesNumber : Literal → Number → Prop
  | int (n : Int) : DenotesNumber (.int (toString n)) (.int n)
  | negativeZero : DenotesNumber (.int "-0") (.int 0)
  | float {digits : String} {x : Binary64} (reads : Binary64.ofText? digits = some x) :
      DenotesNumber (.float digits) (.float x)

/-- A name may be written with or without quotes. -/
inductive Spells : Literal → String → Prop
  | str (text : String) (block : Bool) : Spells (.str text block) text
  | enum (name : String) : Spells (.enum name) name

/-- An argument that gives the multipliers, if there is one. -/
inductive DenotesNaming : Option Literal → Naming → Prop
  | absent : DenotesNaming none .absent
  | null : DenotesNaming (some .null) .null
  | single {literal : Literal} {name : String} (spells : literal.Spells name) :
      DenotesNaming (some literal) (.single name)
  | several {items : List Literal} {names : List String} (spell : List.Forall₂ Spells items names) :
      DenotesNaming (some (.list items)) (.several names)

theorem Spells.untyped {literal : Literal} {name : String} (spells : literal.Spells name) :
    literal.untyped [] = .str name := by
  cases spells <;> rfl

theorem DenotesNaming.value? {literal : Option Literal} {m : Naming} (denotes : DenotesNaming literal m) :
    literal.map (untyped []) = m.value? := by
  cases denotes with
  | absent => rfl
  | null => rfl
  | single spells => exact congrArg some spells.untyped
  | several spell =>
    refine congrArg (some <| Value.list ·) ?_
    induction spell with
    | nil => rfl
    | cons first _ ih => rw [untypedItems, first.untyped, ih, List.map_cons]

/-- What is read for a number. An integer that is too long is read as not a number. -/
def reading : Number → Number
  | .int n => if n.natAbs < 10 ^ digitLimit then .int n else .float .nan
  | .float x => .float x

/-- The digits of an integer are counted without its sign. -/
theorem digits_le_iff (n : Int) (limit : Nat) (positive : 0 < limit) :
    ((toString n).toList.filter (· != '-')).length ≤ limit ↔ n.natAbs < 10 ^ limit := by
  have unsigned : ∀ m : Nat, (Nat.repr m).toList.filter (· != '-') = (Nat.repr m).toList := by
    intro m
    rw [List.filter_eq_self, Nat.toList_repr]
    intro c member
    have digit : c.isDigit = true := Nat.isDigit_of_mem_toDigits (by decide) (by decide) member
    rw [bne_iff_ne]
    rintro rfl
    cases digit
  -- A negative number has the one sign that is left out of the count.
  have counted : ((toString n).toList.filter (· != '-')).length = (Nat.repr n.natAbs).length := by
    cases n with
    | ofNat m => exact congrArg List.length (unsigned m)
    | negSucc m =>
      have signed : (toString (Int.negSucc m)).toList = '-' :: (Nat.repr (m + 1)).toList :=
        String.toList_append (s := "-")
      rw [signed]
      exact congrArg List.length (unsigned (m + 1))
  rw [counted, Nat.length_repr_le_iff positive]

theorem DenotesNumber.untyped {literal : Literal} {v : Number} (denotes : literal.DenotesNumber v) :
    literal.untyped [] = .num (reading v) := by
  cases denotes with
  | int n =>
    rw [Literal.untyped, integerOf, reading, Constant.intOf_toString]
    simp only [digits_le_iff n digitLimit (by decide)]
    split <;> rfl
  | negativeZero =>
    have read : intOf "-0" = 0 := by decide +kernel
    have short : (0 : Int).natAbs < 10 ^ digitLimit := Nat.pow_pos (by decide)
    rw [Literal.untyped, integerOf, if_pos (by decide), read, reading, if_pos short]
    rfl
  | float reads =>
    rw [Literal.untyped, floatOf, reads]
    rfl

end Literal

namespace Binary64

theorem lt_of_ofInt?_isSome {n : Int} (converted : (ofInt? n).isSome = true) :
    n.natAbs * unitsOfOne < overflowUnits := by
  have limit : IsDouble overflowUnits := ⟨1, 2098, by decide, by decide +kernel⟩
  have inside : roundUnits (n.natAbs * unitsOfOne) 1 < overflowUnits := by
    unfold ofInt? at converted
    rcases round_cases (n < 0) (n.natAbs * unitsOfOne) 1 with ⟨-, inside⟩ | ⟨ends, -⟩
    · exact inside
    · rw [ends] at converted
      cases converted
  rcases Nat.lt_or_ge (n.natAbs * unitsOfOne) overflowUnits with below | beyond
  · exact below
  · exact absurd inside (Nat.not_lt.mpr (le_roundUnits limit beyond))

/-- The range of doubles ends long before integers become too long to be read. -/
theorem overflowUnits_le : overflowUnits ≤ Nat.pow 10 1024 * unitsOfOne := by decide +kernel

end Binary64

/-- Finite numbers are read as they are. -/
theorem Literal.reading_of_isFinite {v : Number} (finite : v.isFinite = .ok true) : reading v = v := by
  cases v with
  | float x => rfl
  | int n =>
    have converted : (Binary64.ofInt? n).isSome = true := by
      simp only [Number.isFinite] at finite
      cases found : Binary64.ofInt? n with
      | none =>
        rw [found] at finite
        cases finite
      | some x => rfl
    have below := Nat.lt_of_lt_of_le (Binary64.lt_of_ofInt?_isSome converted) Binary64.overflowUnits_le
    have grows : ∀ digits limit, digits ≤ limit → Nat.pow 10 digits ≤ 10 ^ limit := by
      intro digits limit shorter
      exact Nat.pow_le_pow_right (by decide) shorter
    have short : n.natAbs < 10 ^ digitLimit :=
      Nat.lt_of_lt_of_le (Nat.lt_of_mul_lt_mul_right below) (grows 1024 digitLimit (by decide))
    simp only [reading, short, if_true]

/-- Ways to declare a cost. -/
inductive Way where
  | mapping
  | declaration
  | decorator
  | resolver
  | attributed
  | directive
  deriving DecidableEq

namespace Way

/-- The base is asked whether it is a finite number. -/
def asks : Way → Bool
  | mapping => true
  | directive => true
  | _ => false

/-- The base as it is found. Only directives are read from a document. -/
def reads : Way → Number → Number
  | directive => Literal.reading
  | _ => id

/-- What is found of a cost that is declared in some way. A base that is asked has to serve. -/
inductive Yields (m : Naming) (v : Number) (way : Way) : Except Fault Declaration → Prop
  | taken (unasked : way.asks = false) : Yields m v way (.ok (m.declaration v))
  | asked {base : Except Fault Value} (asks : way.asks = true)
      (serves : (Value.num (way.reads v)).Serves base) :
      Yields m v way (base.map fun _ => m.declaration (way.reads v))

end Way

/-- The type with one more attribute of the class behind it. -/
def TypeDef.withAttribute (t : TypeDef) (attr : String) (r : Resolver) : TypeDef :=
  { t with owner := some ((attr, some r) :: t.owner.getD []) }

/-- A cost is declared in some way on a field or on the class behind its type. -/
inductive Declared (v : Number) (m : Naming) (name : String) (field : FieldDef) (t : TypeDef) :
    Way → FieldDef → TypeDef → Prop
  | mapping {entries : Entries} (base : Entries.get? entries "value" = some (.num v))
      (multipliers : Entries.get? entries "multipliers" = m.value?) :
      Declared v m name field t .mapping (field.extended (.map entries)) t
  | declaration {d : Declaration} (made : m.Makes v d) :
      Declared v m name field t .declaration (field.extended d.toValue) t
  | decorator {d : Declaration} (made : m.Makes v d) :
      Declared v m name field t .decorator (field.decorate d) t
  | resolver {d : Declaration} (made : m.Makes v d) {r : Resolver} (carries : r.Carries d) :
      Declared v m name field t .resolver { field with resolver := some r } t
  | attributed {d : Declaration} (made : m.Makes v d) {r : Resolver} (carries : r.Carries d)
      {attr : String} (named : attr = Text.snakeCase name ∨ attr = name) (nonempty : name ≠ "") :
      Declared v m name field t .attributed field (t.withAttribute attr r)
  | directive {dir : Directive} {literal : Literal} (named : dir.name = "complexity")
      (base : givenArgument? dir.args "value" = some literal) (denotes : literal.DenotesNumber v)
      (multipliers : Literal.DenotesNaming (givenArgument? dir.args "multipliers") m) :
      Declared v m name field t .directive { field with directives := dir :: field.directives } t

/-! ## What a source says after a change -/

namespace Source.Says

variable {source : Source} {field : FieldDef} {parent : Option TypeDef} {t : TypeDef}
  {name : Option String} {outcome : Except Fault Declaration}

theorem of_extended {v : Value} (saying : source.Says (field.extended v) parent name outcome) :
    Expresses v outcome ∨ source.Says field parent name outcome := by
  cases saying with
  | extension extended entry expresses =>
    obtain rfl := Option.some.inj extended
    rw [Declaration.sourceKey, Entries.get?_insert, if_pos rfl] at entry
    obtain rfl := Option.some.inj entry
    exact .inl expresses
  | resolver resolved carries => exact .inr (.resolver resolved carries)
  | snakeAttribute named nonempty attributes => exact .inr (.snakeAttribute named nonempty attributes)
  | plainAttribute named nonempty attributes => exact .inr (.plainAttribute named nonempty attributes)
  | directive first number serves => exact .inr (.directive first number serves)

theorem of_resolver {r : Resolver} (saying : source.Says { field with resolver := some r } parent name outcome) :
    (∃ d, r.Carries d ∧ outcome = .ok d) ∨ source.Says field parent name outcome := by
  cases saying with
  | extension extended entry expresses => exact .inr (.extension extended entry expresses)
  | resolver resolved carries =>
    obtain rfl := Option.some.inj resolved
    exact .inl ⟨_, carries, rfl⟩
  | snakeAttribute named nonempty attributes => exact .inr (.snakeAttribute named nonempty attributes)
  | plainAttribute named nonempty attributes => exact .inr (.plainAttribute named nonempty attributes)
  | directive first number serves => exact .inr (.directive first number serves)

/-- One more attribute hides those of its name and leaves the others. -/
theorem attributes_of_withAttribute {attr other : String} {r : Resolver} {d : Declaration}
    (attributes : Attributes (some (t.withAttribute attr r)) other d) :
    r.Carries d ∨ Attributes (some t) other d := by
  obtain ⟨_, _, inside, typed, owned, entry, carries⟩ := attributes
  obtain rfl := Option.some.inj typed
  obtain rfl := Option.some.inj owned
  -- The search goes from the front, where the new attribute stands.
  by_cases same : attr = other
  · rw [List.find?_cons_of_pos (by simpa using same)] at entry
    obtain rfl : r = inside := by simpa using congrArg (·.map Prod.snd) entry
    exact .inl carries
  · rw [List.find?_cons_of_neg (by simpa using same)] at entry
    cases owned : t.owner with
    | none =>
      rw [owned] at entry
      cases entry
    | some owner =>
      rw [owned] at entry
      exact .inr ⟨t, owner, inside, rfl, owned, entry, carries⟩

theorem of_attribute {attr : String} {r : Resolver}
    (saying : source.Says field (some (t.withAttribute attr r)) name outcome) :
    (∃ d, r.Carries d ∧ outcome = .ok d) ∨ source.Says field (some t) name outcome := by
  cases saying with
  | extension extended entry expresses => exact .inr (.extension extended entry expresses)
  | resolver resolved carries => exact .inr (.resolver resolved carries)
  | snakeAttribute named nonempty attributes =>
    rcases attributes_of_withAttribute attributes with carries | attributes
    · exact .inl ⟨_, carries, rfl⟩
    · exact .inr (.snakeAttribute named nonempty attributes)
  | plainAttribute named nonempty attributes =>
    rcases attributes_of_withAttribute attributes with carries | attributes
    · exact .inl ⟨_, carries, rfl⟩
    · exact .inr (.plainAttribute named nonempty attributes)
  | directive first number serves => exact .inr (.directive first number serves)

theorem of_directive {dir : Directive} (named : dir.name = "complexity")
    (saying : source.Says { field with directives := dir :: field.directives } parent name outcome) :
    (∃ x base, dir.value "value" = .num x ∧ (Value.num x).Serves base ∧
      outcome = (do Declaration.make (← base) (dir.value "multipliers"))) ∨
    source.Says field parent name outcome := by
  cases saying with
  | extension extended entry expresses => exact .inr (.extension extended entry expresses)
  | resolver resolved carries => exact .inr (.resolver resolved carries)
  | snakeAttribute named nonempty attributes => exact .inr (.snakeAttribute named nonempty attributes)
  | plainAttribute named nonempty attributes => exact .inr (.plainAttribute named nonempty attributes)
  | directive first number serves =>
    rw [Directive.first_iff, List.find?_cons_of_pos (by simpa using named)] at first
    obtain rfl := Option.some.inj first
    exact .inl ⟨_, _, number, serves, rfl⟩

end Source.Says

theorem Resolver.Carries.unique {r : Resolver} {d e : Declaration} (carries : r.Carries d)
    (other : r.Carries e) : e = d := by
  rw [← declaration?_eq_some] at carries other
  exact Option.some.inj (other.symm.trans carries)

namespace Naming

theorem makes_declaration (m : Naming) (v : Number) : m.Makes v (m.declaration v) := m.make_eq v (.inr rfl)

theorem Makes.eq {m : Naming} {v : Number} {d : Declaration} (made : m.Makes v d) :
    d = m.declaration v :=
  Except.ok.inj (made.symm.trans (m.makes_declaration v))

/-- A base that serves keeps its multipliers, and a fault stays what it is. -/
theorem make_served (m : Naming) {v : Number} {base : Except Fault Value}
    (serves : (Value.num v).Serves base) :
    (do Declaration.make (← base) (m.value?.getD .null)) = base.map fun _ => m.declaration v := by
  cases serves with
  | int range => exact m.make_eq _ (.inl rfl)
  | large beyond => rfl
  | float finite => exact m.make_eq _ (.inl rfl)

end Naming

namespace Declared

variable {v : Number} {m : Naming} {name : String} {field field' : FieldDef} {t t' : TypeDef} {way : Way}
  {outcome : Except Fault Declaration}

theorem directive_value {dir : Directive} {literal : Literal}
    (base : givenArgument? dir.args "value" = some literal) (denotes : literal.DenotesNumber v) :
    dir.value "value" = .num (Literal.reading v) := by
  rw [Directive.value, base]
  exact denotes.untyped

theorem directive_multipliers {dir : Directive}
    (multipliers : Literal.DenotesNaming (givenArgument? dir.args "multipliers") m) :
    dir.value "multipliers" = m.value?.getD .null := by
  rw [Directive.value, multipliers.value?]

/-- What a declared cost yields is said at some place. -/
theorem sourced (declared : Declared v m name field t way field' t') (yields : way.Yields m v outcome) :
    ∃ source : Source, source.Says field' (some t') (some name) outcome := by
  have taken : way.asks = false → outcome = .ok (m.declaration v) := by
    intro unasked
    cases yields with
    | taken => rfl
    | asked asks => exact absurd asks (by simp [unasked])
  have entry : ∀ w, Entries.get? (Entries.insert (field.extensions.getD []) Declaration.sourceKey w)
      "complexity" = some w := by
    intro w
    rw [Declaration.sourceKey, Entries.get?_insert, if_pos rfl]
  cases declared with
  | mapping base multipliers =>
    cases yields with
    | taken unasked => cases unasked
    | asked _ serves =>
      refine ⟨.extension, .extension rfl (entry _) ?_⟩
      rw [← m.make_served serves, ← multipliers]
      exact .mapping base serves
  | declaration made | decorator made =>
    rw [taken rfl, ← made.eq]
    exact ⟨.extension, .extension rfl (entry _) (.declared _ _)⟩
  | resolver made carries =>
    rw [taken rfl, ← made.eq]
    exact ⟨.resolver, .resolver rfl carries⟩
  | @attributed d made r carries attr named nonempty =>
    rw [taken rfl, ← made.eq]
    have attributes : Source.Attributes (some (t.withAttribute attr r)) attr d :=
      ⟨_, _, r, rfl, rfl, List.find?_cons_of_pos (by simp), carries⟩
    rcases named with rfl | rfl
    · exact ⟨.snakeAttribute, .snakeAttribute rfl nonempty attributes⟩
    · exact ⟨.plainAttribute, .plainAttribute rfl nonempty attributes⟩
  | directive named base denotes multipliers =>
    cases yields with
    | taken unasked => cases unasked
    | asked _ serves =>
      refine ⟨.directive, ?_⟩
      rw [← m.make_served serves, ← directive_multipliers multipliers]
      exact .directive ⟨[], field.directives, rfl, named, List.forall_mem_nil _⟩
        (directive_value base denotes) serves

/-- Where no cost is declared otherwise, nothing else is said. -/
theorem yields (declared : Declared v m name field t way field' t')
    (undeclared : Declaration.find? field (some t) (some name) = .ok none) {source : Source}
    (saying : source.Says field' (some t') (some name) outcome) : way.Yields m v outcome := by
  have silent := Declaration.find?_eq_none_iff.mp undeclared source outcome
  cases declared with
  | @mapping entries base multipliers =>
    cases saying.of_extended.resolve_right silent with
    | base serves => cases serves
    | mapping entry serves =>
      obtain rfl := Option.some.inj (base.symm.trans entry)
      rw [multipliers, m.make_served serves]
      exact .asked rfl serves
  | declaration made | decorator made =>
    cases saying.of_extended.resolve_right silent with
    | declared =>
      rw [made.eq]
      exact .taken rfl
    | base _ undeclared => exact absurd rfl (undeclared _ _)
  | resolver made carries =>
    obtain ⟨d, other, rfl⟩ := saying.of_resolver.resolve_right silent
    rw [carries.unique other, made.eq]
    exact .taken rfl
  | attributed made carries =>
    obtain ⟨d, other, rfl⟩ := saying.of_attribute.resolve_right silent
    rw [carries.unique other, made.eq]
    exact .taken rfl
  | directive named base denotes multipliers =>
    obtain ⟨x, served, number, serves, rfl⟩ := (saying.of_directive named).resolve_right silent
    obtain rfl : Literal.reading v = x :=
      Value.num.inj ((directive_value base denotes).symm.trans number)
    rw [directive_multipliers multipliers, m.make_served serves]
    exact .asked rfl serves

end Declared

namespace Declaration

/-- If all sources that say anything agree, the search ends with what they say. -/
theorem find?_of_agreement {field : FieldDef} {parent : Option TypeDef} {name : Option String}
    {outcome : Except Fault Declaration} {source : Source} (saying : source.Says field parent name outcome)
    (agree : ∀ (other : Source) result, other.Says field parent name result → result = outcome) :
    find? field parent name = outcome.map some := by
  cases found : said (find? field parent name) with
  | none => exact absurd saying (find?_eq_none_iff.mp (said_eq_none.mp found) source outcome)
  | some result =>
    have ends := said_eq_some.mp found
    obtain ⟨_, first, _, _, heard, _⟩ := find?_eq_iff.mp ends
    rw [ends, agree first result heard]

end Declaration

namespace Way

variable {m : Naming} {v : Number} {way : Way}

theorem Yields.unique {a b : Except Fault Declaration} (yields : way.Yields m v a) (other : way.Yields m v b) :
    b = a := by
  cases yields with
  | taken unasked =>
    cases other with
    | taken => rfl
    | asked asks => exact absurd asks (by simp [unasked])
  | asked asks serves =>
    cases other with
    | taken unasked => exact absurd asks (by simp [unasked])
    | asked _ other => rw [serves.unique other]

theorem reads_of_isFinite (finite : v.isFinite = .ok true) : way.reads v = v := by
  cases way with
  | directive => exact Literal.reading_of_isFinite finite
  | _ => rfl

theorem yields_declaration (finite : way.asks = true → v.isFinite = .ok true) :
    way.Yields m v (.ok (m.declaration v)) := by
  cases asks : way.asks with
  | false => exact .taken asks
  | true =>
    have serves : (Value.num v).Serves (.ok (.num v)) := by
      cases v with
      | int n => exact .int (finite asks)
      | float x => exact .float (Except.ok.inj (finite asks))
    have read : way.reads v = v := reads_of_isFinite (finite asks)
    have yields : way.Yields m v ((Except.ok (Value.num v)).map fun _ => m.declaration (way.reads v)) := by
      refine .asked asks ?_
      rwa [read]
    rwa [read] at yields

/-- An integer beyond the range of doubles makes a base that is asked fault. -/
theorem yields_overflow {n : Int} (beyond : ¬ Number.InRange n) (asks : way.asks = true)
    (read : way.reads (.int n) = .int n) : way.Yields m (.int n) (.error .overflow) := by
  have serves : (Value.num (way.reads (.int n))).Serves (.error .overflow) := by
    rw [read]
    exact .large beyond
  exact .asked asks serves

/-- An integer that cannot even be read declares nothing. -/
theorem not_yields {n : Int} (long : 10 ^ Literal.digitLimit ≤ n.natAbs) (outcome : Except Fault Declaration) :
    ¬ directive.Yields m (.int n) outcome := by
  have read : directive.reads (.int n) = .float .nan := by
    simp only [reads, Literal.reading, Nat.not_lt.mpr long, if_false]
  intro yields
  cases yields with
  | taken unasked => cases unasked
  | asked _ serves =>
    rw [read] at serves
    cases serves with
    | float finite => cases finite

end Way

namespace Declared

variable {v : Number} {m : Naming} {name : String} {field field' : FieldDef} {t t' : TypeDef} {way : Way}

theorem find?_of_yields {outcome : Except Fault Declaration} (declared : Declared v m name field t way field' t')
    (undeclared : Declaration.find? field (some t) (some name) = .ok none)
    (yields : way.Yields m v outcome) :
    Declaration.find? field' (some t') (some name) = outcome.map some := by
  obtain ⟨source, saying⟩ := declared.sourced yields
  -- An attribute can be asked under two names, so there may be two sources; they say the same.
  refine Declaration.find?_of_agreement saying ?_
  intro other result heard
  exact yields.unique (declared.yields undeclared heard)

theorem find?_of_not_yields (declared : Declared v m name field t way field' t')
    (undeclared : Declaration.find? field (some t) (some name) = .ok none)
    (nothing : ∀ outcome, ¬ way.Yields m v outcome) :
    Declaration.find? field' (some t') (some name) = .ok none := by
  rw [Declaration.find?_eq_none_iff]
  intro source outcome saying
  exact nothing outcome (declared.yields undeclared saying)

theorem args_eq (declared : Declared v m name field t way field' t') : field'.args = field.args := by
  cases declared <;> rfl

end Declared

namespace Estimate

variable {σ : Type} {field field' : FieldDef} (same : field'.args = field.args) (args : Entries)
  (child : Value) (name : String) (t t' : TypeDef)

include same

/-- Multipliers depend on the arguments of a field and not on anything else in its definition. -/
theorem multiply_congr (names : List Value) (factor : Number) :
    multiply (σ := σ) ⟨args, child, field', name, t'⟩ factor names =
      multiply ⟨args, child, field, name, t⟩ factor names := by
  have value : ∀ v, multiplierValue ⟨args, child, field', name, t'⟩ v =
      multiplierValue ⟨args, child, field, name, t⟩ v := by
    intro v
    cases v with
    | str text => simp only [multiplierValue, multiplierKey, FieldDef.arg?, same]
    | _ => rfl
  induction names generalizing factor with
  | nil => rfl
  | cons first rest ih => simp only [multiply, value, ih]

theorem plainCost_congr (d : Declaration) :
    plainCost (σ := σ) ⟨args, child, field', name, t'⟩ d = plainCost ⟨args, child, field, name, t⟩ d := by
  simp only [plainCost, multiply_congr same args child name t t']

end Estimate

/-- However a cost is declared on a field that has none, the search for it ends with the same declaration, and the
field gets the same estimates for all arguments and children. The exception is an integer beyond the range
of doubles. As a mapping or a directive it faults, where the other ways give the declaration, and a directive with
an integer that is too long to be read declares nothing. -/
theorem Declaration.ways_agree {σ : Type} {v : Number} {m : Naming} {name : String}
    {field field' : FieldDef} {t t' : TypeDef} {way : Way}
    (undeclared : find? field (some t) (some name) = .ok none)
    (declared : Declared v m name field t way field' t') :
    ((way.asks = true → v.isFinite = .ok true) →
      find? field' (some t') (some name) = .ok (some (m.declaration v)) ∧
      ∀ (apply : Formula → Estimate σ) (args : Entries) (child : Value),
        Estimate.declared apply ⟨args, child, field', name, t'⟩ =
          Estimate.reading (Estimate.plainCost · (m.declaration v)) ⟨args, child, field, name, t⟩) ∧
    ∀ n, v = .int n → ¬ Number.InRange n → way.asks = true →
      find? field' (some t') (some name) =
        if way = .directive ∧ 10 ^ Literal.digitLimit ≤ n.natAbs then .ok none else .error .overflow := by
  constructor
  · intro finite
    have found := declared.find?_of_yields undeclared (Way.yields_declaration finite)
    refine ⟨found, ?_⟩
    intro apply args child
    rw [Estimate.reading, ← Estimate.plainCost_congr declared.args_eq args child name t t',
      Estimate.declared, found]
    rfl
  · rintro n rfl beyond asks
    split
    next long =>
      obtain ⟨rfl, long⟩ := long
      exact declared.find?_of_not_yields undeclared (Way.not_yields long)
    next short =>
      have read : way.reads (.int n) = .int n := by
        cases way with
        | directive =>
          have readable := Nat.not_le.mp fun long => short ⟨rfl, long⟩
          simp only [Way.reads, Literal.reading, readable, if_true]
        | _ => rfl
      exact declared.find?_of_yields undeclared (Way.yields_overflow beyond asks read)

namespace Declaration

/-- A field with a remark, a resolver and no cost. -/
def topPosts : FieldDef :=
  ⟨"topPosts", .named "Post", [], some [("remark", .str "slow")], some (.wrapped none (.bare none)), []⟩

/-- The type of the field, with the field as an attribute of the class behind it. -/
def blog : TypeDef :=
  ⟨"Query", .object [] [topPosts], some [("top_posts", none)]⟩

/-- A declaration that is wrapped twice. -/
def inTwoLayers (d : Declaration) : Resolver := .wrapped none (.wrapped none (.bare (some d)))

def free : Directive :=
  ⟨"complexity", [("value", .int "-0"), ("multipliers", .list [.enum "first", .str "last" false])]⟩

theorem snakeCase_topPosts : Text.snakeCase "topPosts" = "top_posts" := by decide +kernel

theorem topPosts_undeclared : find? topPosts (some blog) (some "topPosts") = .ok none := by
  have unset : inParent? (some blog) (some "topPosts") = none := by
    simp [inParent?, inOwner?, blog, snakeCase_topPosts]
  have unextended : inExtensions? topPosts = .ok none := rfl
  have unresolved : inResolver? topPosts = none := rfl
  rw [find?, unextended, unresolved, unset]
  rfl

theorem ways_agree_topPosts :
    find? (topPosts.extended (.map [("multipliers", .str "first"), ("value", .num (.int 3))]))
      (some blog) (some "topPosts") = .ok (some ⟨.num (.int 3), [.str "first"]⟩) ∧
    find? topPosts (some (blog.withAttribute "top_posts" (inTwoLayers ⟨.num (.int 3), [.str "first"]⟩)))
      (some "topPosts") = .ok (some ⟨.num (.int 3), [.str "first"]⟩) ∧
    find? { topPosts with directives := [free] } (some blog) (some "topPosts") =
      .ok (some ⟨.num (.int 0), [.str "first", .str "last"]⟩) := by
  refine ⟨?mapping, ?attributed, ?directive⟩
  case mapping =>
    have declared : Declared (.int 3) (.single "first") "topPosts" topPosts blog .mapping
        (topPosts.extended (.map [("multipliers", .str "first"), ("value", .num (.int 3))])) blog :=
      .mapping rfl rfl
    exact ((ways_agree (σ := Unit) topPosts_undeclared declared).1 fun _ => by decide +kernel).1
  case attributed =>
    have declared : Declared (.int 3) (.single "first") "topPosts" topPosts blog .attributed topPosts
        (blog.withAttribute "top_posts" (inTwoLayers ⟨.num (.int 3), [.str "first"]⟩)) :=
      .attributed (Naming.makes_declaration (.single "first") (.int 3)) ⟨2, _, rfl, rfl⟩
        (.inl snakeCase_topPosts.symm) (by decide)
    exact ((ways_agree (σ := Unit) topPosts_undeclared declared).1 fun asks => by cases asks).1
  case directive =>
    have declared : Declared (.int 0) (.several ["first", "last"]) "topPosts" topPosts blog .directive
        { topPosts with directives := [free] } blog :=
      .directive rfl rfl .negativeZero (.several (.cons (.enum "first") (.cons (.str "last" false) .nil)))
    exact ((ways_agree (σ := Unit) topPosts_undeclared declared).1 fun _ => by decide +kernel).1

/-- A finite number that a declaration can have and a mapping cannot. -/
theorem ways_differ :
    find? (topPosts.extended (.declared (.num (.int (Nat.pow 10 400))) [])) (some blog) (some "topPosts") =
      .ok (some ⟨.num (.int (Nat.pow 10 400)), []⟩) ∧
    find? (topPosts.extended (.map [("value", .num (.int (Nat.pow 10 400)))])) (some blog)
      (some "topPosts") = .error .overflow := by
  have beyond : ¬ Number.InRange (Nat.pow 10 400 : Nat) := by
    unfold Number.InRange
    decide +kernel
  constructor
  · have declared : Declared (.int (Nat.pow 10 400 : Nat)) .absent "topPosts" topPosts blog .declaration _ blog :=
      .declaration rfl
    exact declared.find?_of_yields topPosts_undeclared (.taken rfl)
  · have declared : Declared (.int (Nat.pow 10 400 : Nat)) .absent "topPosts" topPosts blog .mapping
        (topPosts.extended (.map [("value", .num (.int (Nat.pow 10 400 : Nat)))])) blog :=
      .mapping rfl rfl
    exact declared.find?_of_yields topPosts_undeclared (Way.yields_overflow beyond rfl rfl)

end Declaration

end QueryCost
