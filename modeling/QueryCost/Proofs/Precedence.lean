import QueryCost.Proofs.Declining
import QueryCost.Proofs.Conditions

/-!
# Which declaration of a cost counts

The cost of a field can be declared in five places. `Source.Says` tells for each of them, in terms of what is
written there, what comes of it: a declaration, a fault, or nothing. The places are asked in the order of
`Source.all`, and the first that says anything decides (`find?_eq_iff`). What stands in later places is not
looked at, so it cannot even fail.

Places differ in what they pass over. An extension that is no cost counts as absent, and so does a resolver
without a declaration in any of its layers. Of the directives only the first of the name is read; if it has
no number, none of the others stands in for it.
-/
namespace QueryCost

/-- What comes of a value that is to be the base of a cost. Finite numbers and callables can be one; an integer
beyond the range of doubles faults, and other values do not serve. -/
inductive Value.Serves : Value → Except Fault Value → Prop
  | int {n : Int} (range : Number.InRange n) : Serves (.num (.int n)) (.ok (.num (.int n)))
  | large {n : Int} (beyond : ¬ Number.InRange n) : Serves (.num (.int n)) (.error .overflow)
  | float {x : Binary64} (finite : x.isFinite = true) :
      Serves (.num (.float x)) (.ok (.num (.float x)))
  | declared (base : Value) (multipliers : List Value) :
      Serves (.declared base multipliers) (.ok (.declared base multipliers))
  | callable (formula : Formula) : Serves (.callable formula) (.ok (.callable formula))

theorem Value.Serves.unique {v : Value} {a b : Except Fault Value} (serves : v.Serves a)
    (other : v.Serves b) : b = a := by
  cases serves with
  | int range =>
    cases other with
    | int _ => rfl
    | large beyond => exact absurd range beyond
  | large beyond =>
    cases other with
    | int range => exact absurd range beyond
    | large _ => rfl
  | _ =>
    cases other
    rfl

theorem Value.Serves.iff_eq {v : Value} {a : Except Fault Value} (serves : v.Serves a)
    (b : Except Fault Value) : v.Serves b ↔ b = a := by
  constructor
  · exact serves.unique
  · rintro rfl
    exact serves

/-- The declaration of a resolver's own layer, whatever is inside. -/
def Resolver.own? : Resolver → Option Declaration
  | bare cost => cost
  | wrapped cost _ => cost

/-- Below some number of layers without a declaration there is one with it. -/
def Resolver.Carries (r : Resolver) (d : Declaration) : Prop :=
  ∃ depth inner, r = wrap inner depth ∧ inner.own? = some d

/-- The value of a directive's argument at no particular type; null without such an argument. -/
def Directive.value (directive : Directive) (name : String) : Value :=
  ((givenArgument? directive.args name).map (Literal.untyped [])).getD .null

/-- Places where the cost of a field can be declared. -/
inductive Source where
  | extension
  | resolver
  | snakeAttribute
  | plainAttribute
  | directive
  deriving DecidableEq

namespace Source

/-- All places, in the order in which they are asked. -/
def all : List Source := [extension, resolver, snakeAttribute, plainAttribute, directive]

/-- What an extension says: a declaration is taken as it is, a base stands for itself, and a mapping has a base
and perhaps multipliers as entries. -/
inductive Expresses : Value → Except Fault Declaration → Prop
  | declared (base : Value) (multipliers : List Value) :
      Expresses (.declared base multipliers) (.ok ⟨base, multipliers⟩)
  | base {v : Value} {outcome : Except Fault Value} (serves : v.Serves outcome)
      (undeclared : ∀ base multipliers, v ≠ .declared base multipliers) :
      Expresses v (do return ⟨← outcome, []⟩)
  | mapping {entries : Entries} {v : Value} {outcome : Except Fault Value}
      (entry : Entries.get? entries "value" = some v) (serves : v.Serves outcome) :
      Expresses (.map entries) (do
        Declaration.make (← outcome) ((Entries.get? entries "multipliers").getD .null))

/-- The class behind a type has a declaration on an attribute. -/
def Attributes (parent : Option TypeDef) (attr : String) (d : Declaration) : Prop :=
  ∃ t owner r, parent = some t ∧ t.owner = some owner ∧
    owner.find? (·.1 == attr) = some (attr, some r) ∧ r.Carries d

/-- What a source says about the cost of a field, if it says anything. -/
inductive Says (field : FieldDef) (parent : Option TypeDef) (name : Option String) :
    Source → Except Fault Declaration → Prop
  | extension {entries : Entries} {v : Value} {outcome : Except Fault Declaration}
      (extended : field.extensions = some entries)
      (entry : Entries.get? entries "complexity" = some v) (expresses : Expresses v outcome) :
      Says field parent name .extension outcome
  | resolver {r : Resolver} {d : Declaration} (resolved : field.resolver = some r)
      (carries : r.Carries d) : Says field parent name .resolver (.ok d)
  | snakeAttribute {n : String} {d : Declaration} (named : name = some n) (nonempty : n ≠ "")
      (attributes : Attributes parent (Text.snakeCase n) d) :
      Says field parent name .snakeAttribute (.ok d)
  | plainAttribute {n : String} {d : Declaration} (named : name = some n) (nonempty : n ≠ "")
      (attributes : Attributes parent n d) : Says field parent name .plainAttribute (.ok d)
  | directive {dir : Directive} {x : Number} {outcome : Except Fault Value}
      (first : dir.First "complexity" field.directives) (number : dir.value "value" = .num x)
      (serves : (Value.num x).Serves outcome) :
      Says field parent name .directive (do
        Declaration.make (← outcome) (dir.value "multipliers"))

end Source

/-- What is said, if anything: nothing found is the only outcome that says nothing. -/
def said {α : Type} : Except Fault (Option α) → Option (Except Fault α)
  | .ok none => none
  | .ok (some a) => some (.ok a)
  | .error fault => some (.error fault)

theorem said_eq_none {α : Type} {e : Except Fault (Option α)} : said e = none ↔ e = .ok none := by
  rcases e with fault | _ | a <;> simp [said]

theorem said_eq_some {α : Type} {e : Except Fault (Option α)} {outcome : Except Fault α} :
    said e = some outcome ↔ e = outcome.map some := by
  rcases e with fault | _ | a <;> rcases outcome with fault' | a' <;> simp [said, Except.map]

theorem said_injective {α : Type} {e e' : Except Fault (Option α)} (same : said e = said e') : e = e' := by
  rcases e with fault | _ | a <;> rcases e' with fault' | _ | a' <;> simp_all [said]

namespace Declaration

variable {v : Value} {outcome : Except Fault Declaration}

/-- A value serves as a base, or is too large for one, or is none. -/
theorem serves_cases (v : Value) :
    (isBase v = .ok true ∧ ∀ b, v.Serves b ↔ b = .ok v) ∨
    (isBase v = .error .overflow ∧ ∀ b, v.Serves b ↔ b = .error .overflow) ∨
    (isBase v = .ok false ∧ ∀ b, ¬ v.Serves b) := by
  cases v with
  | declared base multipliers => exact .inl ⟨rfl, (Value.Serves.declared base multipliers).iff_eq⟩
  | callable formula => exact .inl ⟨rfl, (Value.Serves.callable formula).iff_eq⟩
  | num x =>
    cases x with
    | int n =>
      by_cases range : Number.InRange n
      · refine .inl ⟨?_, (Value.Serves.int range).iff_eq⟩
        rw [isBase, Value.finite?_int range]
        rfl
      · refine .inr (.inl ⟨?_, (Value.Serves.large range).iff_eq⟩)
        rw [isBase, Value.finite?_large range]
        rfl
    | float x =>
      by_cases finite : x.isFinite = true
      · refine .inl ⟨?_, (Value.Serves.float finite).iff_eq⟩
        rw [isBase, Value.finite?_float, if_pos finite]
        rfl
      · refine .inr (.inr ⟨?_, fun b serves => ?_⟩)
        · rw [isBase, Value.finite?_float, if_neg finite]
          rfl
        · cases serves with
          | float inside => exact finite inside
  | _ => exact .inr (.inr ⟨rfl, fun b serves => by cases serves⟩)

/-- What is made of a base, if the value can be one. -/
theorem said_base (make : Value → Except Fault Declaration) :
    said (do if (← isBase v) then return some (← make v) else return none) = some outcome ↔
      ∃ base, v.Serves base ∧ base >>= make = outcome := by
  rcases serves_cases v with ⟨asked, serves⟩ | ⟨asked, serves⟩ | ⟨asked, serves⟩
  · simp only [asked, serves, exists_eq_left]
    cases made : make v with
    | error fault => simp [said, made, bind, Except.bind]
    | ok d => simp [said, made, bind, Except.bind, pure, Except.pure]
  · simp [asked, serves, said, bind, Except.bind]
  · simp [asked, serves, said, bind, Except.bind, pure, Except.pure]

/-- Values other than declarations and mappings are extensions by being a base. -/
theorem ofExtension?_base (undeclared : ∀ base multipliers, v ≠ .declared base multipliers)
    (unmapped : ∀ entries, v ≠ .map entries) :
    ofExtension? v =
      (do if (← isBase v) then return some (← (return ⟨v, []⟩)) else return none) := by
  have asked : ofExtension? v = (do return if (← isBase v) then some ⟨v, []⟩ else none) := by
    rw [ofExtension?]
    · exact undeclared
    · exact unmapped
  rw [asked]
  rcases isBase v with fault | _ | _ <;> rfl

theorem said_ofExtension? : said (ofExtension? v) = some outcome ↔ Source.Expresses v outcome := by
  cases v with
  | declared base multipliers =>
    have taken : said (ofExtension? (.declared base multipliers)) = some (.ok ⟨base, multipliers⟩) := rfl
    rw [taken, Option.some.injEq]
    constructor
    · rintro rfl
      exact .declared base multipliers
    · intro expresses
      cases expresses with
      | declared => rfl
      | base _ undeclared => exact absurd rfl (undeclared base multipliers)
  | map entries =>
    rw [ofExtension?, said_base fun base => make base ((Entries.get? entries "multipliers").getD .null)]
    constructor
    · rintro ⟨base, serves, rfl⟩
      cases entry : Entries.get? entries "value" with
      | none =>
        rw [entry] at serves
        cases serves
      | some v =>
        rw [entry] at serves
        exact .mapping entry serves
    · intro expresses
      cases expresses with
      | base serves _ => cases serves
      | mapping entry serves =>
        rw [entry]
        exact ⟨_, serves, rfl⟩
  | _ =>
    rw [ofExtension?_base (by simp) (by simp), said_base fun base => return ⟨base, []⟩]
    constructor
    · rintro ⟨base, serves, rfl⟩
      exact .base serves (by simp)
    · intro expresses
      cases expresses with
      | base serves _ => exact ⟨_, serves, rfl⟩

theorem said_inExtensions? {field : FieldDef} {parent : Option TypeDef} {name : Option String} :
    said (inExtensions? field) = some outcome ↔
      Source.Says field parent name .extension outcome := by
  constructor
  · intro saying
    rw [inExtensions?] at saying
    split at saying
    next v found =>
      obtain ⟨entries, extended, entry⟩ := Option.bind_eq_some_iff.mp found
      exact .extension extended entry (said_ofExtension?.mp saying)
    next => cases saying
  · intro saying
    cases saying with
    | extension extended entry expresses =>
      have found : field.extensions.bind (Entries.get? · sourceKey) = some _ :=
        Option.bind_eq_some_iff.mpr ⟨_, extended, entry⟩
      rw [inExtensions?, found]
      exact said_ofExtension?.mpr expresses

end Declaration

/-- A declaration is on the outermost layer, or that has none and the declaration is inside. -/
theorem Resolver.carries_iff {r : Resolver} {d : Declaration} :
    r.Carries d ↔ r.own? = some d ∨ ∃ inside, r = .wrapped none inside ∧ inside.Carries d := by
  constructor
  · rintro ⟨depth, inner, rfl, found⟩
    cases depth with
    | zero => exact .inl found
    | succ depth => exact .inr ⟨wrap inner depth, rfl, depth, inner, rfl, found⟩
  · rintro (found | ⟨_, rfl, depth, inner, rfl, found⟩)
    · exact ⟨0, r, rfl, found⟩
    · exact ⟨depth + 1, inner, rfl, found⟩

/-- The layers without a declaration are passed through, down to the first that has one. -/
theorem Resolver.declaration?_eq_some {r : Resolver} {d : Declaration} :
    r.declaration? = some d ↔ r.Carries d := by
  induction r with
  | bare cost =>
    rw [carries_iff]
    simp [declaration?, own?]
  | wrapped cost inside ih =>
    rw [carries_iff]
    cases cost with
    | none => simp [declaration?, own?, ih]
    | some own => simp [declaration?, own?]

namespace Declaration

theorem get?_directiveArguments (directive : Directive) (name : String) :
    (Entries.get? (directiveArguments directive) name).getD .null = directive.value name := by
  rw [directiveArguments, Entries.get?_ofPairs, Directive.value, givenArgument?, ← List.map_reverse,
    List.find?_map, Option.map_map, Option.map_map]
  rfl

/-- A directive needs a number as base; a callable cannot be written there. -/
theorem said_number {v : Value} {outcome : Except Fault Declaration}
    (make : Value → Except Fault Declaration) :
    said (do match (← v.finite?) with
      | none => return none
      | some _ => return some (← make v)) = some outcome ↔
      ∃ x base, v = .num x ∧ (Value.num x).Serves base ∧ base >>= make = outcome := by
  cases v with
  | num x =>
    have same : (do match (← (Value.num x).finite?) with
        | none => return none
        | some _ => return some (← make (.num x))) =
        (do if (← isBase (.num x)) then return some (← make (.num x)) else return none) := by
      rw [isBase]
      rcases (Value.num x).finite? with fault | _ | y <;> rfl
    rw [same, said_base make]
    constructor
    · rintro ⟨base, serves, made⟩
      exact ⟨x, base, rfl, serves, made⟩
    · rintro ⟨_, base, ⟨⟩, serves, made⟩
      exact ⟨base, serves, made⟩
  | _ => simp [said, Value.finite?, bind, Except.bind, pure, Except.pure]

theorem said_inDirectives? {field : FieldDef} {parent : Option TypeDef} {name : Option String}
    {outcome : Except Fault Declaration} :
    said (inDirectives? field) = some outcome ↔
      Source.Says field parent name .directive outcome := by
  have read : ∀ directive : Directive, said (ofDirective? directive) = some outcome ↔
      ∃ x base, directive.value "value" = .num x ∧ (Value.num x).Serves base ∧
        (do make (← base) (directive.value "multipliers")) = outcome := by
    intro directive
    rw [ofDirective?, get?_directiveArguments, get?_directiveArguments]
    exact said_number fun base => make base (directive.value "multipliers")
  constructor
  · intro saying
    rw [inDirectives?] at saying
    split at saying
    next directive found =>
      obtain ⟨x, base, number, serves, rfl⟩ := (read directive).mp saying
      exact .directive (Directive.first_iff.mpr found) number serves
    next => cases saying
  · intro saying
    cases saying with
    | directive first number serves =>
      have found : field.directives.find? (·.name == sourceKey) = some _ := Directive.first_iff.mp first
      rw [inDirectives?, found]
      exact (read _).mpr ⟨_, _, number, serves, rfl⟩

theorem inOwner?_eq_some {owner : Owner} {attr : String} {d : Declaration} :
    inOwner? owner attr = some d ↔
      ∃ r, owner.find? (·.1 == attr) = some (attr, some r) ∧ r.Carries d := by
  unfold inOwner?
  constructor
  · intro found
    obtain ⟨⟨key, value⟩, entry, found⟩ := Option.bind_eq_some_iff.mp found
    obtain ⟨r, rfl, carried⟩ := Option.bind_eq_some_iff.mp found
    obtain rfl : key = attr := by simpa using List.find?_some entry
    exact ⟨r, entry, Resolver.declaration?_eq_some.mp carried⟩
  · rintro ⟨r, entry, carries⟩
    rw [entry]
    exact Resolver.declaration?_eq_some.mpr carries

/-- The declaration on the attribute of the owner class that a field's name leads to. -/
def attributed? (parent : Option TypeDef) (name : Option String) (spell : String → String) :
    Option Declaration := do
  let owner ← parent.bind (·.owner)
  let n ← name
  if n = "" then none else inOwner? owner (spell n)

theorem inParent?_eq (parent : Option TypeDef) (name : Option String) :
    inParent? parent name =
      (attributed? parent name Text.snakeCase <|> attributed? parent name id) := by
  rw [inParent?, attributed?, attributed?]
  cases parent.bind (·.owner) with
  | none => rfl
  | some owner =>
    cases name with
    | none => rfl
    | some n =>
      by_cases empty : n = ""
      · simp [empty]
      · simp [empty]

theorem attributed?_eq_some {parent : Option TypeDef} {name : Option String}
    {spell : String → String} {d : Declaration} :
    attributed? parent name spell = some d ↔
      ∃ n, name = some n ∧ n ≠ "" ∧ Source.Attributes parent (spell n) d := by
  unfold attributed?
  constructor
  · intro found
    obtain ⟨owner, owned, found⟩ := Option.bind_eq_some_iff.mp found
    obtain ⟨t, typed, owned⟩ := Option.bind_eq_some_iff.mp owned
    obtain ⟨n, named, found⟩ := Option.bind_eq_some_iff.mp found
    split at found
    next => cases found
    next nonempty =>
      obtain ⟨r, entry, carries⟩ := inOwner?_eq_some.mp found
      exact ⟨n, named, nonempty, t, owner, r, typed, owned, entry, carries⟩
  · rintro ⟨n, rfl, nonempty, t, owner, r, rfl, owned, entry, carries⟩
    have found : inOwner? owner (spell n) = some d := inOwner?_eq_some.mpr ⟨r, entry, carries⟩
    simp [owned, nonempty, found]

theorem said_ok {found : Option Declaration} {outcome : Except Fault Declaration} :
    said (.ok found) = some outcome ↔ ∃ d, found = some d ∧ outcome = .ok d := by
  cases found with
  | none => simp [said]
  | some d => simp [said, eq_comm]

theorem said_attributed? {parent : Option TypeDef} {name : Option String} {spell : String → String}
    {outcome : Except Fault Declaration} :
    said (.ok (attributed? parent name spell)) = some outcome ↔
      ∃ n d, name = some n ∧ n ≠ "" ∧ Source.Attributes parent (spell n) d ∧ outcome = .ok d := by
  rw [said_ok]
  constructor
  · rintro ⟨d, found, rfl⟩
    obtain ⟨n, named, nonempty, attributes⟩ := attributed?_eq_some.mp found
    exact ⟨n, d, named, nonempty, attributes, rfl⟩
  · rintro ⟨n, d, named, nonempty, attributes, rfl⟩
    exact ⟨d, attributed?_eq_some.mpr ⟨n, named, nonempty, attributes⟩, rfl⟩

/-- What the search finds at a source when it comes to it. -/
def ask (field : FieldDef) (parent : Option TypeDef) (name : Option String) :
    Source → Except Fault (Option Declaration)
  | .extension => inExtensions? field
  | .resolver => .ok (inResolver? field)
  | .snakeAttribute => .ok (attributed? parent name Text.snakeCase)
  | .plainAttribute => .ok (attributed? parent name id)
  | .directive => inDirectives? field

theorem said_ask {field : FieldDef} {parent : Option TypeDef} {name : Option String}
    {source : Source} {outcome : Except Fault Declaration} :
    said (ask field parent name source) = some outcome ↔
      source.Says field parent name outcome := by
  cases source with
  | extension => exact said_inExtensions?
  | directive => exact said_inDirectives?
  | resolver =>
    rw [ask, said_ok]
    constructor
    · rintro ⟨d, found, rfl⟩
      obtain ⟨r, resolved, carried⟩ := Option.bind_eq_some_iff.mp found
      exact .resolver resolved (Resolver.declaration?_eq_some.mp carried)
    · intro saying
      cases saying with
      | resolver resolved carries =>
        exact ⟨_, Option.bind_eq_some_iff.mpr ⟨_, resolved, Resolver.declaration?_eq_some.mpr carries⟩,
          rfl⟩
  | snakeAttribute =>
    rw [ask, said_attributed?]
    constructor
    · rintro ⟨n, d, named, nonempty, attributes, rfl⟩
      exact .snakeAttribute named nonempty attributes
    · intro saying
      cases saying with
      | snakeAttribute named nonempty attributes => exact ⟨_, _, named, nonempty, attributes, rfl⟩
  | plainAttribute =>
    rw [ask, said_attributed?]
    constructor
    · rintro ⟨n, d, named, nonempty, attributes, rfl⟩
      exact .plainAttribute named nonempty attributes
    · intro saying
      cases saying with
      | plainAttribute named nonempty attributes => exact ⟨_, _, named, nonempty, attributes, rfl⟩

/-- The search goes through the sources and stops at the first that says something. -/
theorem said_find? (field : FieldDef) (parent : Option TypeDef) (name : Option String) :
    said (find? field parent name) =
      Source.all.findSome? fun source => said (ask field parent name source) := by
  simp only [Source.all, List.findSome?, ask, find?, inParent?_eq]
  rcases inExtensions? field with fault | _ | d
  · rfl
  · rcases inResolver? field with _ | d
    · rcases attributed? parent name Text.snakeCase with _ | d
      · rcases attributed? parent name id with _ | d
        · rcases inDirectives? field with fault | _ | d <;> rfl
        · rfl
      · rfl
    · rfl
  · rfl

/-- Two searches of a list have the same result if they agree up to a hit. -/
theorem findSome?_congr_of_hit {α β : Type} {f g : α → Option β} {first rest : List α} {a : α}
    (same : ∀ b ∈ first, f b = g b) (member : a ∈ first) (hit : g a ≠ none) :
    (first ++ rest).findSome? f = (first ++ rest).findSome? g := by
  induction first with
  | nil => cases member
  | cons b others ih =>
    rw [List.forall_mem_cons] at same
    rw [List.cons_append, List.findSome?_cons, List.findSome?_cons, same.1]
    cases found : g b with
    | some result => rfl
    | none =>
      rcases List.mem_cons.mp member with rfl | later
      · exact absurd found hit
      · exact ih same.2 later

section Search

variable {field : FieldDef} {parent : Option TypeDef} {name : Option String}

/-- The outcome of the search is that of the first source that says something. -/
theorem find?_eq_iff {outcome : Except Fault Declaration} :
    find? field parent name = outcome.map some ↔
      ∃ before source after, Source.all = before ++ source :: after ∧
        source.Says field parent name outcome ∧
        ∀ earlier ∈ before, ∀ other, ¬ earlier.Says field parent name other := by
  rw [← said_eq_some, said_find?, List.findSome?_eq_some_iff]
  simp only [said_ask, Option.eq_none_iff_forall_ne_some, ne_eq]

/-- The search finds nothing exactly if no source says anything. -/
theorem find?_eq_none_iff :
    find? field parent name = .ok none ↔
      ∀ (source : Source) outcome, ¬ source.Says field parent name outcome := by
  have listed : ∀ source, source ∈ Source.all := by
    intro source
    cases source <;> decide
  rw [← said_eq_none, said_find?, List.findSome?_eq_none_iff]
  simp only [listed, forall_const, said_ask, Option.eq_none_iff_forall_ne_some, ne_eq]

/-- The search does not look beyond the first source that says something. -/
theorem find?_congr {before after : List Source} {source : Source} {outcome : Except Fault Declaration}
    (order : Source.all = before ++ source :: after) (saying : source.Says field parent name outcome)
    {field' : FieldDef} {parent' : Option TypeDef} {name' : Option String}
    (agree : ∀ same ∈ before ++ [source], ∀ other,
      same.Says field' parent' name' other ↔ same.Says field parent name other) :
    find? field' parent' name' = find? field parent name := by
  have asked : ∀ same ∈ before ++ [source],
      said (ask field' parent' name' same) = said (ask field parent name same) := by
    intro same member
    apply Option.ext
    intro other
    rw [said_ask, said_ask]
    exact agree same member other
  have order : Source.all = (before ++ [source]) ++ after := by simp [order]
  have hit : said (ask field parent name source) ≠ none := by
    rw [said_ask.mpr saying]
    exact Option.some_ne_none _
  apply said_injective
  rw [said_find?, said_find?, order]
  exact findSome?_congr_of_hit asked (by simp) hit

end Search

/-- The cost of a field is what the first source says, in the order of extension, resolver, attribute under the
snake-case name, attribute under the plain name, and directive; be it a declaration or a fault. If
no source says anything, no cost is declared. What is said after the first source that says something has no
influence: a field for which the sources up to that one say the same has the same cost, or the
same fault. -/
theorem find?_eq_first (field : FieldDef) (parent : Option TypeDef) (name : Option String) :
    (∀ outcome : Except Fault Declaration, find? field parent name = outcome.map some ↔
      ∃ before source after, Source.all = before ++ source :: after ∧
        source.Says field parent name outcome ∧
        ∀ earlier ∈ before, ∀ other, ¬ earlier.Says field parent name other) ∧
    (find? field parent name = .ok none ↔
      ∀ (source : Source) outcome, ¬ source.Says field parent name outcome) ∧
    ∀ before source after outcome, Source.all = before ++ source :: after →
      source.Says field parent name outcome → ∀ field' parent' name',
      (∀ same ∈ before ++ [source], ∀ other,
        same.Says field' parent' name' other ↔ same.Says field parent name other) →
      find? field' parent' name' = find? field parent name := by
  refine ⟨fun outcome => find?_eq_iff, find?_eq_none_iff, ?_⟩
  intro before source after outcome order saying field' parent' name' agree
  exact find?_congr order saying agree

/-- A text as extension, two layers of a resolver without a declaration, and two directives of which only the
second has a number. -/
def elsewhere : FieldDef :=
  ⟨"allUsers", .named "Query", [], some [("complexity", .str "high")],
    some (.wrapped none (.bare none)),
    [⟨"complexity", [("value", .str "4" false)]⟩, ⟨"complexity", [("value", .int "4")]⟩]⟩

/-- A class with an unset attribute, and a declaration inside the attribute of the plain name. -/
def users : TypeDef :=
  ⟨"Query", .object [] [elsewhere],
    some [("all_users", none), ("allUsers", some (.wrapped none (.bare (some ⟨.num (.int 2), []⟩))))]⟩

theorem find?_eq_first_attribute :
    find? elsewhere (some users) (some "allUsers") = .ok (some ⟨.num (.int 2), []⟩) ∧
    find? elsewhere none none = .ok none ∧
    ∀ directives, find? { elsewhere with directives := directives } (some users) (some "allUsers") =
      .ok (some ⟨.num (.int 2), []⟩) := by
  have snake : Text.snakeCase "allUsers" = "all_users" := by decide +kernel
  have found : Source.Says elsewhere (some users) (some "allUsers") .plainAttribute
      (.ok ⟨.num (.int 2), []⟩) :=
    .plainAttribute rfl (by decide) ⟨users, _, _, rfl, rfl, rfl, 1, _, rfl, rfl⟩
  have silent : ∀ {parent name source}, ask elsewhere parent name source = .ok none →
      ∀ outcome, ¬ source.Says elsewhere parent name outcome := by
    intro parent name source asked outcome
    rw [← said_ask, asked]
    rintro ⟨⟩
  have unset : ask elsewhere (some users) (some "allUsers") .snakeAttribute = .ok none := by
    rw [ask, attributed?, users]
    simp [snake, inOwner?]
  have order : Source.all =
      [.extension, .resolver, .snakeAttribute] ++ .plainAttribute :: [.directive] := rfl
  obtain ⟨first, nothing, later⟩ := find?_eq_first elsewhere (some users) (some "allUsers")
  have decided : find? elsewhere (some users) (some "allUsers") = .ok (some ⟨.num (.int 2), []⟩) := by
    refine (first (.ok ⟨.num (.int 2), []⟩)).mpr ⟨_, _, _, order, found, ?_⟩
    simp only [List.forall_mem_cons]
    exact ⟨silent rfl, silent rfl, silent unset, List.forall_mem_nil _⟩
  refine ⟨decided, (find?_eq_first elsewhere none none).2.1.mpr ?_, ?_⟩
  · intro source
    cases source <;> exact silent rfl
  · intro directives
    rw [later _ _ _ _ order found _ (some users) (some "allUsers") ?_]
    · exact decided
    · intro same member outcome
      rw [← said_ask, ← said_ask]
      simp only [List.cons_append, List.nil_append, List.mem_cons, List.not_mem_nil, or_false] at member
      rcases member with rfl | rfl | rfl | rfl <;> exact Iff.rfl

end Declaration

end QueryCost
