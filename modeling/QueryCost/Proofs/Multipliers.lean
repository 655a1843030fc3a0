import QueryCost.Proofs.ClosedForm
import QueryCost.Proofs.Variables

/-!
# Arguments as multipliers

A declaration names arguments, and the values of these multiply the cost of the children. Names and values
are written in different places: values are kept under the keys of the arguments, while a declaration may use the
name in the schema or the key. `ArgDef.reading?` says what comes of one argument alone, from a literal, a variable
or its default. If no two arguments share a key, each keeps what was read for it (`get?_argumentValues?`), and a
name that leads to an argument leads to this value (`FieldDef.Names.multiplierKey`). So the declared cost of
a field can be told from the arguments, each read for itself.
-/
namespace QueryCost

/-- What comes of an argument without a value of its own: its default, nothing, or no reading at all. -/
def ArgDef.fallback? (arg : ArgDef) : Option (Option Value) :=
  match arg.default with
  | some v => some (some v)
  | none => if arg.type.isNonNull then none else some none

/-- What comes of an argument: nothing if it does not fit, and else a value or none. -/
def ArgDef.reading? (schema : Schema) (vars : Entries) (given : List (String × Literal))
    (arg : ArgDef) : Option (Option Value) :=
  match givenArgument? given arg.name with
  | none => arg.fallback?
  | some (.var name) =>
    if Entries.contains vars name then (Literal.variableValue? vars arg.type name).map some
    else arg.fallback?
  | some literal => (literal.value? schema vars arg.type).map some

section Readings

variable {schema : Schema} {vars entries args : Entries} {given : List (String × Literal)}
  {defs : List ArgDef}

theorem ArgDef.absent_eq_fallback? (arg : ArgDef) (entries : Entries) :
    arg.absent entries = arg.fallback?.map (Entries.keep entries arg.key) := by
  unfold absent fallback?
  cases arg.default with
  | some v => rfl
  | none => cases arg.type.isNonNull <;> rfl

/-- What is read for an argument is kept under its key. -/
theorem ArgDef.read?_eq_reading? (arg : ArgDef) (entries : Entries) :
    arg.read? schema vars given entries =
      (arg.reading? schema vars given).map (Entries.keep entries arg.key) := by
  unfold read? reading?
  cases givenArgument? given arg.name with
  | none => exact arg.absent_eq_fallback? entries
  | some literal =>
    cases literal with
    | var name =>
      dsimp only
      split
      · exact (Option.map_map (Entries.keep entries arg.key) some _).symm
      · exact arg.absent_eq_fallback? entries
    | _ => exact (Option.map_map (Entries.keep entries arg.key) some _).symm

/-- Read arguments one after the other, with what was read before them. -/
def readArguments? (schema : Schema) (vars : Entries) (given : List (String × Literal))
    (entries : Entries) (defs : List ArgDef) : Option Entries :=
  defs.foldlM (fun entries arg => arg.read? schema vars given entries) entries

theorem readArguments?_cons_success {arg : ArgDef}
    (success : readArguments? schema vars given entries (arg :: defs) = some args) :
    ∃ read, arg.reading? schema vars given = some read ∧
      readArguments? schema vars given (Entries.keep entries arg.key read) defs = some args := by
  rw [readArguments?, List.foldlM_cons, ArgDef.read?_eq_reading?] at success
  obtain ⟨kept, first, others⟩ := Option.bind_eq_some_iff.mp success
  obtain ⟨read, reading, rfl⟩ := Option.map_eq_some_iff.mp first
  exact ⟨read, reading, others⟩

/-- A key of none of the arguments keeps what it had. -/
theorem get?_readArguments?_of_other
    (success : readArguments? schema vars given entries defs = some args) {key : String}
    (other : key ∉ defs.map ArgDef.key) : Entries.get? args key = Entries.get? entries key := by
  induction defs generalizing entries with
  | nil =>
    cases success
    rfl
  | cons arg rest ih =>
    rw [List.map_cons, List.mem_cons, not_or] at other
    obtain ⟨read, -, success⟩ := readArguments?_cons_success success
    rw [ih success other.2, Entries.get?_keep_of_ne other.1]

/-- An argument with a key of its own keeps what was read for it. -/
theorem get?_readArguments? (distinct : (defs.map ArgDef.key).Nodup)
    (success : readArguments? schema vars given entries defs = some args)
    (fresh : ∀ arg ∈ defs, Entries.get? entries arg.key = none) {arg : ArgDef} (defined : arg ∈ defs) :
    arg.reading? schema vars given = some (Entries.get? args arg.key) := by
  induction defs generalizing entries with
  | nil => cases defined
  | cons first rest ih =>
    rw [List.map_cons, List.nodup_cons] at distinct
    rw [List.forall_mem_cons] at fresh
    obtain ⟨read, reading, success⟩ := readArguments?_cons_success success
    rcases List.mem_cons.mp defined with rfl | later
    · rw [reading, get?_readArguments?_of_other success distinct.1, Entries.get?_keep_self fresh.1]
    · refine ih distinct.2 success (fun other member => ?_) later
      have differ : other.key ≠ first.key := by
        intro same
        exact distinct.1 (same ▸ List.mem_map_of_mem member)
      rw [Entries.get?_keep_of_ne differ, fresh.2 other member]

theorem get?_argumentValues? (distinct : (defs.map ArgDef.key).Nodup)
    (success : argumentValues? schema defs given vars = some args) {arg : ArgDef}
    (defined : arg ∈ defs) : arg.reading? schema vars given = some (Entries.get? args arg.key) :=
  get?_readArguments? distinct success (fun _ _ => rfl) defined

end Readings

/-- A name by which a declaration can mean an argument: the one in the schema, or the key if no other argument
has that for a name. -/
def FieldDef.Names (field : FieldDef) (name : String) (arg : ArgDef) : Prop :=
  field.arg? name = some arg ∨
  (arg ∈ field.args ∧ name = arg.key ∧ ∀ other, field.arg? name = some other → other = arg)

namespace FieldDef.Names

variable {field : FieldDef} {name : String} {arg : ArgDef}

theorem defined (names : field.Names name arg) : arg ∈ field.args := by
  rcases names with found | ⟨member, -⟩
  · exact List.mem_of_find?_eq_some found
  · exact member

/-- Whichever name is used, the value is looked up under the key. -/
theorem multiplierKey (names : field.Names name arg) : Estimate.multiplierKey field name = arg.key := by
  unfold Estimate.multiplierKey
  rcases names with found | ⟨-, rfl, unique⟩
  · rw [found]
  · cases found : field.arg? arg.key with
    | none => rfl
    | some other => rw [unique other found]

end FieldDef.Names

/-- What one argument contributes to a product: its value if that is an integer, and one otherwise. -/
def ArgDef.multiplier (schema : Schema) (vars : Entries) (given : List (String × Literal))
    (arg : ArgDef) : Int :=
  match arg.reading? schema vars given with
  | some (some (.num (.int n))) => n
  | _ => 1

/-- If the argument is read as a number, this is an integer in the range of doubles. -/
def ArgDef.IsIntegral (schema : Schema) (vars : Entries) (given : List (String × Literal))
    (arg : ArgDef) : Prop :=
  ∀ x, arg.reading? schema vars given = some (some (.num x)) → ∃ n, x = .int n ∧ Number.InRange n

namespace Scope

variable {scope : Scope} {t : TypeDef} {field : FieldDef} {head : FieldHead} {base child : Int}
  {names : List String} {args : List ArgDef}

theorem site_of_success {entries : Entries}
    (success : argumentValues? scope.schema field.args head.args scope.vars = some entries) :
    (scope.site t field head).1 = ⟨field, head.name, t, entries⟩ := by
  rw [site, success]

theorem site_of_failure
    (failure : argumentValues? scope.schema field.args head.args scope.vars = none) :
    (scope.site t field head).1 = ⟨field, head.name, t, []⟩ := by
  rw [site, failure]

theorem declaration?_site : (scope.site t field head).1.declaration? =
    Declaration.find? field (some t) (some head.name) := by
  rw [site]
  split <;> rfl

/-- After a successful reading, a named argument has the value that is read for it alone. -/
theorem argument_site {entries : Entries} (distinct : (field.args.map ArgDef.key).Nodup)
    (success : argumentValues? scope.schema field.args head.args scope.vars = some entries)
    {name : String} {arg : ArgDef} (means : field.Names name arg) :
    ∃ read, arg.reading? scope.schema scope.vars head.args = some read ∧
      (scope.site t field head).1.argument name = read.getD .null := by
  refine ⟨_, get?_argumentValues? distinct success means.defined, ?_⟩
  rw [site_of_success success, Site.argument, means.multiplierKey]

theorem multiplier_site {entries : Entries} (distinct : (field.args.map ArgDef.key).Nodup)
    (success : argumentValues? scope.schema field.args head.args scope.vars = some entries)
    {name : String} {arg : ArgDef} (means : field.Names name arg) :
    (scope.site t field head).1.multiplier (.str name) =
      arg.multiplier scope.schema scope.vars head.args := by
  obtain ⟨read, reading, value⟩ := argument_site (t := t) distinct success means
  rw [Site.multiplier, value, ArgDef.multiplier, reading]
  cases read with
  | none => rfl
  | some v =>
    dsimp only [Option.getD_some]
    cases v with
    | num x => cases x <;> rfl
    | _ => rfl

theorem prod_multiplier_site {entries : Entries} (distinct : (field.args.map ArgDef.key).Nodup)
    (success : argumentValues? scope.schema field.args head.args scope.vars = some entries)
    (means : List.Forall₂ field.Names names args) :
    ((names.map .str).map (scope.site t field head).1.multiplier).prod =
      (args.map (·.multiplier scope.schema scope.vars head.args)).prod := by
  induction means with
  | nil => rfl
  | cons first _ ih =>
    simp only [List.map_cons, List.prod_cons, ih, multiplier_site distinct success first]

theorem integerArguments_site {entries : Entries} (distinct : (field.args.map ArgDef.key).Nodup)
    (success : argumentValues? scope.schema field.args head.args scope.vars = some entries)
    (means : List.Forall₂ field.Names names args)
    (integral : ∀ arg ∈ args, arg.IsIntegral scope.schema scope.vars head.args) :
    (scope.site t field head).1.IntegerArguments names := by
  induction means with
  | nil => exact List.forall_mem_nil _
  | @cons name arg _ _ first _ ih =>
    rw [List.forall_mem_cons] at integral
    refine List.forall_mem_cons.mpr ⟨?_, ih integral.2⟩
    intro x given
    obtain ⟨read, reading, value⟩ := argument_site (t := t) distinct success first
    rw [value] at given
    cases read with
    | none => cases given
    | some v =>
      obtain rfl : v = .num x := given
      exact integral.1 x reading

/-- A declared field costs its base, plus its children times the product of the arguments that are named. -/
theorem declaration_returns_of_success {entries : Entries}
    (declared : Declaration.find? field (some t) (some head.name) =
      .ok (some ⟨.num (.int base), names.map .str⟩))
    (distinct : (field.args.map ArgDef.key).Nodup) (means : List.Forall₂ field.Names names args)
    (integral : ∀ arg ∈ args, arg.IsIntegral scope.schema scope.vars head.args)
    (success : argumentValues? scope.schema field.args head.args scope.vars = some entries) :
    (Formula.declaration.estimate ((scope.site t field head).1.call (.int child))).Returns
      (((scope.site t field head).1.call (.int child)).reply
        (.num (.int (base + (args.map (·.multiplier scope.schema scope.vars head.args)).prod * child)))) := by
  rw [← prod_multiplier_site (t := t) distinct success means]
  exact Site.declaration_returns (declaration?_site.trans declared)
    (integerArguments_site distinct success means integral)

/-- Without values all arguments count as one. -/
theorem declaration_returns_of_failure
    (declared : Declaration.find? field (some t) (some head.name) =
      .ok (some ⟨.num (.int base), names.map .str⟩))
    (failure : argumentValues? scope.schema field.args head.args scope.vars = none) :
    (Formula.declaration.estimate ((scope.site t field head).1.call (.int child))).Returns
      (((scope.site t field head).1.call (.int child)).reply (.num (.int (base + child)))) := by
  have absent : ∀ name, (scope.site t field head).1.argument name = .null := by
    intro name
    rw [site_of_failure failure]
    rfl
  have numeric : (scope.site t field head).1.IntegerArguments names := by
    intro name _ x given
    rw [absent] at given
    cases given
  have product : ((names.map .str).map (scope.site t field head).1.multiplier).prod = 1 := by
    apply List.prod_eq_one
    intro factor member
    rw [List.map_map, List.mem_map] at member
    obtain ⟨name, -, rfl⟩ := member
    rw [Function.comp_apply, Site.multiplier, absent]
  have returned := @Site.declaration_returns child _ _ _ (declaration?_site.trans declared) numeric
  rw [product, one_mul] at returned
  exact returned

/-- The declared cost of a field above children of an integer cost, for a base and arguments that are integers. The
names in the declaration, in any number and with repetitions, are names of arguments in the schema or keys of
arguments that are not the name of another, and no two arguments share a key. If the arguments can be read, the cost
is the base plus the children times the product of what the named arguments are read as, where an
argument that is not an integer counts as one; otherwise it is the base plus the children. Another order of
the names, or other names of the same arguments, make no difference. -/
theorem declared_cost_of_arguments (scope : Scope) (t : TypeDef) (field : FieldDef) (head : FieldHead)
    (base child : Int) (names : List String) (args : List ArgDef)
    (declared : Declaration.find? field (some t) (some head.name) =
      .ok (some ⟨.num (.int base), names.map .str⟩))
    (means : List.Forall₂ field.Names names args) (distinct : (field.args.map ArgDef.key).Nodup)
    (integral : ∀ arg ∈ args, arg.IsIntegral scope.schema scope.vars head.args) :
    (∀ entries, argumentValues? scope.schema field.args head.args scope.vars = some entries →
      (Formula.declaration.estimate ((scope.site t field head).1.call (.int child))).Returns
        (((scope.site t field head).1.call (.int child)).reply (.num (.int (base +
          (args.map (·.multiplier scope.schema scope.vars head.args)).prod * child))))) ∧
    (argumentValues? scope.schema field.args head.args scope.vars = none →
      (Formula.declaration.estimate ((scope.site t field head).1.call (.int child))).Returns
        (((scope.site t field head).1.call (.int child)).reply (.num (.int (base + child))))) ∧
    ∀ field' names' args', field'.args = field.args →
      Declaration.find? field' (some t) (some head.name) =
        .ok (some ⟨.num (.int base), names'.map .str⟩) →
      List.Forall₂ field.Names names' args' → args'.Perm args →
      ∃ cost,
        (Formula.declaration.estimate ((scope.site t field head).1.call (.int child))).Returns
          (((scope.site t field head).1.call (.int child)).reply cost) ∧
        (Formula.declaration.estimate ((scope.site t field' head).1.call (.int child))).Returns
          (((scope.site t field' head).1.call (.int child)).reply cost) := by
  refine ⟨?_, ?_, ?_⟩
  · intro entries success
    exact declaration_returns_of_success declared distinct means integral success
  · intro failure
    exact declaration_returns_of_failure declared failure
  · intro field' names' args' same declared' means' perm
    cases read : argumentValues? scope.schema field.args head.args scope.vars with
    | none =>
      refine ⟨_, declaration_returns_of_failure declared read, ?_⟩
      exact declaration_returns_of_failure declared' (same ▸ read)
    | some entries =>
      have alike : field'.Names = field.Names := by
        funext name arg
        simp only [FieldDef.Names, FieldDef.arg?, same]
      refine ⟨_, declaration_returns_of_success declared distinct means integral read, ?_⟩
      rw [← (perm.map (·.multiplier scope.schema scope.vars head.args)).prod_eq]
      exact declaration_returns_of_success declared' (same ▸ distinct) (alike ▸ means')
        (fun arg member => integral arg (perm.mem_iff.mp member)) (same ▸ read)

/-- A page size with a default and a key of its own, a number of items and a switch. -/
def paging : List ArgDef :=
  [⟨"pageSize", .named "Int", some (.num (.int 3)), some "page_size"⟩,
    ⟨"first", .named "Int", none, none⟩, ⟨"deep", .named "Boolean", none, none⟩]

/-- A field with these arguments and the names of some of them as multipliers. -/
def paged (names : List String) : FieldDef :=
  ⟨"users", .named "Query", paging,
    some [("complexity", .declared (.num (.int 2)) (names.map .str))], none, []⟩

def pagedScope : Scope :=
  ⟨⟨[⟨"Int", .scalar .int, none⟩, ⟨"Boolean", .scalar .boolean, none⟩], none, none, none, []⟩, [],
    [("n", .num (.int 5))]⟩

/-- The field with arguments, above children of cost seven. -/
def pagedCall (names : List String) (given : List (String × Literal)) : Call :=
  (pagedScope.site ⟨"Query", .object [] [], none⟩ (paged names) ⟨none, "users", given, []⟩).1.call
    (.int 7)

/-- A default, a variable that is named twice and a Boolean; the same arguments in another order and one of
them by its key; and an argument that cannot be read. -/
theorem declared_cost_of_arguments_paged :
    let call := pagedCall ["pageSize", "first", "first", "deep"] [("first", .var "n"), ("deep", .bool true)]
    let respelled := pagedCall ["deep", "first", "page_size", "first"]
      [("first", .var "n"), ("deep", .bool true)]
    let unread := pagedCall ["pageSize", "first", "first", "deep"] [("first", .str "n" false)]
    (Formula.declaration.estimate call).Returns (call.reply (.num (.int 527))) ∧
    (Formula.declaration.estimate respelled).Returns (respelled.reply (.num (.int 527))) ∧
    (Formula.declaration.estimate unread).Returns (unread.reply (.num (.int 9))) := by
  intro call respelled unread
  have declared : ∀ names, Declaration.find? (paged names) (some ⟨"Query", .object [] [], none⟩)
      (some "users") = .ok (some ⟨.num (.int 2), names.map .str⟩) := fun _ => rfl
  have distinct : (paging.map ArgDef.key).Nodup := by decide
  have means : ∀ names, List.Forall₂ (paged names).Names ["pageSize", "first", "first", "deep"]
      [paging[0], paging[1], paging[1], paging[2]] :=
    fun _ => .cons (.inl rfl) (.cons (.inl rfl) (.cons (.inl rfl) (.cons (.inl rfl) .nil)))
  have keyed : ∀ names, (paged names).Names "page_size" paging[0] := by
    intro names
    refine .inr ⟨List.mem_cons_self, rfl, ?_⟩
    rintro other ⟨⟩
  have means' : ∀ names, List.Forall₂ (paged names).Names ["deep", "first", "page_size", "first"]
      [paging[2], paging[1], paging[0], paging[1]] :=
    fun names => .cons (.inl rfl) (.cons (.inl rfl) (.cons (keyed names) (.cons (.inl rfl) .nil)))
  have integer : ∀ {n : Int}, Number.InRange n → ∀ x,
      some (some (Value.num (.int n))) = some (some (.num x)) → ∃ m, x = .int m ∧ Number.InRange m := by
    rintro n range x ⟨⟩
    exact ⟨n, rfl, range⟩
  have three : Number.InRange 3 := by decide +kernel
  have five : Number.InRange 5 := by decide +kernel
  have integral : ∀ arg ∈ [paging[0], paging[1], paging[1], paging[2]],
      arg.IsIntegral pagedScope.schema pagedScope.vars [("first", .var "n"), ("deep", .bool true)] := by
    simp only [List.forall_mem_cons]
    exact ⟨integer three, integer five, integer five, by rintro x ⟨⟩, List.forall_mem_nil _⟩
  have integral' : ∀ arg ∈ [paging[0], paging[1], paging[1], paging[2]],
      arg.IsIntegral pagedScope.schema pagedScope.vars [("first", .str "n" false)] := by
    simp only [List.forall_mem_cons]
    exact ⟨integer three, by rintro x ⟨⟩, by rintro x ⟨⟩, by rintro x ⟨⟩, List.forall_mem_nil _⟩
  have order : [paging[2], paging[1], paging[0], paging[1]].Perm
      [paging[0], paging[1], paging[1], paging[2]] :=
    (List.reverse_perm _).symm.trans (.swap ..)
  obtain ⟨read, -, others⟩ := declared_cost_of_arguments pagedScope _ (paged _)
    ⟨none, "users", [("first", .var "n"), ("deep", .bool true)], []⟩ 2 7 _ _ (declared _) (means _) distinct
    integral
  obtain ⟨-, missing, -⟩ := declared_cost_of_arguments pagedScope _ (paged _)
    ⟨none, "users", [("first", .str "n" false)], []⟩ 2 7 _ _ (declared _) (means _) distinct integral'
  have first : (Formula.declaration.estimate call).Returns (call.reply (.num (.int 527))) := read _ rfl
  obtain ⟨cost, before, after⟩ := others (paged ["deep", "first", "page_size", "first"]) _ _ rfl
    (declared _) (means' _) order
  obtain ⟨_, ended⟩ := first ⟨.empty, #[]⟩
  obtain rfl : .num (.int 527) = cost := congrArg Reply.answer (before.unique ended)
  exact ⟨first, after, missing rfl⟩

end Scope

end QueryCost
