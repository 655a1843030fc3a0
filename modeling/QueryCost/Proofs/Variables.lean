import QueryCost.Proofs.SharedPath
import QueryCost.Proofs.Verdict

/-!
# The variables that an operation sees

If everything that a client sends for the declared variables fits, the operation sees these variables and no
others. `VariableDef.reading?` says what comes of one declaration, and an operation goes through its
declarations and keeps their readings (`read?_eq_reading?`). So a variable that is not declared has no value,
whatever is sent under its name, and values for such variables change nothing: pricing is the same run.

Where something does not fit, all is taken as it was sent, and then the other variables do count. So the
statements here speak of variables that fit.
-/
namespace QueryCost

variable {σ : Type}

/-- Folds over the same list whose steps are the same. -/
theorem foldlM_congr_of_mem {m : Type → Type} [Monad m] {α β : Type} {f g : β → α → m β}
    {items : List α} (same : ∀ b, ∀ a ∈ items, f b a = g b a) (b : β) :
    items.foldlM f b = items.foldlM g b := by
  induction items generalizing b with
  | nil => rfl
  | cons a rest ih =>
    have first := same b a List.mem_cons_self
    have others := ih fun b a member => same b a (List.mem_cons_of_mem _ member)
    simp only [List.foldlM_cons, first, others]

namespace Entries

/-- Keep what was read under a key, if there is a value. -/
def keep (entries : Entries) (key : String) : Option Value → Entries
  | none => entries
  | some v => insert entries key v

theorem get?_keep_of_ne {key other : String} (differ : other ≠ key) (entries : Entries)
    (read : Option Value) : get? (keep entries key read) other = get? entries other := by
  cases read with
  | none => rfl
  | some v => rw [keep, get?_insert, if_neg differ]

theorem get?_keep_self {entries : Entries} {key : String} (absent : get? entries key = none)
    (read : Option Value) : get? (keep entries key read) key = read := by
  cases read with
  | none => exact absent
  | some v => rw [keep, get?_insert, if_pos rfl]

end Entries

/-- What comes of a declared variable: nothing if it does not fit, and else a value or none. -/
def VariableDef.reading? (schema : Schema) (sent : Entries) (var : VariableDef) :
    Option (Option Value) :=
  if !schema.isInputRef var.type then none
  else match Entries.get? sent var.name with
    | none => match var.default with
      | some literal => some (some ((literal.value? schema [] var.type).getD .undefined))
      | none => if var.type.isNonNull then none else some none
    | some v => (v.read? schema var.type).map some

/-- Of what was sent, only the value under the variable's own name is read. -/
theorem VariableDef.read?_eq_reading? (schema : Schema) (sent coerced : Entries)
    (var : VariableDef) :
    var.read? schema sent coerced =
      (var.reading? schema sent).map (Entries.keep coerced var.name) := by
  unfold read? reading?
  cases schema.isInputRef var.type with
  | false => rfl
  | true =>
    cases Entries.get? sent var.name with
    | some v => exact (Option.map_map (Entries.keep coerced var.name) some _).symm
    | none =>
      cases var.default with
      | some literal => rfl
      | none => cases var.type.isNonNull <;> rfl

theorem VariableDef.reading?_congr (schema : Schema) {sent sent' : Entries} {var : VariableDef}
    (same : Entries.get? sent' var.name = Entries.get? sent var.name) :
    var.reading? schema sent' = var.reading? schema sent := by
  unfold reading?
  rw [same]

section Readings

variable {schema : Schema} {sent sent' coerced result : Entries} {vars : List VariableDef}

/-- Go through declarations, with what was read before them. -/
def readAll? (schema : Schema) (sent coerced : Entries) (vars : List VariableDef) : Option Entries :=
  vars.foldlM (fun coerced var => var.read? schema sent coerced) coerced

theorem readAll?_cons (var : VariableDef) :
    readAll? schema sent coerced (var :: vars) = (do
      let read ← var.reading? schema sent
      readAll? schema sent (Entries.keep coerced var.name read) vars) := by
  simp only [readAll?, List.foldlM_cons, VariableDef.read?_eq_reading?]
  cases var.reading? schema sent <;> rfl

theorem readAll?_cons_success {var : VariableDef}
    (success : readAll? schema sent coerced (var :: vars) = some result) :
    ∃ read, var.reading? schema sent = some read ∧
      readAll? schema sent (Entries.keep coerced var.name read) vars = some result := by
  rw [readAll?_cons] at success
  exact Option.bind_eq_some_iff.mp success

theorem readAll?_congr
    (agree : ∀ var ∈ vars, Entries.get? sent' var.name = Entries.get? sent var.name) :
    readAll? schema sent' coerced vars = readAll? schema sent coerced vars := by
  refine foldlM_congr_of_mem ?_ coerced
  intro coerced var member
  have same := VariableDef.reading?_congr schema (agree var member)
  rw [VariableDef.read?_eq_reading?, VariableDef.read?_eq_reading?, same]

/-- A name that is not declared keeps what it had. -/
theorem get?_readAll?_of_undeclared (success : readAll? schema sent coerced vars = some result)
    {name : String} (undeclared : ∀ var ∈ vars, var.name ≠ name) :
    Entries.get? result name = Entries.get? coerced name := by
  induction vars generalizing coerced with
  | nil =>
    cases success
    rfl
  | cons var rest ih =>
    rw [List.forall_mem_cons] at undeclared
    obtain ⟨read, -, success⟩ := readAll?_cons_success success
    rw [ih success undeclared.2, Entries.get?_keep_of_ne undeclared.1.symm]

end Readings

/-- Two maps agree on the variables that an operation declares, in presence and in value. -/
def Operation.AgreeOn (op : Operation) (sent sent' : Entries) : Prop :=
  ∀ var ∈ op.vars, Entries.get? sent' var.name = Entries.get? sent var.name

namespace Operation

variable {schema : Schema} {op : Operation} {sent sent' vars : Entries}

theorem AgreeOn.coerceVariables? (agree : op.AgreeOn sent sent') (schema : Schema) :
    op.coerceVariables? schema sent' = op.coerceVariables? schema sent :=
  readAll?_congr agree

/-- An operation whose variables fit sees no other ones. -/
theorem get?_coerced_of_undeclared (coerced : op.coerceVariables? schema sent = some vars)
    {name : String} (undeclared : ∀ var ∈ op.vars, var.name ≠ name) :
    Entries.get? vars name = none := by
  have read : readAll? schema sent [] op.vars = some vars := coerced
  rw [get?_readAll?_of_undeclared read undeclared, Entries.get?_nil]

theorem variablesFor_of_coerced (coerced : op.coerceVariables? schema sent = some vars) :
    (op.variablesFor schema sent : Run σ Entries) = return vars := by
  simp only [variablesFor, coerced]

end Operation

namespace Rule

/-- The rule with other values for variables. -/
def withVars (rule : Rule σ) (sent : Entries) : Rule σ := { rule with vars := sent }

/-- The rule with all calls of its estimators logged. -/
def logged (rule : Rule σ) : Rule (σ × List (Nat × Call)) :=
  ⟨loggedChain rule.chain, rule.limits, rule.schema, rule.vars⟩

variable {rule : Rule σ} {schema : Schema} {fragments : List Fragment} {op : Operation}

theorem score?_withVars {sent' vars : Entries} (agree : op.AgreeOn rule.vars sent')
    (coerced : op.coerceVariables? (rule.schema.getD schema) rule.vars = some vars) :
    (rule.withVars sent').score? schema fragments op = rule.score? schema fragments op := by
  have coerced' : op.coerceVariables? (rule.schema.getD schema) sent' = some vars :=
    (agree.coerceVariables? _).trans coerced
  cases rooted : (rule.schema.getD schema).root? op.kind with
  | none =>
    rw [score?_of_rootless op rooted]
    exact @score?_of_rootless σ (rule.withVars sent') schema fragments op rooted
  | some root =>
    rw [score?_of_root op rooted, @score?_of_root σ (rule.withVars sent') schema fragments op _ rooted,
      Operation.variablesFor_of_coerced coerced]
    simp only [withVars, Operation.variablesFor_of_coerced coerced']

theorem enter_withVars {sent' vars : Entries} (agree : op.AgreeOn rule.vars sent')
    (coerced : op.coerceVariables? (rule.schema.getD schema) rule.vars = some vars) (p : Progress) :
    (rule.withVars sent').enter schema fragments p op = rule.enter schema fragments p op := by
  unfold enter
  rw [score?_withVars agree coerced]
  rfl

/-- To an operation whose variables fit, two maps are the same if they agree on the variables that it declares.
It sees no other variables, wherever they are used. It is priced by the same run, which has the same score
or fault and leaves the same memory and notices, with the same calls of the estimators. A rule goes on from it
in the same way, so that it reports the same, and documents of such operations are checked alike. -/
theorem undeclared_variables_unseen (rule : Rule σ) (schema : Schema) (sent' : Entries) :
    (∀ fragments op vars, op.AgreeOn rule.vars sent' →
      op.coerceVariables? (rule.schema.getD schema) rule.vars = some vars →
      op.coerceVariables? (rule.schema.getD schema) sent' = some vars ∧
      (∀ name, (∀ var ∈ op.vars, var.name ≠ name) → Entries.get? vars name = none) ∧
      (rule.withVars sent').score? schema fragments op = rule.score? schema fragments op ∧
      (∀ s, (((rule.withVars sent').logged.score? schema fragments op).exec s).2.memory.2 =
        ((rule.logged.score? schema fragments op).exec s).2.memory.2) ∧
      ∀ p, (rule.withVars sent').enter schema fragments p op = rule.enter schema fragments p op) ∧
    ∀ doc, (∀ op ∈ doc.operations, op.AgreeOn rule.vars sent' ∧
        ∃ vars, op.coerceVariables? (rule.schema.getD schema) rule.vars = some vars) →
      (rule.withVars sent').check schema doc = rule.check schema doc := by
  constructor
  · intro fragments op vars agree coerced
    refine ⟨(agree.coerceVariables? _).trans coerced, ?_, score?_withVars agree coerced, ?_, ?_⟩
    · intro name undeclared
      exact Operation.get?_coerced_of_undeclared coerced undeclared
    · intro s
      have same : (rule.logged.withVars sent').score? schema fragments op = _ :=
        score?_withVars agree coerced
      exact congrArg (fun run => (run.exec s).2.memory.2) same
    · exact enter_withVars agree coerced
  · intro doc fits
    refine foldlM_congr_of_mem ?_ _
    intro p op member
    obtain ⟨agree, vars, coerced⟩ := fits op member
    exact enter_withVars agree coerced p

/-- A query root whose field takes a number and a list. -/
def listedItems : Schema :=
  ⟨[⟨"Query", .object [] [⟨"items", .named "Query", [⟨"limit", .named "Int", none, none⟩,
      ⟨"flags", .list (.named "Boolean"), none, none⟩], none, none, []⟩], none⟩,
    ⟨"Int", .scalar .int, none⟩, ⟨"Boolean", .scalar .boolean, none⟩], some "Query", none, none, []⟩

/-- The operation declares `n`, and uses `x` in a list and in a condition. -/
def borrowing : Operation :=
  ⟨.query, none, [⟨"n", .named "Int", none, []⟩], [],
    [.field ⟨none, "items", [("limit", .var "n"), ("flags", .list [.var "x"])], []⟩
      [.field ⟨none, "items", [], [⟨"skip", [("if", .var "x")]⟩]⟩ []]], ⟨1, 1⟩⟩

/-- A rule for which every field costs one more than its children, with values for variables. -/
def sending (sent : Entries) : Rule Unit := { undecided with vars := sent }

/-- What is sent for `x` does not remove the inner field. -/
theorem undeclared_variables_unseen_borrowing :
    borrowing.AgreeOn [("x", .bool true), ("n", .int 3)] [("n", .int 3)] ∧
    borrowing.coerceVariables? listedItems [("x", .bool true), ("n", .int 3)] =
      some [("n", .int 3)] ∧
    (sending [("n", .int 3)]).score? listedItems [] borrowing =
      (sending [("x", .bool true), ("n", .int 3)]).score? listedItems [] borrowing ∧
    ((sending [("n", .int 3)]).score? listedItems [] borrowing).Returns (some ⟨.int 2, 2⟩) := by
  have agree : borrowing.AgreeOn [("x", .bool true), ("n", .int 3)] [("n", .int 3)] :=
    List.forall_mem_singleton.mpr rfl
  have coerced : borrowing.coerceVariables? listedItems [("x", .bool true), ("n", .int 3)] =
      some [("n", .int 3)] := rfl
  have unseen := (undeclared_variables_unseen (sending [("x", .bool true), ("n", .int 3)])
    listedItems [("n", .int 3)]).1 [] borrowing _ agree coerced
  exact ⟨agree, coerced, unseen.2.2.1, fun s => ⟨_, rfl⟩⟩

end Rule

end QueryCost
