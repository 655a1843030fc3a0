import QueryCost.Proofs.Variables

/-!
# Literals in the place of a variable

A variable is used in the arguments of fields and directives, in an operation and in the fragments it spreads.
`replace` puts a literal in all these places and drops the declaration. Without it, the other variables
are read as before: the two maps of variables agree on all but one name (`Entries.AgreeOff`). So every
literal that does not mention the variable has the same value under both.
-/
namespace QueryCost

namespace Literal

mutual

/-- Whether a variable occurs in a literal. -/
def mentions (name : String) : Literal → Bool
  | .var other => other == name
  | .list items => itemsMention name items
  | .object fields => fieldsMention name fields
  | _ => false

def itemsMention (name : String) : List Literal → Bool
  | [] => false
  | item :: rest => mentions name item || itemsMention name rest

def fieldsMention (name : String) : List (String × Literal) → Bool
  | [] => false
  | (_, item) :: rest => mentions name item || fieldsMention name rest

end

mutual

/-- Put a literal in the place of a variable. -/
def replace (name : String) (new : Literal) : Literal → Literal
  | .var other => if other = name then new else .var other
  | .list items => .list (replaceItems name new items)
  | .object fields => .object (replaceFields name new fields)
  | literal => literal

def replaceItems (name : String) (new : Literal) : List Literal → List Literal
  | [] => []
  | item :: rest => replace name new item :: replaceItems name new rest

def replaceFields (name : String) (new : Literal) : List (String × Literal) → List (String × Literal)
  | [] => []
  | (key, item) :: rest => (key, replace name new item) :: replaceFields name new rest

end

section Replace

variable {name : String} (new : Literal)

mutual

theorem replace_of_not_mentions : ∀ literal : Literal, literal.mentions name = false →
    replace name new literal = literal
  | .var other, absent => by
    have differ : other ≠ name := by simpa [mentions] using absent
    rw [replace, if_neg differ]
  | .list items, absent => by
    rw [mentions] at absent
    rw [replace, replaceItems_of_not_mention items absent]
  | .object fields, absent => by
    rw [mentions] at absent
    rw [replace, replaceFields_of_not_mention fields absent]
  | .int _, _ | .float _, _ | .str _ _, _ | .bool _, _ | .null, _ | .enum _, _ => by simp [replace]

theorem replaceItems_of_not_mention : ∀ items : List Literal, itemsMention name items = false →
    replaceItems name new items = items
  | [], _ => rfl
  | item :: rest, absent => by
    rw [itemsMention, Bool.or_eq_false_iff] at absent
    rw [replaceItems, replace_of_not_mentions item absent.1,
      replaceItems_of_not_mention rest absent.2]

theorem replaceFields_of_not_mention : ∀ fields : List (String × Literal),
    fieldsMention name fields = false → replaceFields name new fields = fields
  | [], _ => rfl
  | (key, item) :: rest, absent => by
    rw [fieldsMention, Bool.or_eq_false_iff] at absent
    rw [replaceFields, replace_of_not_mentions item absent.1,
      replaceFields_of_not_mention rest absent.2]

end

variable (name)

theorem replaceFields_eq_map (fields : List (String × Literal)) :
    replaceFields name new fields = fields.map fun e => (e.1, replace name new e.2) := by
  induction fields with
  | nil => rfl
  | cons e rest ih => rw [replaceFields, ih, List.map_cons]

theorem givenArgument?_replaceFields (given : List (String × Literal)) (key : String) :
    givenArgument? (replaceFields name new given) key =
      (givenArgument? given key).map (replace name new) := by
  unfold givenArgument?
  rw [replaceFields_eq_map, ← List.map_reverse, List.find?_map, Option.map_map, Option.map_map]
  rfl

end Replace

end Literal

/-- Put a literal in the place of a variable. -/
def Directive.replace (name : String) (new : Literal) (directive : Directive) : Directive :=
  { directive with args := Literal.replaceFields name new directive.args }

def FieldHead.replace (name : String) (new : Literal) (head : FieldHead) : FieldHead :=
  { head with
    args := Literal.replaceFields name new head.args
    directives := head.directives.map (Directive.replace name new) }

namespace Selection

mutual

def replace (name : String) (new : Literal) : Selection → Selection
  | .field head below => .field (head.replace name new) (replaceAll name new below)
  | .inline condition directives below =>
    .inline condition (directives.map (Directive.replace name new)) (replaceAll name new below)
  | .spread fragment directives => .spread fragment (directives.map (Directive.replace name new))

def replaceAll (name : String) (new : Literal) : List Selection → List Selection
  | [] => []
  | s :: rest => replace name new s :: replaceAll name new rest

end

end Selection

def Fragment.replace (name : String) (new : Literal) (f : Fragment) : Fragment :=
  { f with
    directives := f.directives.map (Directive.replace name new)
    selections := Selection.replaceAll name new f.selections }

/-- Put a literal in the place of a variable and drop its declaration. -/
def Operation.replace (name : String) (new : Literal) (op : Operation) : Operation :=
  { op with
    vars := op.vars.filter (·.name != name)
    directives := op.directives.map (Directive.replace name new)
    selections := Selection.replaceAll name new op.selections }

/-- Two maps of variables agree on all but one. -/
def Entries.AgreeOff (name : String) (vars vars' : Entries) : Prop :=
  ∀ other, other ≠ name → Entries.get? vars' other = Entries.get? vars other

namespace Entries.AgreeOff

variable {name : String} {vars vars' : Entries}

theorem var (agree : AgreeOff name vars vars') {other : String}
    (absent : (Literal.var other).mentions name = false) :
    Entries.get? vars' other = Entries.get? vars other :=
  agree other (by simpa [Literal.mentions] using absent)

theorem isMissing (agree : AgreeOff name vars vars') {literal : Literal}
    (absent : literal.mentions name = false) :
    literal.isMissing vars' = literal.isMissing vars := by
  cases literal with
  | var other => simp only [Literal.isMissing, agree.var absent]
  | _ => rfl

mutual

theorem untyped (agree : AgreeOff name vars vars') : ∀ literal : Literal,
    literal.mentions name = false →
    literal.untyped vars' = literal.untyped vars
  | .var other, absent => by simp only [Literal.untyped, agree.var absent]
  | .list items, absent => by
    rw [Literal.mentions] at absent
    rw [Literal.untyped, Literal.untyped, untypedItems agree items absent]
  | .object fields, absent => by
    rw [Literal.mentions] at absent
    rw [Literal.untyped, Literal.untyped, untypedFields agree fields absent]
  | .int _, _ | .float _, _ | .str _ _, _ | .bool _, _ | .null, _ | .enum _, _ => by
    simp only [Literal.untyped]

theorem untypedItems (agree : AgreeOff name vars vars') : ∀ items : List Literal,
    Literal.itemsMention name items = false →
    Literal.untypedItems vars' items = Literal.untypedItems vars items
  | [], _ => rfl
  | item :: rest, absent => by
    rw [Literal.itemsMention, Bool.or_eq_false_iff] at absent
    rw [Literal.untypedItems, Literal.untypedItems, untyped agree item absent.1,
      untypedItems agree rest absent.2]

theorem untypedFields (agree : AgreeOff name vars vars') : ∀ fields : List (String × Literal),
    Literal.fieldsMention name fields = false →
    Literal.untypedFields vars' fields = Literal.untypedFields vars fields
  | [], _ => rfl
  | (key, item) :: rest, absent => by
    rw [Literal.fieldsMention, Bool.or_eq_false_iff] at absent
    rw [Literal.untypedFields, Literal.untypedFields, untyped agree item absent.1,
      untypedFields agree rest absent.2]

end

theorem leafValue? (agree : AgreeOff name vars vars') (body : Option TypeBody) {literal : Literal}
    (absent : literal.mentions name = false) :
    literal.leafValue? vars' body = literal.leafValue? vars body := by
  have custom := agree.untyped literal absent
  unfold Literal.leafValue?
  split
  next s => cases s <;> cases literal <;> simp only [Literal.scalarValue?, custom]
  next => rfl
  next => rfl

theorem variableValue? (agree : AgreeOff name vars vars') (t : TypeRef) {other : String}
    (absent : (Literal.var other).mentions name = false) :
    Literal.variableValue? vars' t other = Literal.variableValue? vars t other := by
  simp only [Literal.variableValue?, agree.var absent]

mutual

/-- A literal that does not mention the variable has the same value under both maps. -/
theorem value? (agree : AgreeOff name vars vars') (schema : Schema) :
    ∀ (t : TypeRef) (literal : Literal), literal.mentions name = false →
    literal.value? schema vars' t = literal.value? schema vars t
  | t, .var other, absent => by
    rw [Literal.value?, Literal.value?, agree.variableValue? t absent]
  | t, .null, _ => by rw [Literal.value?, Literal.value?]
  | t, .list items, absent => by
    have leaf := fun body => agree.leafValue? body absent
    rw [Literal.mentions] at absent
    rw [Literal.value?, Literal.value?]
    split
    next item _ => rw [values? agree schema item items absent]
    next => rw [leaf]
    next => rfl
  | t, .object fields, absent => by
    have leaf := fun body => agree.leafValue? body absent
    rw [Literal.mentions] at absent
    rw [Literal.value?, Literal.value?]
    split
    next exclusive defs _ => rw [slots agree schema defs fields absent]
    next => rw [leaf]
  | t, .int _, absent | t, .float _, absent | t, .str _ _, absent | t, .bool _, absent
  | t, .enum _, absent => by simp only [Literal.value?, agree.leafValue? _ absent]

theorem values? (agree : AgreeOff name vars vars') (schema : Schema) (item : TypeRef) :
    ∀ items : List Literal,
    Literal.itemsMention name items = false →
    Literal.values? schema vars' item items = Literal.values? schema vars item items
  | [], _ => rfl
  | literal :: rest, absent => by
    rw [Literal.itemsMention, Bool.or_eq_false_iff] at absent
    rw [Literal.values?, Literal.values?, agree.isMissing absent.1,
      value? agree schema item literal absent.1, values? agree schema item rest absent.2]

theorem slots (agree : AgreeOff name vars vars') (schema : Schema) (defs : List ArgDef) :
    ∀ fields : List (String × Literal),
    Literal.fieldsMention name fields = false →
    Literal.slots schema vars' defs fields = Literal.slots schema vars defs fields
  | [], _ => rfl
  | (key, literal) :: rest, absent => by
    rw [Literal.fieldsMention, Bool.or_eq_false_iff] at absent
    rw [Literal.slots, Literal.slots, slots agree schema defs rest absent.2]
    split
    next => rfl
    next arg _ => rw [agree.isMissing absent.1, value? agree schema arg.type literal absent.1]

end

/-- What is read under another key is kept in both. -/
theorem keep (agree : AgreeOff name vars vars') (key : String) (read : Option Value) :
    AgreeOff name (Entries.keep vars key read) (Entries.keep vars' key read) := by
  cases read with
  | none => exact agree
  | some v =>
    intro other differ
    rw [Entries.keep, Entries.keep, Entries.get?_insert, Entries.get?_insert, agree other differ]

end Entries.AgreeOff

section Declarations

variable {schema : Schema} {sent coerced coerced' result : Entries} {vars : List VariableDef}

end Declarations

end QueryCost
