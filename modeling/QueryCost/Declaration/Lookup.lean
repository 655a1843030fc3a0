import QueryCost.Schema.Basic
import QueryCost.Coercion.Literal
import QueryCost.Text.Case

/-!
# Finding the declared cost of a field

Sources are asked in a fixed order and the first that has a declaration wins: the field's extensions,
its resolver, the attribute of the owner class under the snake-case and then the plain name of the
field, and the first cost directive of its definition.
-/
namespace QueryCost.Declaration

/-- Key among the extensions and name of the directive that declare a cost. -/
def sourceKey : String := "complexity"

/-- A base cost has to be a finite number or a callable. -/
def isBase (v : Value) : Except Fault Bool := do
  return (← v.finite?).isSome || v.isCallable

/-- Declarations, mappings, numbers and callables among the extensions declare a cost; other values do not. -/
def ofExtension? : Value → Except Fault (Option Declaration)
  | .declared base multipliers => .ok (some ⟨base, multipliers⟩)
  | .map entries => do
    let base := (Entries.get? entries "value").getD .null
    if (← isBase base) then
      return some (← make base ((Entries.get? entries "multipliers").getD .null))
    else return none
  | v => do return if (← isBase v) then some ⟨v, []⟩ else none

/-- The arguments of a directive, read at no particular type. -/
def directiveArguments (directive : Directive) : Entries :=
  Entries.ofPairs (directive.args.map fun arg => (arg.1, arg.2.untyped []))

def ofDirective? (directive : Directive) : Except Fault (Option Declaration) := do
  let args := directiveArguments directive
  let base := (Entries.get? args "value").getD .null
  match (← base.finite?) with
  | none => return none
  | some _ => return some (← make base ((Entries.get? args "multipliers").getD .null))

def inExtensions? (field : FieldDef) : Except Fault (Option Declaration) :=
  match field.extensions.bind (Entries.get? · sourceKey) with
  | some v => ofExtension? v
  | none => .ok none

def inResolver? (field : FieldDef) : Option Declaration :=
  field.resolver.bind (·.declaration?)

/-- The declaration on an attribute of the owner class. -/
def inOwner? (owner : Owner) (attr : String) : Option Declaration := do
  let entry ← owner.find? (·.1 == attr)
  let resolver ← entry.2
  resolver.declaration?

/-- The owner class of the parent type is asked only for a field with a name. -/
def inParent? (parent : Option TypeDef) (name : Option String) : Option Declaration := do
  let owner ← parent.bind (·.owner)
  let name ← name
  if name = "" then none
  else inOwner? owner (Text.snakeCase name) <|> inOwner? owner name

/-- Only the first cost directive is read, also if it declares nothing. -/
def inDirectives? (field : FieldDef) : Except Fault (Option Declaration) :=
  match field.directives.find? (·.name == sourceKey) with
  | some directive => ofDirective? directive
  | none => .ok none

/-- The declaration of a field (`complexity_for_field`). -/
def find? (field : FieldDef) (parent : Option TypeDef) (name : Option String) :
    Except Fault (Option Declaration) := do
  match (← inExtensions? field) with
  | some d => return some d
  | none =>
    match inResolver? field <|> inParent? parent name with
    | some d => return some d
    | none => inDirectives? field

end QueryCost.Declaration

namespace QueryCost

/-- The field with a value for its cost among the extensions. All others stay. -/
def FieldDef.extended (field : FieldDef) (v : Value) : FieldDef :=
  { field with
    extensions := some (Entries.insert (field.extensions.getD []) Declaration.sourceKey v) }

/-- Attach a declaration to a field. -/
def FieldDef.decorate (d : Declaration) (field : FieldDef) : FieldDef := field.extended d.toValue

end QueryCost
