import QueryCost.Coercion.Literal
import QueryCost.Schema.Standard
import QueryCost.Session

/-!
# Excluded selections

A selection is left out if its first skip directive has the condition true or its first include
directive the condition false. A condition that does not fit is ignored with a notice.
-/
namespace QueryCost

/-- What a directive says about a selection. -/
inductive Condition where
  | silent
  | unfit
  | holds (v : Value)

namespace Condition

/-- Conditions are Booleans; no other type is needed to read them. -/
def types : Schema := ⟨[⟨"Boolean", .scalar .boolean, none⟩], none, none, none, []⟩

/-- The condition of the first directive of a name. -/
def find (vars : Entries) (name : String) (directives : List Directive) : Condition :=
  match directives.find? (·.name == name) with
  | none => silent
  | some directive =>
    match argumentValues? types [Schema.Standard.condition] directive.args vars with
    | none => unfit
    | some args => match Entries.get? args "if" with
      | some v => holds v
      | none => silent

/-- Only a genuine Boolean counts. -/
def isBool (b : Bool) : Condition → Bool
  | holds (.bool c) => b == c
  | _ => false

def notices (name : String) : Condition → List Notice
  | unfit => [.directive name]
  | _ => []

end Condition

structure Exclusion where
  excluded : Bool
  notices : List Notice

/-- Whether directives exclude the selection they stand on (`should_skip_node`). The include directive is
looked at only if the skip directive does not exclude it. -/
def exclusion (vars : Entries) (directives : List Directive) : Exclusion :=
  let skip := Condition.find vars "skip" directives
  if skip.isBool true then ⟨true, []⟩
  else
    let inclusion := Condition.find vars "include" directives
    ⟨inclusion.isBool false, skip.notices "skip" ++ inclusion.notices "include"⟩

end QueryCost
