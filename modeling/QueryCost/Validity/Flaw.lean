/-!
# Flaws

What can be wrong with a document besides its cost. Flaws are counted and told apart by kind only.
-/
namespace QueryCost

inductive Flaw where
  | notExecutable
  | duplicateOperation
  | anonymousAmongOthers
  | subscriptionFields
  | unknownType
  | conditionNotComposite
  | variableNotInput
  | selectionOnLeaf
  | missingSelection
  | unknownField
  | duplicateFragment
  | unknownFragment
  | unusedFragment
  | impossibleFragment
  | fragmentCycle
  | duplicateVariable
  | undefinedVariable
  | unusedVariable
  | variablePosition
  | unknownDirective
  | misplacedDirective
  | repeatedDirective
  | unknownArgument
  | duplicateArgument
  | missingArgument
  | unfitValue
  | duplicateInputField
  | conflictingFields
  | deepIntrospection
  deriving DecidableEq, Repr

namespace Flaw

/-- A flaw if something holds. -/
def ifSo (condition : Bool) (flaw : Flaw) : List Flaw :=
  if condition then [flaw] else []

/-- The names that occur more than once, each listed once. -/
def repeatedNames (names : List String) : List String :=
  names.eraseDups.filter fun name => 1 < names.count name

/-- The names that have occurred before, in order. -/
def laterNames : (seen : List String) → List String → List String
  | _, [] => []
  | seen, name :: rest =>
    if seen.contains name then name :: laterNames seen rest
    else laterNames (name :: seen) rest

end Flaw

end QueryCost
