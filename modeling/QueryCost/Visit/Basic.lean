import QueryCost.Schema.Basic
import QueryCost.Session

/-!
# Visits

A visit is one selection as it is met when an operation is walked through: fragments stand in the
place of their spreads, arguments are read, and what is left out is marked. Every visit is one node.
-/
namespace QueryCost

/-- A field with the type it is selected on and its arguments. -/
structure Site where
  field : FieldDef
  name : String
  parent : TypeDef
  args : Entries

inductive Visit where
  /-- Left out by a directive. -/
  | excluded (notices : List Notice)
  /-- A field that the type does not have. -/
  | unresolved (notices : List Notice)
  /-- A spread of an unknown fragment or of one that is being expanded. -/
  | unexpanded (notices : List Notice)
  | field (notices : List Notice) (site : Site) (below : List Visit)
  /-- An inline fragment or an expanded spread. -/
  | group (notices : List Notice) (below : List Visit)

namespace Visit

mutual

/-- Number of visits at and below a visit. -/
def nodes : Visit → Nat
  | .field _ _ below => 1 + nodesAll below
  | .group _ below => 1 + nodesAll below
  | _ => 1

def nodesAll : List Visit → Nat
  | [] => 0
  | v :: rest => nodes v + nodesAll rest

end

end Visit

end QueryCost
