import QueryCost.Document.Basic
import QueryCost.Validity.Flaw

/-!
# Fragments of a document

Which fragments selections lead to, and whether a fragment leads back to itself.
-/
namespace QueryCost

namespace Selection

mutual

/-- Names of all spreads at and below a selection. -/
def spreads : Selection → List String
  | .field _ selections => spreadsAll selections
  | .inline _ _ selections => spreadsAll selections
  | .spread name _ => [name]

def spreadsAll : List Selection → List String
  | [] => []
  | s :: rest => spreads s ++ spreadsAll rest

end

end Selection

/-- All names that can be reached in at most `steps` steps; each name is listed once. -/
def reachable (next : String → List String) : (steps : Nat) → List String → List String
  | 0, names => names.eraseDups
  | steps + 1, names => reachable next steps (names ++ names.flatMap next).eraseDups

namespace Document

/-- Names of the fragments spread in a fragment. -/
def spreadsOf (doc : Document) (name : String) : List String :=
  match doc.fragment? name with
  | some f => Selection.spreadsAll f.selections
  | none => []

/-- Fragments that selections lead to, directly or through others. -/
def fragmentsFrom (doc : Document) (selections : List Selection) : List Fragment :=
  (reachable doc.spreadsOf doc.fragments.length (Selection.spreadsAll selections)).filterMap
    doc.fragment?

/-- Follow spreads from a fragment, below a path, leaving out fragments seen before. The result is the
fragments seen and the number of spreads that lead back to the path. -/
def cyclesFrom (doc : Document) : (depth : Nat) → (path : List String) → List String × Nat →
    String → List String × Nat
  | 0, _, state, _ => state
  | depth + 1, path, (seen, found), name =>
    if seen.contains name then (seen, found)
    else
      let path := name :: path
      (doc.spreadsOf name).foldl (fun (seen, found) spread =>
        if path.contains spread then (seen, found + 1)
        else if (doc.fragment? spread).isSome then
          cyclesFrom doc depth path (seen, found) spread
        else (seen, found)) (name :: seen, found)

/-- For each fragment definition the number of cycles found from it. -/
def cycleCounts (doc : Document) : List Nat :=
  let step (state : List String × List Nat) (f : Fragment) : List String × List Nat :=
    let (seen, found) := doc.cyclesFrom (doc.fragments.length + 1) [] (state.1, 0) f.name
    (seen, state.2 ++ [found])
  (doc.fragments.foldl step ([], [])).2

def hasCycle (doc : Document) : Bool := doc.cycleCounts.any (0 < ·)

/-- Fragments that no operation leads to. -/
def unusedFragments (doc : Document) : List Fragment :=
  let used := doc.operations.flatMap fun op => (doc.fragmentsFrom op.selections).map (·.name)
  doc.fragments.filter fun f => !used.contains f.name

end Document

end QueryCost
