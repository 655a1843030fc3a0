import QueryCost.Validity.Fragments

/-!
# Depth of introspection

Fields that describe the schema can list types that list types again, and a short query of this kind
has a very large answer. Such lists may nest only so far.
-/
namespace QueryCost.Introspection

/-- Fields through which a description of the schema starts. -/
def isEntry (name : String) : Bool := name == "__schema" || name == "__type"

/-- Fields of a described type that list what it is made of. -/
def isListing (name : String) : Bool :=
  ["fields", "interfaces", "possibleTypes", "inputFields"].contains name

/-- How many listing fields may nest. -/
def listingLimit : Nat := 2

mutual

/-- Whether listing fields nest deeper than allowed at and below a selection, with an answer for each
fragment under the number of them that is still allowed there. -/
def exceeds (spread : (allowed : Nat) → String → Bool) (allowed : Nat) : Selection → Bool
  | .field head selections =>
    if isListing head.name then allowed == 0 || exceedsAny spread (allowed - 1) selections
    else exceedsAny spread allowed selections
  | .inline _ _ selections => exceedsAny spread allowed selections
  | .spread name _ => spread allowed name

def exceedsAny (spread : (allowed : Nat) → String → Bool) (allowed : Nat) : List Selection → Bool
  | [] => false
  | s :: rest => exceeds spread allowed s || exceedsAny spread allowed rest

end

/-- Whether listing fields nest deeper than allowed. A fragment inside itself is left out, so the path
of fragments is never longer than the number of fragments. -/
def exceedsIn (doc : Document) : (steps : Nat) → (path : List String) → (allowed : Nat) →
    List Selection → Bool
  | 0, _, allowed, selections => exceedsAny (fun _ _ => false) allowed selections
  | steps + 1, path, allowed, selections =>
    exceedsAny (fun allowed name =>
      if path.contains name then false
      else match doc.fragment? name with
        | some f => exceedsIn doc steps (name :: path) allowed f.selections
        | none => false) allowed selections

/-- Whether a field starts a description of the schema that is too deep. -/
def tooDeep (doc : Document) (head : FieldHead) (selections : List Selection) : Bool :=
  isEntry head.name && exceedsIn doc doc.fragments.length [] listingLimit selections

end QueryCost.Introspection
