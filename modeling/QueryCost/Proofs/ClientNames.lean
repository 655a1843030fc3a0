import QueryCost.Proofs.Matching
import QueryCost.Proofs.Variables
import QueryCost.Validity.Fragments

/-!
# Names that a client is free to choose

A client names its operations and fragments and may give every field a label. Costs do not depend on any of
this. Labels and names of operations are not looked at. Names of fragments are: spreads are looked up by them,
and a fragment is not expanded again below its own name. But only their equality counts, so a renaming that
keeps different fragments different leads to the very same visits, below the renamed path
(`Scope.Renamed.expand`). Everything that is priced is then the same run.
-/
namespace QueryCost

variable {σ : Type} {rename : String → String}

open Run (Matches)

/-- Selections with other labels, and with the spread fragments renamed. -/
inductive Selection.Renamed (rename : String → String) : List Selection → List Selection → Prop
  | nil : Renamed rename [] []
  | field (head : FieldHead) (label : Option String) {below below' rest rest' : List Selection}
      (inner : Renamed rename below below') (others : Renamed rename rest rest') :
      Renamed rename (.field head below :: rest) (.field { head with label := label } below' :: rest')
  | inline (condition : Option String) (directives : List Directive)
      {below below' rest rest' : List Selection} (inner : Renamed rename below below')
      (others : Renamed rename rest rest') :
      Renamed rename (.inline condition directives below :: rest)
        (.inline condition directives below' :: rest')
  | spread (name : String) (directives : List Directive) {rest rest' : List Selection}
      (others : Renamed rename rest rest') :
      Renamed rename (.spread name directives :: rest) (.spread (rename name) directives :: rest')

structure Fragment.Renamed (rename : String → String) (f f' : Fragment) : Prop where
  name : f'.name = rename f.name
  condition : f'.condition = f.condition
  selections : Selection.Renamed rename f.selections f'.selections

/-- The operation may have another name, and stand somewhere else in its text. -/
structure Operation.Renamed (rename : String → String) (op op' : Operation) : Prop where
  kind : op'.kind = op.kind
  vars : op'.vars = op.vars
  selections : Selection.Renamed rename op.selections op'.selections

namespace Document

/-- Documents whose operations and fragments differ in labels, in the names of operations and in renamed
fragments, and in nothing else that is priced. -/
structure Renamed (rename : String → String) (doc doc' : Document) : Prop where
  fragments : List.Forall₂ (Fragment.Renamed rename) doc.fragments doc'.fragments
  operations : List.Forall₂ (Operation.Renamed rename) doc.operations doc'.operations

/-- Names of the fragments that are defined. -/
def defined (doc : Document) : List String := doc.fragments.map (·.name)

/-- Names of all fragments that are spread, at any depth. -/
def spread (doc : Document) : List String :=
  doc.fragments.flatMap (fun f => Selection.spreadsAll f.selections) ++
    doc.operations.flatMap fun op => Selection.spreadsAll op.selections

/-- A renaming that keeps fragments apart and makes no spread of an undefined fragment a defined one. -/
structure KeptApart (rename : String → String) (doc : Document) : Prop where
  injective : ∀ a ∈ doc.defined, ∀ b ∈ doc.defined, rename a = rename b → a = b
  undefined : ∀ name ∈ doc.spread, name ∉ doc.defined → rename name ∉ doc.defined.map rename

end Document

namespace Scope

variable {scope scope' : Scope}

/-- The renaming tells a name from the names of all fragments. -/
def Distinguishes (scope : Scope) (rename : String → String) (name : String) : Prop :=
  ∀ f ∈ scope.fragments, rename f.name = rename name → f.name = name

/-- The scope with renamed fragments. -/
structure Renamed (rename : String → String) (scope scope' : Scope) : Prop where
  schema : scope'.schema = scope.schema
  vars : scope'.vars = scope.vars
  fragments : List.Forall₂ (Fragment.Renamed rename) scope.fragments scope'.fragments
  bodies : ∀ f ∈ scope.fragments, ∀ name ∈ Selection.spreadsAll f.selections,
    scope.Distinguishes rename name

/-- Look-ups under a name and under the new name find a fragment and the renamed one, or none. -/
theorem Renamed.fragment? (renamed : scope.Renamed rename scope') {name : String}
    (apart : scope.Distinguishes rename name) :
    Option.Rel (Fragment.Renamed rename) (scope.fragment? name) (scope'.fragment? (rename name)) := by
  have reversed := List.forall₂_reverse_iff.mpr renamed.fragments
  have apart : ∀ f ∈ scope.fragments.reverse, rename f.name = rename name → f.name = name := by
    simpa [Distinguishes] using apart
  unfold Scope.fragment?
  generalize scope.fragments.reverse = before at reversed apart
  generalize scope'.fragments.reverse = after at reversed
  induction reversed with
  | nil => exact .none
  | @cons f f' before after related others ih =>
    rw [List.forall_mem_cons] at apart
    have same : (f'.name == rename name) = (f.name == name) := by
      rw [related.name, Bool.eq_iff_iff, beq_iff_eq, beq_iff_eq]
      exact ⟨apart.1, congrArg rename⟩
    rw [List.find?_cons, List.find?_cons, same]
    cases f.name == name with
    | true => exact .some related
    | false => exact ih apart.2

theorem Renamed.site (renamed : scope.Renamed rename scope') (t : TypeDef) (field : FieldDef)
    (head : FieldHead) (label : Option String) :
    scope'.site t field { head with label := label } = scope.site t field head := by
  simp only [Scope.site, renamed.schema, renamed.vars]

/-- Selections have the same visits as renamed ones if the spreads lead to the same. -/
theorem Renamed.visitAll (renamed : scope.Renamed rename scope')
    {selections selections' : List Selection}
    (written : Selection.Renamed rename selections selections')
    {spread spread' : String → Option (List Visit)}
    (spreads : ∀ name ∈ Selection.spreadsAll selections, spread' (rename name) = spread name)
    (parent : Option TypeDef) :
    scope'.visitAll spread' parent selections' = scope.visitAll spread parent selections := by
  induction written generalizing parent with
  | nil => rw [Scope.visitAll, Scope.visitAll]
  | field head label inner others below rest =>
    simp only [Selection.spreadsAll, Selection.spreads, List.forall_mem_append] at spreads
    rw [Scope.visitAll, Scope.visitAll, rest spreads.2, visit, visit]
    simp only [renamed.vars, renamed.schema, renamed.site, below spreads.1]
  | inline condition directives inner others below rest =>
    simp only [Selection.spreadsAll, Selection.spreads, List.forall_mem_append] at spreads
    rw [Scope.visitAll, Scope.visitAll, rest spreads.2, visit, visit]
    simp only [renamed.vars, conditioned, renamed.schema, below spreads.1]
  | spread name directives others rest =>
    simp only [Selection.spreadsAll, Selection.spreads, List.singleton_append,
      List.forall_mem_cons] at spreads
    rw [Scope.visitAll, Scope.visitAll, rest spreads.2, visit, visit]
    simp only [renamed.vars, spreads.1]

/-- Nested spreads find each other again under the new names. The induction is on how many of them are nested;
the path holds names of fragments only, so that the renaming tells them from what is spread. -/
theorem Renamed.expandWithin (renamed : scope.Renamed rename scope') (budget : Nat) {path : List String}
    (onPath : ∀ name ∈ path, ∃ f ∈ scope.fragments, f.name = name)
    {selections selections' : List Selection}
    (written : Selection.Renamed rename selections selections')
    (apart : ∀ name ∈ Selection.spreadsAll selections, scope.Distinguishes rename name)
    (parent : Option TypeDef) :
    scope'.expandWithin budget (path.map rename) parent selections' =
      scope.expandWithin budget path parent selections := by
  induction budget generalizing path selections selections' parent with
  | zero => exact renamed.visitAll written (fun _ _ => rfl) parent
  | succ budget ih =>
    rw [expandWithin_succ, expandWithin_succ]
    refine renamed.visitAll written (fun name member => ?_) parent
    have guarded : (path.map rename).contains (rename name) = path.contains name := by
      rw [Bool.eq_iff_iff, List.contains_iff_mem, List.contains_iff_mem, List.mem_map]
      constructor
      · rintro ⟨other, listed, same⟩
        obtain ⟨f, known, rfl⟩ := onPath other listed
        exact apart name member f known same ▸ listed
      · exact fun listed => ⟨name, listed, rfl⟩
    unfold spreadWith
    rw [guarded]
    split
    · rfl
    have found := renamed.fragment? (apart name member)
    cases defined : scope.fragment? name with
    | none =>
      rw [defined] at found
      cases defined' : scope'.fragment? (rename name) with
      | none => rfl
      | some f' =>
        rw [defined'] at found
        cases found
    | some f =>
      rw [defined] at found
      cases defined' : scope'.fragment? (rename name) with
      | none =>
        rw [defined'] at found
        cases found
      | some f' =>
        rw [defined'] at found
        obtain ⟨related⟩ := found
        obtain ⟨known, named⟩ := fragment?_some defined
        have longer : ∀ name' ∈ name :: path, ∃ f ∈ scope.fragments, f.name = name' :=
          List.forall_mem_cons.mpr ⟨⟨f, known, named⟩, onPath⟩
        rw [Option.map_some, Option.map_some, renamed.schema, related.condition]
        exact congrArg some (ih longer related.selections (renamed.bodies f known) _)

/-- Renamed selections have the same visits, below the renamed path. -/
theorem Renamed.expand (renamed : scope.Renamed rename scope') {path : List String}
    (onPath : ∀ name ∈ path, ∃ f ∈ scope.fragments, f.name = name)
    {selections selections' : List Selection}
    (written : Selection.Renamed rename selections selections')
    (apart : ∀ name ∈ Selection.spreadsAll selections, scope.Distinguishes rename name)
    (parent : Option TypeDef) :
    scope'.expand (path.map rename) parent selections' = scope.expand path parent selections := by
  unfold Scope.expand
  rw [← renamed.fragments.length_eq]
  exact renamed.expandWithin _ onPath written apart parent

end Scope

namespace Document

variable {doc doc' : Document}

/-- A name that is spread is told from the names of all fragments. -/
theorem KeptApart.distinguishes (apart : doc.KeptApart rename) {name : String} (used : name ∈ doc.spread)
    (schema : Schema) (vars : Entries) :
    Scope.Distinguishes ⟨schema, doc.fragments, vars⟩ rename name := by
  intro f known same
  have listed : f.name ∈ doc.defined := List.mem_map_of_mem known
  by_cases defined : name ∈ doc.defined
  · exact apart.injective f.name listed name defined same
  · exact absurd (List.mem_map.mpr ⟨f.name, listed, same⟩) (apart.undefined name used defined)

theorem Renamed.scope (renamed : doc.Renamed rename doc') (apart : doc.KeptApart rename)
    (schema : Schema) (vars : Entries) :
    Scope.Renamed rename ⟨schema, doc.fragments, vars⟩ ⟨schema, doc'.fragments, vars⟩ where
  schema := rfl
  vars := rfl
  fragments := renamed.fragments
  bodies := by
    intro f known name used
    refine apart.distinguishes ?_ schema vars
    exact List.mem_append_left _ (List.mem_flatMap.mpr ⟨f, known, used⟩)

theorem Renamed.listed (renamed : doc.Renamed rename doc') :
    List.Forall₂ (fun op op' => op ∈ doc.operations ∧ op.Renamed rename op') doc.operations
      doc'.operations :=
  (List.forall₂_and_left _ _).mpr ⟨fun _ member => member, renamed.operations⟩

/-- The selections of an operation get the same score, by the same run. -/
theorem Renamed.score (renamed : doc.Renamed rename doc') (apart : doc.KeptApart rename)
    {op op' : Operation} (member : op ∈ doc.operations) (related : op.Renamed rename op')
    (schema : Schema) (vars : Entries) (chain : List (Estimate σ)) (root : TypeDef) :
    Scope.score ⟨schema, doc'.fragments, vars⟩ chain [] (some root) op'.selections =
      Scope.score ⟨schema, doc.fragments, vars⟩ chain [] (some root) op.selections := by
  have used : ∀ name ∈ Selection.spreadsAll op.selections,
      Scope.Distinguishes ⟨schema, doc.fragments, vars⟩ rename name := by
    intro name used
    refine apart.distinguishes ?_ schema vars
    exact List.mem_append_right _ (List.mem_flatMap.mpr ⟨op, member, used⟩)
  have same := (renamed.scope apart schema vars).expand (List.forall_mem_nil _) related.selections
    used (some root)
  unfold Scope.score
  rw [List.map_nil] at same
  rw [same]

end Document

namespace Operation

/-- The variables of an operation are declared in it, and read the same under any name. -/
theorem Renamed.variablesFor {op op' : Operation} (related : op.Renamed rename op') (schema : Schema)
    (sent : Entries) :
    (op'.variablesFor schema sent : Run σ Entries) = op.variablesFor schema sent := by
  unfold Operation.variablesFor coerceVariables?
  rw [related.vars]

end Operation

namespace Rule

variable {rule : Rule σ} {schema : Schema} {doc doc' : Document}

/-- The same fields are priced in both runs. Only the notice of the operation at the end has another name. -/
theorem score?_renamed (renamed : doc.Renamed rename doc') (apart : doc.KeptApart rename)
    {op op' : Operation} (member : op ∈ doc.operations) (related : op.Renamed rename op') :
    Matches SameMemory (rule.score? schema doc.fragments op)
      (rule.score? schema doc'.fragments op') := by
  cases rooted : (rule.schema.getD schema).root? op.kind with
  | none =>
    rw [score?_of_rootless op rooted, score?_of_rootless op' (related.kind ▸ rooted)]
    exact .pure none
  | some root =>
    rw [score?_of_root op rooted, score?_of_root op' (related.kind ▸ rooted), related.variablesFor]
    refine (Matches.sameMemory _).bind fun vars => ?_
    rw [renamed.score apart member related]
    refine (Matches.sameMemory _).bind fun score => ?_
    have noted : Matches SameMemory (Run.note (.operation op.name score.cost score.nodes) : Run σ Unit)
        (Run.note (.operation op'.name score.cost score.nodes)) :=
      fun _ _ same => ⟨rfl, same⟩
    exact noted.bind fun _ => .pure _

/-- The scores of a list of operations, one operation at a time. -/
theorem scored_cons_scores (fragments : List Fragment) (op : Operation) (rest : List Operation) :
    (do return (← rule.scored schema fragments (op :: rest)).map (·.2) : Run σ (List Score)) = (do
      let score? ← rule.score? schema fragments op
      let others ← (do return (← rule.scored schema fragments rest).map (·.2))
      return score?.toList ++ others) := by
  simp only [scored, bind_assoc, pure_bind]
  congr 1
  funext score?
  congr 1
  funext others
  cases score? with
  | none => simp
  | some score => simp

/-- All operations get the same scores, in the same order. -/
theorem scored_renamed (rule : Rule σ) (schema : Schema) (renamed : doc.Renamed rename doc')
    (apart : doc.KeptApart rename) :
    Matches SameMemory (do return (← rule.scored schema doc.fragments doc.operations).map (·.2))
      (do return (← rule.scored schema doc'.fragments doc'.operations).map (·.2)) := by
  -- The operations of the one document are gone through with those of the other; which fragments they see
  -- stays fixed.
  suffices scores : ∀ {ops ops' : List Operation},
      List.Forall₂ (fun op op' => op ∈ doc.operations ∧ op.Renamed rename op') ops ops' →
      Matches SameMemory (do return (← rule.scored schema doc.fragments ops).map (·.2))
        (do return (← rule.scored schema doc'.fragments ops').map (·.2)) from
    scores renamed.listed
  intro ops ops' related
  induction related with
  | nil => exact .pure []
  | cons first _ ih =>
    rw [scored_cons_scores, scored_cons_scores]
    refine (score?_renamed renamed apart first.1 first.2).bind fun score? => ?_
    exact ih.bind fun others => .pure _

end Rule

namespace Progress

/-- What a rule has found, without the place where it is reported. -/
def verdict (p : Progress) : Option Excess × Number := (p.violation.map (·.excess), p.highest)

theorem record_verdict {p p' : Progress} (same : p.verdict = p'.verdict) (limits : Limits)
    (location location' : Location) (score : Score) :
    (p.record limits location score).verdict = (p'.record limits location' score).verdict := by
  obtain ⟨highest, violation⟩ := p
  obtain ⟨highest', violation'⟩ := p'
  obtain ⟨found, rfl⟩ := Prod.mk.inj same
  unfold record verdict
  refine Prod.ext ?_ rfl
  cases violation <;> cases violation' <;> cases limits.excess? score <;> simp_all

theorem recordAll_verdict {p p' : Progress} (same : p.verdict = p'.verdict) (limits : Limits)
    {scored scored' : List (Operation × Score)} (scores : scored.map (·.2) = scored'.map (·.2)) :
    (p.recordAll limits scored).verdict = (p'.recordAll limits scored').verdict := by
  induction scored generalizing p p' scored' with
  | nil =>
    obtain rfl := List.map_eq_nil_iff.mp scores.symm
    exact same
  | cons x rest ih =>
    obtain ⟨x', rest', rfl, first, others⟩ := List.map_eq_cons_iff.mp scores.symm
    rw [recordAll_cons, recordAll_cons, first]
    exact ih (record_verdict same limits _ _ _) others.symm

end Progress

namespace Rule

variable {rule : Rule σ} {schema : Schema} {doc doc' : Document}

/-- The verdict follows from the scores. -/
theorem verdict_of_scores (limits : Limits) {e e' : Except Fault (List (Operation × Score))}
    (scores : e.map (·.map (·.2)) = e'.map (·.map (·.2))) :
    (e.map (Progress.start.recordAll limits)).map Progress.verdict =
      (e'.map (Progress.start.recordAll limits)).map Progress.verdict := by
  cases e with
  | error fault =>
    cases e' with
    | error fault' =>
      cases scores
      rfl
    | ok scored' => cases scores
  | ok scored =>
    cases e' with
    | error fault' => cases scores
    | ok scored' =>
      exact congrArg Except.ok (Progress.recordAll_verdict rfl limits (Except.ok.inj scores))

/-- Names that a client chooses are of no consequence. Let fragments be renamed so that different ones stay
different and undefined ones undefined, and let labels and the names of operations be any others. Then every
operation is scored, or fails, as before, with the same calls of the estimators and the same memory
afterwards. So is the document as a whole: the costs and node counts of its operations, the verdict of the
rule, the calls and the memory stay the same. -/
theorem client_names_ignored (rule : Rule σ) (schema : Schema) {doc doc' : Document}
    (renamed : doc.Renamed rename doc') (apart : doc.KeptApart rename) :
    List.Forall₂ (fun op op' => ∀ s,
      ((rule.score? schema doc'.fragments op').exec s).1 =
        ((rule.score? schema doc.fragments op).exec s).1 ∧
      ∀ log, ((rule.logged.score? schema doc'.fragments op').exec ⟨(s.memory, log), s.notices⟩).2.memory =
        ((rule.logged.score? schema doc.fragments op).exec ⟨(s.memory, log), s.notices⟩).2.memory)
      doc.operations doc'.operations ∧
    ∀ s,
      ((rule.scored schema doc'.fragments doc'.operations).exec s).1.map (·.map (·.2)) =
        ((rule.scored schema doc.fragments doc.operations).exec s).1.map (·.map (·.2)) ∧
      ((rule.check schema doc').exec s).1.map Progress.verdict =
        ((rule.check schema doc).exec s).1.map Progress.verdict ∧
      ∀ log, ((rule.logged.check schema doc').exec ⟨(s.memory, log), s.notices⟩).2.memory =
        ((rule.logged.check schema doc).exec ⟨(s.memory, log), s.notices⟩).2.memory := by
  constructor
  · refine renamed.listed.imp fun op op' related s => ⟨?_, fun log => ?_⟩
    · exact (score?_renamed renamed apart related.1 related.2 s s rfl).1.symm
    · exact (score?_renamed renamed apart related.1 related.2 _ _ rfl).2.symm
  · intro s
    have scores := (scored_renamed rule schema renamed apart s s rfl).1
    rw [Run.exec_return, Run.exec_return] at scores
    refine ⟨scores.symm, ?_, fun log => ?_⟩
    · rw [check_eq_scored, check_eq_scored, Run.exec_return, Run.exec_return]
      exact (verdict_of_scores rule.limits scores).symm
    · have calls := (scored_renamed rule.logged schema renamed apart
        ⟨(s.memory, log), s.notices⟩ _ rfl).2
      rw [Run.exec_return, Run.exec_return] at calls
      rw [check_eq_scored, check_eq_scored, Run.exec_return, Run.exec_return]
      exact calls.symm

/-- A field, a fragment and an undefined one are spread; the fragment and a second one spread each other. -/
def entangled (first second undefined : String) (label name : Option String) : Document :=
  ⟨[.operation ⟨.query, name, [], [],
      [.field ⟨label, "a", [], []⟩ [], .spread first [], .spread undefined []], ⟨1, 1⟩⟩,
    .fragment ⟨first, "Query", [], [.field ⟨none, "a", [], []⟩ [], .spread second []]⟩,
    .fragment ⟨second, "Query", [], [.spread first [], .field ⟨label, "a", [], []⟩ []]⟩]⟩

/-- Two fragments pass their names on, the second to a new name. -/
def passOn (name : String) : String :=
  if name = "A" then "B" else if name = "B" then "C" else name

/-- The renamed fragments still cut each other off, and the spread that is undefined stays so, though the name
of the first fragment is now that of the second. -/
theorem client_names_ignored_entangled :
    (entangled "A" "B" "U" none (some "Q")).KeptApart passOn ∧
    (entangled "A" "B" "U" none (some "Q")).Renamed passOn (entangled "B" "C" "U" (some "x") none) ∧
    ((undecided.check queryOnly (entangled "B" "C" "U" (some "x") none)).exec ⟨(), #[]⟩).1.map
      Progress.verdict = .ok (some (.nodes 2 7), .int 3) := by
  have apart : (entangled "A" "B" "U" none (some "Q")).KeptApart passOn :=
    ⟨by decide, by decide⟩
  have renamed : (entangled "A" "B" "U" none (some "Q")).Renamed passOn
      (entangled "B" "C" "U" (some "x") none) :=
    { fragments := .cons ⟨rfl, rfl, .field _ none .nil (.spread "B" [] .nil)⟩
        (.cons ⟨rfl, rfl, .spread "A" [] (.field _ (some "x") .nil .nil)⟩ .nil)
      operations := .cons ⟨rfl, rfl, .field _ (some "x") .nil (.spread "A" [] (.spread "U" [] .nil))⟩ .nil }
  have checked : ((undecided.check queryOnly (entangled "A" "B" "U" none (some "Q"))).exec ⟨(), #[]⟩).1.map
      Progress.verdict = .ok (some (.nodes 2 7), .int 3) := by decide +kernel
  obtain ⟨-, verdict, -⟩ := (client_names_ignored undecided queryOnly renamed apart).2 ⟨(), #[]⟩
  exact ⟨apart, renamed, verdict.trans checked⟩

end Rule

end QueryCost
