import Mathlib.Data.List.Forall2
import QueryCost.Proofs.Inlining

/-!
# Edits at any depth

A document is edited by changing one list of selections somewhere in an operation or in a fragment. A
fragment is expanded in many places and below many paths, so one edit shows up in the visits wherever its
fragment does. `expand_edited` and `expand_onTable` say once what this comes to: a relation between visits
that holds of a whole whenever it holds of a part (`Visit.Congruence`), and that an edit brings about where
it is made, holds between all visits before and after the edit. The path plays no role in this, since it
is handed down by value: what is written beside a selection does not change how that one is expanded.
-/
namespace QueryCost

namespace Selection

/-- One list of selections, at any depth, is changed by an edit. -/
inductive Edited (edit : List Selection → List Selection → Prop) :
    List Selection → List Selection → Prop
  | here {selections selections' : List Selection} (change : edit selections selections') :
      Edited edit selections selections'
  | field (head : FieldHead) (rest : List Selection) {below below' : List Selection}
      (inner : Edited edit below below') :
      Edited edit (.field head below :: rest) (.field head below' :: rest)
  | inline (condition : Option String) (directives : List Directive) (rest : List Selection)
      {below below' : List Selection} (inner : Edited edit below below') :
      Edited edit (.inline condition directives below :: rest)
        (.inline condition directives below' :: rest)
  | later (s : Selection) {rest rest' : List Selection} (others : Edited edit rest rest') :
      Edited edit (s :: rest) (s :: rest')

/-- Edits one after the other, each at any depth. -/
abbrev Changed (edit : List Selection → List Selection → Prop) :
    List Selection → List Selection → Prop :=
  Relation.ReflTransGen (Edited edit)

end Selection

/-- Fragments of one name and condition, whose selections are related. -/
structure Fragment.Related (rel : List Selection → List Selection → Prop) (f f' : Fragment) :
    Prop where
  name : f'.name = f.name
  condition : f'.condition = f.condition
  selections : rel f.selections f'.selections

/-- Operations that differ in nothing but related selections. -/
structure Operation.Related (rel : List Selection → List Selection → Prop) (op op' : Operation) :
    Prop where
  other : op' = { op with selections := op'.selections }
  selections : rel op.selections op'.selections

/-- One list of selections, in an operation or in a fragment, is changed by an edit. -/
inductive Definition.Edited (edit : List Selection → List Selection → Prop) :
    List Definition → List Definition → Prop
  | operation (op : Operation) (rest : List Definition) {selections' : List Selection}
      (change : Selection.Edited edit op.selections selections') :
      Edited edit (.operation op :: rest) (.operation { op with selections := selections' } :: rest)
  | fragment (f : Fragment) (rest : List Definition) {selections' : List Selection}
      (change : Selection.Edited edit f.selections selections') :
      Edited edit (.fragment f :: rest) (.fragment { f with selections := selections' } :: rest)
  | later (d : Definition) {rest rest' : List Definition} (others : Edited edit rest rest') :
      Edited edit (d :: rest) (d :: rest')

namespace Document

/-- One list of selections of the document, at any depth, is changed by an edit. -/
def Edited (edit : List Selection → List Selection → Prop) (doc doc' : Document) : Prop :=
  Definition.Edited edit doc.definitions doc'.definitions

variable {edit : List Selection → List Selection → Prop} {doc doc' : Document}

/-- Operations keep their places, and all but the edited one stay as they are. -/
theorem Edited.operations (edited : doc.Edited edit doc') :
    List.Forall₂ (Operation.Related (Selection.Changed edit)) doc.operations doc'.operations := by
  have same : ∀ ops : List Operation,
      List.Forall₂ (Operation.Related (Selection.Changed edit)) ops ops :=
    fun ops => List.forall₂_same.mpr fun op _ => ⟨rfl, .refl⟩
  obtain ⟨definitions⟩ := doc
  obtain ⟨definitions'⟩ := doc'
  unfold Document.Edited at edited
  dsimp only at edited
  induction edited with
  | operation op rest change => exact .cons ⟨rfl, .single change⟩ (same _)
  | fragment f rest change => exact same _
  | later d others ih =>
    cases d with
    | operation op => exact .cons ⟨rfl, .refl⟩ ih
    | _ => exact ih

theorem Edited.fragments (edited : doc.Edited edit doc') :
    List.Forall₂ (Fragment.Related (Selection.Changed edit)) doc.fragments doc'.fragments := by
  have same : ∀ table : List Fragment,
      List.Forall₂ (Fragment.Related (Selection.Changed edit)) table table :=
    fun table => List.forall₂_same.mpr fun f _ => ⟨rfl, rfl, .refl⟩
  obtain ⟨definitions⟩ := doc
  obtain ⟨definitions'⟩ := doc'
  unfold Document.Edited at edited
  dsimp only at edited
  induction edited with
  | operation op rest change => exact same _
  | fragment f rest change => exact .cons ⟨rfl, rfl, .single change⟩ (same _)
  | later d others ih =>
    cases d with
    | fragment f => exact .cons ⟨rfl, rfl, .refl⟩ ih
    | _ => exact ih

end Document

/-- A relation between visits that holds of a whole if it holds of a part. -/
structure Visit.Congruence (R : List Visit → List Visit → Prop) : Prop where
  refl : ∀ visits, R visits visits
  trans : ∀ {xs ys zs}, R xs ys → R ys zs → R xs zs
  later : ∀ v {rest rest'}, R rest rest' → R (v :: rest) (v :: rest')
  field : ∀ notices site rest {below below'}, R below below' →
    R (.field notices site below :: rest) (.field notices site below' :: rest)
  group : ∀ notices rest {below below'}, R below below' →
    R (.group notices below :: rest) (.group notices below' :: rest)

namespace Scope

variable {scope : Scope} {R : List Visit → List Visit → Prop} {path : List String}

section Heads

variable {table : List Fragment} (parent : Option TypeDef) (rest : List Visit)

theorem related_visitAt_field (congruence : Visit.Congruence R) (head : FieldHead)
    {below below' : List Selection} (inner : ∀ type,
      R (scope.expand path type below) ((scope.onTable table).expand path type below')) :
    R (scope.visitAt path parent (.field head below) :: rest)
      ((scope.onTable table).visitAt path parent (.field head below') :: rest) := by
  cases left : (exclusion scope.vars head.directives).excluded with
  | true =>
    rw [visitAt_excluded path parent (s := .field head below) left,
      @visitAt_excluded (scope.onTable table) path parent (.field head below') left]
    exact congruence.refl _
  | false =>
    cases resolved : resolve? parent head.name with
    | none =>
      rw [visitAt_unresolved path parent below left resolved,
        @visitAt_unresolved (scope.onTable table) path parent head below' left resolved]
      exact congruence.refl _
    | some found =>
      obtain ⟨t, field⟩ := found
      rw [visitAt_resolved path parent below left resolved,
        @visitAt_resolved (scope.onTable table) path parent head below' t field left resolved]
      exact congruence.field _ _ rest (inner _)

theorem related_visitAt_inline (congruence : Visit.Congruence R) (condition : Option String)
    (directives : List Directive) {below below' : List Selection} (inner : ∀ type,
      R (scope.expand path type below) ((scope.onTable table).expand path type below')) :
    R (scope.visitAt path parent (.inline condition directives below) :: rest)
      ((scope.onTable table).visitAt path parent (.inline condition directives below') :: rest) := by
  cases left : (exclusion scope.vars directives).excluded with
  | true =>
    rw [visitAt_excluded path parent (s := .inline condition directives below) left,
      @visitAt_excluded (scope.onTable table) path parent (.inline condition directives below') left]
    exact congruence.refl _
  | false =>
    rw [visitAt_inline path parent condition below left,
      @visitAt_inline (scope.onTable table) path parent condition directives below' left]
    exact congruence.group _ rest (inner _)

end Heads

/-- With the same fragments, an edit relates the visits of the selections around it. -/
theorem expand_edited (congruence : Visit.Congruence R)
    {edit : List Selection → List Selection → Prop}
    (edits : ∀ {xs ys}, edit xs ys → ∀ parent,
      R (scope.expand path parent xs) (scope.expand path parent ys))
    {selections selections' : List Selection} (edited : Selection.Edited edit selections selections')
    (parent : Option TypeDef) :
    R (scope.expand path parent selections) (scope.expand path parent selections') := by
  induction edited generalizing parent with
  | here change => exact edits change parent
  | field head rest inner below =>
    rw [expand_cons, expand_cons]
    exact @related_visitAt_field scope R path scope.fragments parent _ congruence head _ _ below
  | inline condition directives rest inner below =>
    rw [expand_cons, expand_cons]
    exact @related_visitAt_inline scope R path scope.fragments parent _ congruence condition
      directives _ _ below
  | later s others ih =>
    rw [expand_cons, expand_cons]
    exact congruence.later _ (ih parent)

section Tables

variable {rel : List Selection → List Selection → Prop} {table : List Fragment}

/-- Look-ups in related tables find related fragments, or none in both. -/
theorem fragment?_related (tables : List.Forall₂ (Fragment.Related rel) scope.fragments table)
    (name : String) :
    Option.Rel (Fragment.Related rel) (scope.fragment? name)
      ((scope.onTable table).fragment? name) := by
  have reversed := List.forall₂_reverse_iff.mpr tables
  unfold fragment? onTable
  dsimp only
  generalize scope.fragments.reverse = before at reversed
  generalize table.reverse = after at reversed
  induction reversed with
  | nil => exact .none
  | @cons f f' before after related others ih =>
    rw [List.find?_cons, List.find?_cons, related.name]
    cases f.name == name with
    | true => exact .some related
    | false => exact ih

/-- A spread is excluded, on the path or unknown in both tables, or it leads to related fragments. -/
theorem related_visitAt_spread (congruence : Visit.Congruence R)
    (tables : List.Forall₂ (Fragment.Related rel) scope.fragments table) {name : String}
    {directives : List Directive} (parent : Option TypeDef) (rest : List Visit)
    (bodies : (exclusion scope.vars directives).excluded = false → name ∉ path → ∀ f f',
      scope.fragment? name = some f → Fragment.Related rel f f' →
      R (scope.expand (name :: path) (scope.schema.type? f.condition) f.selections)
        ((scope.onTable table).expand (name :: path) (scope.schema.type? f.condition)
          f'.selections)) :
    R (scope.visitAt path parent (.spread name directives) :: rest)
      ((scope.onTable table).visitAt path parent (.spread name directives) :: rest) := by
  cases left : (exclusion scope.vars directives).excluded with
  | true =>
    rw [visitAt_excluded path parent (s := .spread name directives) left,
      @visitAt_excluded (scope.onTable table) path parent (.spread name directives) left]
    exact congruence.refl _
  | false =>
    by_cases onPath : name ∈ path
    · rw [visitAt_onPath path parent left onPath,
        @visitAt_onPath (scope.onTable table) path parent name directives left onPath]
      exact congruence.refl _
    have found := fragment?_related tables name
    cases defined : scope.fragment? name with
    | none =>
      cases defined' : (scope.onTable table).fragment? name with
      | none =>
        rw [visitAt_undefined path parent left defined,
          @visitAt_undefined (scope.onTable table) path parent name directives left defined']
        exact congruence.refl _
      | some f' =>
        rw [defined, defined'] at found
        cases found
    | some f =>
      cases defined' : (scope.onTable table).fragment? name with
      | none =>
        rw [defined, defined'] at found
        cases found
      | some f' =>
        rw [defined, defined'] at found
        obtain ⟨related⟩ := found
        rw [visitAt_expanded path parent left onPath defined,
          @visitAt_expanded (scope.onTable table) path parent name directives f' left onPath defined',
          related.condition]
        exact congruence.group _ rest (bodies left onPath f f' defined related)

/-- With related fragments, the same selections have related visits. The induction is on the rank of the
selections, which falls along every nested selection set, also into the body of a fragment. -/
theorem expand_onTable (congruence : Visit.Congruence R)
    (tables : List.Forall₂ (Fragment.Related rel) scope.fragments table)
    (bodies : ∀ {xs ys}, rel xs ys → ∀ path parent,
      R ((scope.onTable table).expand path parent xs) ((scope.onTable table).expand path parent ys))
    (path : List String) (parent : Option TypeDef) (selections : List Selection) :
    R (scope.expand path parent selections) ((scope.onTable table).expand path parent selections) := by
  induction bound : scope.rank ⟨path, parent, selections⟩ using Nat.strong_induction_on
    generalizing path parent selections with
  | _ n ih =>
    subst bound
    cases selections with
    | nil =>
      rw [expand_nil, expand_nil]
      exact congruence.refl []
    | cons s rest =>
      have inner : ∀ {below : List Selection}, Selection.sizeAll below <
          Selection.sizeAll (s :: rest) → ∀ type, R (scope.expand path type below)
            ((scope.onTable table).expand path type below) :=
        fun smaller type => ih _ (Nat.add_lt_add_left smaller _) path type _ rfl
      rw [expand_cons, expand_cons]
      refine congruence.trans (congruence.later _ (inner (Selection.sizeAll_lt_cons s rest) parent)) ?_
      cases s with
      | field head below =>
        exact related_visitAt_field parent _ congruence head
          (inner (Selection.sizeAll_lt_of_field List.mem_cons_self))
      | inline condition directives below =>
        exact related_visitAt_inline parent _ congruence condition directives
          (inner (Selection.sizeAll_lt_of_inline List.mem_cons_self))
      | spread name directives =>
        refine related_visitAt_spread congruence tables parent _ ?_
        intro left fresh f f' defined related
        have call : scope.Calls ⟨path, parent, .spread name directives :: rest⟩
            ⟨name :: path, scope.schema.type? f.condition, f.selections⟩ :=
          .spread name directives f List.mem_cons_self left fresh defined
        exact congruence.trans (ih _ call.rank_lt _ _ f.selections rfl)
          (bodies related.selections _ _)

/-- Edits of the fragments and of the selections themselves, each of which relates the visits where it is
made, relate all visits. -/
theorem expand_changed (congruence : Visit.Congruence R)
    {edit : List Selection → List Selection → Prop}
    (edits : ∀ {xs ys}, edit xs ys → ∀ path parent,
      R ((scope.onTable table).expand path parent xs) ((scope.onTable table).expand path parent ys))
    (tables : List.Forall₂ (Fragment.Related (Selection.Changed edit)) scope.fragments table)
    {selections selections' : List Selection}
    (changed : Selection.Changed edit selections selections') (path : List String)
    (parent : Option TypeDef) :
    R (scope.expand path parent selections)
      ((scope.onTable table).expand path parent selections') := by
  have bodies : ∀ {xs ys}, Selection.Changed edit xs ys → ∀ path parent,
      R ((scope.onTable table).expand path parent xs)
        ((scope.onTable table).expand path parent ys) := by
    intro xs ys changed path parent
    induction changed with
    | refl => exact congruence.refl _
    | tail _ edited ih =>
      refine congruence.trans ih ?_
      exact expand_edited congruence (fun change parent => edits change path parent) edited parent
  exact congruence.trans (expand_onTable congruence tables bodies path parent selections)
    (bodies changed path parent)

end Tables

end Scope

end QueryCost
