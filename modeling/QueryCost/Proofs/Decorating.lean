import QueryCost.Declaration.Store
import QueryCost.Proofs.Variables

/-!
# Attaching declarations

A declaration that is attached to a field replaces the one before and nothing else, and a declaration that is
attached to a resolver goes before all that are inside. `attach` works on objects that others may refer to, so the
main statement is as much about what stays. For a field these are the tables that were in use, which may be
shared, and all other fields; for a layer, all other layers. The two relations `FieldFrame` and
`LayerFrame` say this of one step, and they compose.

What an object looks like after a sequence of declarations is what `decorate` makes of it with the last one.
-/
namespace QueryCost

namespace FieldDef

theorem decorate_decorate (field : FieldDef) (d e : Declaration) :
    (field.decorate d).decorate e = field.decorate e := by
  simp only [decorate, extended, Option.getD_some, Entries.insert_insert]

/-- A declaration that is attached to a field is found first. -/
theorem find?_decorate (field : FieldDef) (d : Declaration) (parent : Option TypeDef) (name : Option String) :
    Declaration.find? (field.decorate d) parent name = .ok (some d) := by
  have listed : Declaration.inExtensions? (field.decorate d) = .ok (some d) := by
    simp only [Declaration.inExtensions?, decorate, extended, Option.bind_some, Entries.get?_insert,
      if_true]
    rfl
  rw [Declaration.find?, listed]
  rfl

end FieldDef

namespace Resolver

theorem decorate_decorate (r : Resolver) (d e : Declaration) : (r.decorate d).decorate e = r.decorate e := by
  cases r <;> rfl

/-- A declaration on the outermost layer goes before all that are inside. -/
theorem declaration?_decorate (r : Resolver) (d : Declaration) : (r.decorate d).declaration? = some d := by
  cases r <;> rfl

end Resolver

namespace Store

/-- At most the field at an address has changed, and no table that was in use. -/
structure FieldFrame (address : Nat) (s s' : Store) : Prop where
  layers : s'.layers = s.layers
  tables : ∀ table < s.fresh, s'.tables table = s.tables table
  fields : ∀ other ≠ address, s'.fields other = s.fields other
  fresh : s.fresh ≤ s'.fresh

/-- At most the declaration of the layer at an address has changed. -/
structure LayerFrame (address : Nat) (s s' : Store) : Prop where
  layers : ∀ other ≠ address, s'.layers other = s.layers other
  inner : (s'.layers address).inner = (s.layers address).inner
  tables : s'.tables = s.tables
  fields : s'.fields = s.fields

variable {address : Nat} {s s' s'' : Store}

theorem resolver_of_none (inside : (s.layers address).inner = none) :
    s.resolver address = .bare (s.layers address).cost := by
  rw [resolver]
  split
  next => rfl
  next found => cases inside.symm.trans found

theorem resolver_of_some {inner : Nat} (inside : (s.layers address).inner = some inner) :
    s.resolver address = .wrapped (s.layers address).cost (s.resolver inner) := by
  rw [resolver]
  split
  next found => cases inside.symm.trans found
  next found =>
    cases inside.symm.trans found
    rfl

theorem FieldFrame.trans (first : FieldFrame address s s') (second : FieldFrame address s' s'') :
    FieldFrame address s s'' where
  layers := second.layers.trans first.layers
  tables := by
    intro table used
    rw [second.tables table (Nat.lt_of_lt_of_le used first.fresh), first.tables table used]
  fields := by
    intro other differ
    rw [second.fields other differ, first.fields other differ]
  fresh := Nat.le_trans first.fresh second.fresh

theorem LayerFrame.trans (first : LayerFrame address s s') (second : LayerFrame address s' s'') :
    LayerFrame address s s'' where
  layers := by
    intro other differ
    rw [second.layers other differ, first.layers other differ]
  inner := second.inner.trans first.inner
  tables := second.tables.trans first.tables
  fields := second.fields.trans first.fields

theorem attachToField_frame (d : Declaration) (address : Nat) (s : Store) :
    FieldFrame address s (s.attachToField d address) where
  layers := rfl
  tables := fun _ used => replaced_of_ne _ _ (Nat.ne_of_lt used)
  fields := fun _ differ => replaced_of_ne _ _ differ
  fresh := Nat.le_succ s.fresh

theorem attachToLayer_frame (d : Declaration) (address : Nat) (s : Store) :
    LayerFrame address s (s.attachToLayer d address) where
  layers := fun _ differ => replaced_of_ne _ _ differ
  inner := by simp [attachToLayer]
  tables := rfl
  fields := rfl

/-- A resolver is read from its own layer and from older ones. -/
theorem resolver_congr (same : ∀ layer ≤ address, s'.layers layer = s.layers layer) :
    s'.resolver address = s.resolver address := by
  induction address using Nat.strongRecOn with
  | ind address ih =>
    have own := same address (Nat.le_refl address)
    cases inside : (s.layers address).inner with
    | none => rw [resolver_of_none inside, resolver_of_none (own ▸ inside), own]
    | some inner =>
      have older := s.inward address inner inside
      have rest := ih inner older fun layer inside => same layer (Nat.le_of_lt (Nat.lt_of_le_of_lt inside older))
      rw [resolver_of_some inside, resolver_of_some (own ▸ inside), own, rest]

/-- What is inside a layer does not change with its declaration. -/
theorem LayerFrame.resolver_inner (frame : LayerFrame address s s') {layer : Nat} (inside : layer < address) :
    s'.resolver layer = s.resolver layer := by
  refine resolver_congr fun older earlier => ?_
  exact frame.layers older (Nat.ne_of_lt (Nat.lt_of_le_of_lt earlier inside))

/-- The other fields look as before, also those that share a table with the one that has changed. -/
theorem FieldFrame.field_other (frame : FieldFrame address s s') {other : Nat} (differ : other ≠ address) :
    s'.field other = s.field other := by
  -- A table that a field refers to was in use, so it is not a new one.
  have tables : ∀ table, (s.fields other).table = some table → s'.tables table = s.tables table := by
    intro table refers
    exact frame.tables table (s.inUse other table refers)
  have resolvers : s'.resolver = s.resolver := by
    funext layer
    exact resolver_congr fun older _ => congrFun frame.layers older
  simp only [field, frame.fields other differ, resolvers]
  cases refers : (s.fields other).table with
  | none => rfl
  | some table => simp only [Option.map_some, Option.bind_some, tables table refers]

theorem field_attachToField (d : Declaration) (address : Nat) (s : Store) :
    (s.attachToField d address).field address = (s.field address).decorate d := by
  have resolvers : (s.attachToField d address).resolver = s.resolver := by
    funext layer
    exact resolver_congr fun _ _ => rfl
  simp only [field, resolvers]
  simp only [attachToField, replaced_self, Option.map_some, Option.bind_some, FieldDef.decorate, tableOf]
  cases (s.fields address).table <;> rfl

theorem resolver_attachToLayer (d : Declaration) (address : Nat) (s : Store) :
    (s.attachToLayer d address).resolver address = (s.resolver address).decorate d := by
  have frame := attachToLayer_frame d address s
  have own : ((s.attachToLayer d address).layers address).cost = some d := by simp [attachToLayer]
  cases inside : (s.layers address).inner with
  | none => rw [resolver_of_none inside, resolver_of_none (frame.inner.trans inside), own, Resolver.decorate]
  | some inner =>
    rw [resolver_of_some inside, resolver_of_some (frame.inner.trans inside), own,
      frame.resolver_inner (s.inward address inner inside), Resolver.decorate]

/-- One declaration after others. -/
theorem attachAll_snoc (before : List Declaration) (d : Declaration) (state : Target × Store) :
    attachAll (before ++ [d]) state = attach d (attachAll before state).1 (attachAll before state).2 := by
  induction before generalizing state with
  | nil => rfl
  | cons e rest ih => exact ih (attach e state.1 state.2)

/-- A field after a sequence of declarations: the last one counts. -/
theorem attachAll_field (before : List Declaration) (d : Declaration) (address : Nat) (s : Store) :
    ∃ s', attachAll (before ++ [d]) (.field address, s) = (.field address, s') ∧
      s'.field address = (s.field address).decorate d ∧ FieldFrame address s s' := by
  -- From the last declaration backwards: the one before it has left a field that the last one covers.
  induction before using List.reverseRecOn generalizing d with
  | nil => exact ⟨_, rfl, field_attachToField d address s, attachToField_frame d address s⟩
  | append_singleton earlier e ih =>
    obtain ⟨between, run, seen, frame⟩ := ih e
    refine ⟨between.attachToField d address, ?_, ?_, frame.trans (attachToField_frame d address between)⟩
    · rw [attachAll_snoc, run]
      rfl
    · rw [field_attachToField, seen, FieldDef.decorate_decorate]

/-- A resolver after a sequence of declarations on its outermost layer. -/
theorem attachAll_layer (before : List Declaration) (d : Declaration) (address : Nat) (s : Store) :
    ∃ s', attachAll (before ++ [d]) (.layer address, s) = (.layer address, s') ∧
      s'.resolver address = (s.resolver address).decorate d ∧ LayerFrame address s s' := by
  induction before using List.reverseRecOn generalizing d with
  | nil => exact ⟨_, rfl, resolver_attachToLayer d address s, attachToLayer_frame d address s⟩
  | append_singleton earlier e ih =>
    obtain ⟨between, run, seen, frame⟩ := ih e
    refine ⟨between.attachToLayer d address, ?_, ?_, frame.trans (attachToLayer_frame d address between)⟩
    · rw [attachAll_snoc, run]
      rfl
    · rw [resolver_attachToLayer, seen, Resolver.decorate_decorate]

/-- After any number of declarations that were attached to an object one after another, each to what the one before
gave back, it is still the same object, and the last declaration is the one that is found.

A field has got the key of the declaration among its extensions, and all other extensions have the values
they had. No table that was in use has changed, and no other field.

On a resolver the declaration goes before any that is inside, and what is inside has not changed. -/
theorem attachAll_last (before : List Declaration) (d : Declaration) (address : Nat) (s : Store) :
    (∃ s', attachAll (before ++ [d]) (.field address, s) = (.field address, s') ∧
      s'.field address = (s.field address).decorate d ∧
      (∀ parent name, Declaration.find? (s'.field address) parent name = .ok (some d)) ∧
      (∀ key ≠ Declaration.sourceKey, Entries.get? ((s'.field address).extensions.getD []) key =
        Entries.get? ((s.field address).extensions.getD []) key) ∧
      (∀ key, Entries.contains ((s'.field address).extensions.getD []) key = true ↔
        key = Declaration.sourceKey ∨ Entries.contains ((s.field address).extensions.getD []) key = true) ∧
      FieldFrame address s s' ∧ ∀ other ≠ address, s'.field other = s.field other) ∧
    ∃ s', attachAll (before ++ [d]) (.layer address, s) = (.layer address, s') ∧
      s'.resolver address = (s.resolver address).decorate d ∧
      (s'.resolver address).declaration? = some d ∧
      LayerFrame address s s' ∧ ∀ inside < address, s'.resolver inside = s.resolver inside := by
  constructor
  · obtain ⟨s', run, seen, frame⟩ := attachAll_field before d address s
    have entry : ∀ key, Entries.get? ((s'.field address).extensions.getD []) key =
        if key = Declaration.sourceKey then some d.toValue
        else Entries.get? ((s.field address).extensions.getD []) key := by
      intro key
      rw [seen, FieldDef.decorate, FieldDef.extended, Option.getD_some, Entries.get?_insert]
    refine ⟨s', run, seen, ?_, ?_, ?_, frame, fun other => frame.field_other⟩
    · intro parent name
      rw [seen, FieldDef.find?_decorate]
    · intro key differ
      rw [entry, if_neg differ]
    · intro key
      rw [Entries.contains_eq_isSome, Entries.contains_eq_isSome, entry]
      by_cases same : key = Declaration.sourceKey
      · simp [same]
      · simp [same]
  · obtain ⟨s', run, seen, frame⟩ := attachAll_layer before d address s
    refine ⟨s', run, seen, ?_, frame, fun inside => frame.resolver_inner⟩
    rw [seen, Resolver.declaration?_decorate]

def cheap : Declaration := ⟨.num (.int 2), []⟩

def dear : Declaration := ⟨.num (.int 50), [.str "first"]⟩

/-- Fields that share their extensions, and layers of which the second has a declaration. -/
def gallery : Store :=
  (plain (.named "Image") (some [("complexity", .str "high"), ("remark", .str "slow")])).attachToLayer cheap 1

theorem attachAll_last_gallery :
    (∃ s', attachAll [cheap, dear] (.field 0, gallery) = (.field 0, s') ∧
      Declaration.find? (s'.field 0) none none = .ok (some dear) ∧
      Entries.get? ((s'.field 0).extensions.getD []) "remark" = some (.str "slow") ∧
      s'.tables 0 = gallery.tables 0 ∧ (s'.field 1).extensions = (gallery.field 1).extensions) ∧
    ∃ s', attachAll [cheap, dear] (.layer 2, gallery) = (.layer 2, s') ∧
      (s'.resolver 2).declaration? = some dear ∧ (s'.layers 1).cost = some cheap := by
  obtain ⟨⟨s', run, -, found, values, -, frame, others⟩, -⟩ := attachAll_last [cheap] dear 0 gallery
  obtain ⟨-, s'', run', -, found', frame', -⟩ := attachAll_last [cheap] dear 2 gallery
  refine ⟨⟨s', run, found none none, ?_, frame.tables 0 (by decide), ?_⟩, s'', run', found', ?_⟩
  · rw [values "remark" (by decide)]
    rfl
  · rw [others 1 (by decide)]
  · rw [frame'.layers 1 (by decide)]
    rfl

end Store

end QueryCost
