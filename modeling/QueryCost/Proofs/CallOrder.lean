import QueryCost.Proofs.NodeCount
import QueryCost.Proofs.Turns

/-!
# The order in which estimators are called

Where a selection stands is said from the document alone: `Scope.Stands` gives its address and the constructs
around it, the innermost first. The constructs determine the type that is selected on, set by the nearest one
that sets a type (`Scope.context`), and the fragments being expanded (`Scope.trail`). A field is resolved if
this type has it. The chain has one turn at each resolved field that is come to, and the turns come in
post-order of the addresses: what is below a field before the field, and what is further left first.
-/
namespace QueryCost

variable {σ : Type}

/-- The first address comes before the second one in post-order. -/
inductive Address.Before : List Nat → List Nat → Prop
  /-- What is below a selection comes before it. -/
  | beneath (i : Nat) (rest : List Nat) : Before (i :: rest) []
  | left {i j : Nat} (less : i < j) (first second : List Nat) : Before (i :: first) (j :: second)
  | within (i : Nat) {first second : List Nat} (inner : Before first second) :
      Before (i :: first) (i :: second)

namespace Address

theorem Before.irrefl {address : List Nat} : ¬ Before address address := by
  induction address with
  | nil => rintro ⟨⟩
  | cons i rest ih =>
    intro before
    cases before with
    | left less => omega
    | within _ inner => exact ih inner

theorem nodup_of_pairwise {addresses : List (List Nat)} (ordered : addresses.Pairwise Before) :
    addresses.Nodup := by
  refine List.Pairwise.imp ?_ ordered
  rintro address _ before rfl
  exact before.irrefl

end Address

open Address (Before)

namespace Visit

/-- The visits directly below a visit. -/
def children : Visit → List Visit
  | .field _ _ below => below
  | .group _ below => below
  | _ => []

/-- The visit at an address, seen from a visit. -/
def at? : List Nat → Visit → Option Visit
  | [], v => some v
  | i :: rest, v => v.children[i]?.bind (at? rest)

theorem at?_concat (address : List Nat) (i : Nat) (v : Visit) :
    at? (address ++ [i]) v = (at? address v).bind (·.children[i]?) := by
  induction address generalizing v with
  | nil =>
    show v.children[i]?.bind (at? []) = v.children[i]?
    cases v.children[i]? <;> rfl
  | cons j rest ih =>
    rw [List.cons_append, at?, at?, Option.bind_assoc]
    congr 1
    funext w
    exact ih w

section Fields

variable {address : List Nat} {site : Site} {inner : List Visit}

theorem mem_postAll {i : Nat} {visits : List Visit} :
    (address, site, inner) ∈ postAll i visits ↔
      ∃ j rest v, address = (i + j) :: rest ∧ visits[j]? = some v ∧ (rest, site, inner) ∈ v.post := by
  induction visits generalizing i with
  | nil => simp [postAll]
  | cons v others ih =>
    rw [postAll, List.mem_append, ih, List.mem_map]
    constructor
    · rintro (⟨⟨rest, _, _⟩, member, ⟨⟩⟩ | ⟨j, rest, w, rfl, placed, member⟩)
      · exact ⟨0, rest, v, rfl, rfl, member⟩
      · exact ⟨j + 1, rest, w, by rw [Nat.add_right_comm, Nat.add_assoc], placed, member⟩
    · rintro ⟨j, rest, w, rfl, placed, member⟩
      cases j with
      | zero =>
        cases placed
        exact .inl ⟨_, member, rfl⟩
      | succ j => exact .inr ⟨j, rest, w, by rw [Nat.add_right_comm, Nat.add_assoc], placed, member⟩

theorem mem_post_nil {v : Visit} :
    ([], site, inner) ∈ v.post ↔ ∃ notices, v = .field notices site inner := by
  cases v with
  | field notices other below => simp [post, mem_postAll, eq_comm]
  | group notices below => simp [post, mem_postAll]
  | _ => simp [post]

theorem mem_post_cons {i : Nat} {rest : List Nat} {v : Visit} :
    (i :: rest, site, inner) ∈ v.post ↔
      ∃ w, v.children[i]? = some w ∧ (rest, site, inner) ∈ w.post := by
  cases v with
  | field notices other below => simp [post, mem_postAll, Visit.children]
  | group notices below => simp [post, mem_postAll, Visit.children]
  | _ => simp [post, Visit.children]

/-- The list has all fields, each at its address. -/
theorem mem_post {v : Visit} : (address, site, inner) ∈ v.post ↔
    ∃ notices, at? address v = some (.field notices site inner) := by
  induction address generalizing v with
  | nil => simp [mem_post_nil, at?]
  | cons i rest ih =>
    simp only [mem_post_cons, at?, Option.bind_eq_some_iff, ih]
    constructor
    · rintro ⟨w, placed, notices, found⟩
      exact ⟨notices, w, placed, found⟩
    · rintro ⟨notices, w, placed, found⟩
      exact ⟨w, placed, notices, found⟩

end Fields

theorem postAll_address_le {i : Nat} {visits : List Visit} {f : List Nat × Site × List Visit}
    (member : f ∈ postAll i visits) : ∃ j rest, f.1 = j :: rest ∧ i ≤ j := by
  obtain ⟨address, site, inner⟩ := f
  obtain ⟨j, rest, _, rfl, -, -⟩ := mem_postAll.mp member
  exact ⟨i + j, rest, rfl, Nat.le_add_right i j⟩

mutual

theorem post_pairwise : ∀ v : Visit, (v.post.map (·.1)).Pairwise Before
  | .field _ site below => by
    rw [post, List.map_append, List.pairwise_append]
    refine ⟨postAll_pairwise below 0, List.pairwise_singleton _ _, ?_⟩
    intro address member _ last
    obtain ⟨f, listed, rfl⟩ := List.mem_map.mp member
    obtain ⟨j, rest, here, -⟩ := postAll_address_le listed
    rw [here, List.mem_singleton.mp last]
    exact .beneath j rest
  | .group _ below => by
    rw [post]
    exact postAll_pairwise below 0
  | .excluded _ => .nil
  | .unresolved _ => .nil
  | .unexpanded _ => .nil

/-- The list is in post-order. -/
theorem postAll_pairwise : ∀ (visits : List Visit) (i : Nat),
    ((postAll i visits).map (·.1)).Pairwise Before
  | [], _ => .nil
  | v :: others, i => by
    rw [postAll, List.map_append, List.pairwise_append, List.map_map]
    refine ⟨?_, postAll_pairwise others (i + 1), ?_⟩
    · have inside := (List.pairwise_map.mp (post_pairwise v)).imp (Before.within i)
      exact List.pairwise_map.mpr inside
    · intro first member second later
      obtain ⟨f, -, rfl⟩ := List.mem_map.mp member
      obtain ⟨g, listed, rfl⟩ := List.mem_map.mp later
      obtain ⟨j, rest, here, less⟩ := postAll_address_le listed
      rw [here]
      exact .left less f.1 rest

end

end Visit

/-- What selections can stand in. -/
inductive Construct where
  | field (field : FieldDef)
  | inline (condition : Option String)
  /-- A fragment in the place of a spread. -/
  | fragment (f : Fragment)

namespace Scope

/-- The type a construct sets for what stands in it: a field the named type of the field, a fragment the type
of its condition. An inline fragment without a condition sets none. -/
def sets? (scope : Scope) : Construct → Option (Option TypeDef)
  | .field field => some (scope.schema.type? field.type.base)
  | .inline (some condition) => some (scope.schema.type? condition)
  | .inline none => none
  | .fragment f => some (scope.schema.type? f.condition)

/-- The type that is selected on inside constructs: the nearest one that sets a type counts. -/
def context (scope : Scope) (start : Frame) (enclosing : List Construct) : Option TypeDef :=
  (enclosing.findSome? scope.sets?).getD start.parent

/-- The fragments being expanded inside constructs. -/
def trail (start : Frame) (enclosing : List Construct) : List String :=
  enclosing.filterMap (fun
    | .fragment f => some f.name
    | _ => none) ++ start.path

/-- The type that is selected on has fields, and one of them is selected. -/
structure HasField (parent : Option TypeDef) (head : FieldHead) (t : TypeDef) (field : FieldDef) :
    Prop where
  typed : parent = some t
  composite : t.isComposite = true
  found : t.field? head.name = some field

/-- A selection inside constructs opens another one, in which further selections stand. -/
inductive Opens (scope : Scope) (start : Frame) (enclosing : List Construct) :
    Selection → Construct → List Selection → Prop
  | field {head : FieldHead} {selections : List Selection} {t : TypeDef} {field : FieldDef}
      (included : (exclusion scope.vars head.directives).excluded = false)
      (resolved : HasField (scope.context start enclosing) head t field) :
      Opens scope start enclosing (.field head selections) (.field field) selections
  | inline {condition : Option String} {directives : List Directive} {selections : List Selection}
      (included : (exclusion scope.vars directives).excluded = false) :
      Opens scope start enclosing (.inline condition directives selections) (.inline condition)
        selections
  | fragment {name : String} {directives : List Directive} {f : Fragment}
      (included : (exclusion scope.vars directives).excluded = false)
      (fresh : name ∉ trail start enclosing) (defined : scope.fragment? name = some f) :
      Opens scope start enclosing (.spread name directives) (.fragment f) f.selections

/-- At an address, inside constructs, stands a selection. -/
inductive Stands (scope : Scope) (start : Frame) : List Nat → List Construct → Selection → Prop
  | top {i : Nat} {s : Selection} (placed : start.selections[i]? = some s) :
      Stands scope start [i] [] s
  | inside {address : List Nat} {enclosing : List Construct} {outer s : Selection} {c : Construct}
      {selections : List Selection} {i : Nat} (stands : Stands scope start address enclosing outer)
      (opens : scope.Opens start enclosing outer c selections) (placed : selections[i]? = some s) :
      Stands scope start (address ++ [i]) (c :: enclosing) s

/-- A resolved field that is come to, with its address, its site and the visits directly below it. -/
inductive Resolved (scope : Scope) (start : Frame) : List Nat × Site × List Visit → Prop
  | field {address : List Nat} {enclosing : List Construct} {head : FieldHead}
      {selections : List Selection} {t : TypeDef} {field : FieldDef}
      (stands : scope.Stands start address enclosing (.field head selections))
      (included : (exclusion scope.vars head.directives).excluded = false)
      (resolved : HasField (scope.context start enclosing) head t field) :
      Resolved scope start (address, (scope.site t field head).1,
        scope.expand (trail start enclosing) (scope.schema.type? field.type.base) selections)

variable {scope : Scope} {start : Frame} {enclosing : List Construct}

theorem hasField_iff {parent : Option TypeDef} {head : FieldHead} {t : TypeDef} {field : FieldDef} :
    HasField parent head t field ↔ resolve? parent head.name = some (t, field) := by
  constructor
  · rintro ⟨rfl, composite, found⟩
    simp [resolve?, composite, found]
  · intro resolved
    obtain ⟨u, typed, resolved⟩ := Option.bind_eq_some_iff.mp resolved
    split at resolved
    next composite =>
      obtain ⟨found, has, same⟩ := Option.bind_eq_some_iff.mp resolved
      cases same
      exact ⟨typed, composite, has⟩
    next => cases resolved

/-- The visit of a selection inside constructs. -/
def visitInside (scope : Scope) (start : Frame) (enclosing : List Construct) (s : Selection) : Visit :=
  scope.visitAt (trail start enclosing) (scope.context start enclosing) s

/-- The visits of selections inside constructs. -/
def expandInside (scope : Scope) (start : Frame) (enclosing : List Construct)
    (selections : List Selection) : List Visit :=
  scope.expand (trail start enclosing) (scope.context start enclosing) selections

theorem getElem?_expandInside (selections : List Selection) (i : Nat) :
    (scope.expandInside start enclosing selections)[i]? =
      selections[i]?.map (scope.visitInside start enclosing) := by
  unfold expandInside
  induction selections generalizing i with
  | nil => simp
  | cons s rest ih =>
    rw [expand_cons]
    cases i with
    | zero => rfl
    | succ i => simpa using ih i

/-- Where a construct is opened, its selections are visited directly below. -/
theorem children_of_opens {s : Selection} {c : Construct} {selections : List Selection}
    (opens : scope.Opens start enclosing s c selections) :
    (scope.visitInside start enclosing s).children =
      scope.expandInside start (c :: enclosing) selections := by
  cases opens with
  | @field head _ t field included resolved =>
    rw [visitInside, visitAt_resolved _ _ _ included (hasField_iff.mp resolved)]
    rfl
  | @inline condition directives _ included =>
    rw [visitInside, visitAt_inline _ _ condition _ included]
    cases condition <;> rfl
  | @fragment name directives f included fresh defined =>
    obtain ⟨-, rfl⟩ := fragment?_some defined
    rw [visitInside, visitAt_expanded _ _ included fresh defined]
    rfl

/-- What stands at an address is visited there. -/
theorem at?_of_stands {address : List Nat} {s : Selection}
    (stands : scope.Stands start address enclosing s) :
    Visit.at? address (.group [] (scope.expandInside start [] start.selections)) =
      some (scope.visitInside start enclosing s) := by
  induction stands with
  | @top i s placed =>
    show (scope.expandInside start [] start.selections)[i]?.bind (Visit.at? []) = _
    rw [getElem?_expandInside, placed]
    rfl
  | inside stands opens placed ih =>
    rw [Visit.at?_concat, ih, Option.bind_some, children_of_opens opens, getElem?_expandInside, placed,
      Option.map_some]

/-- The ways in which a selection inside constructs is visited. -/
inductive Seen (scope : Scope) (start : Frame) (enclosing : List Construct) :
    Selection → Visit → Prop
  | field {head : FieldHead} {selections : List Selection} {t : TypeDef} {field : FieldDef}
      (included : (exclusion scope.vars head.directives).excluded = false)
      (resolved : HasField (scope.context start enclosing) head t field) (notices : List Notice) :
      Seen scope start enclosing (.field head selections) (.field notices (scope.site t field head).1
        (scope.expand (trail start enclosing) (scope.schema.type? field.type.base) selections))
  | group {s : Selection} {c : Construct} {selections : List Selection}
      (opens : scope.Opens start enclosing s c selections) (notices : List Notice)
      (visits : List Visit) : Seen scope start enclosing s (.group notices visits)
  | excluded (s : Selection) (notices : List Notice) :
      Seen scope start enclosing s (.excluded notices)
  | unresolved (s : Selection) (notices : List Notice) :
      Seen scope start enclosing s (.unresolved notices)
  | unexpanded (s : Selection) (notices : List Notice) :
      Seen scope start enclosing s (.unexpanded notices)

theorem seen_visitInside (s : Selection) :
    scope.Seen start enclosing s (scope.visitInside start enclosing s) := by
  unfold visitInside
  cases left : (exclusion scope.vars s.directives).excluded with
  | true =>
    rw [visitAt_excluded _ _ left]
    exact .excluded s _
  | false =>
    cases s with
    | field head selections =>
      rw [Selection.directives] at left
      cases resolved : resolve? (scope.context start enclosing) head.name with
      | none =>
        rw [visitAt_unresolved _ _ _ left resolved]
        exact .unresolved _ _
      | some found =>
        rw [visitAt_resolved _ _ _ left resolved]
        exact .field left (hasField_iff.mpr resolved) _
    | inline condition directives selections =>
      rw [Selection.directives] at left
      rw [visitAt_inline _ _ condition _ left]
      exact .group (.inline left) _ _
    | spread name directives =>
      rw [Selection.directives] at left
      by_cases onTrail : name ∈ trail start enclosing
      · rw [visitAt_onPath _ _ left onTrail]
        exact .unexpanded _ _
      cases defined : scope.fragment? name with
      | none =>
        rw [visitAt_undefined _ _ left defined]
        exact .unexpanded _ _
      | some f =>
        rw [visitAt_expanded _ _ left onTrail defined]
        exact .group (.fragment left onTrail defined) _ _

/-- Nothing is visited below a selection that opens no construct. -/
theorem Seen.opens {s : Selection} {v : Visit} (seen : scope.Seen start enclosing s v)
    (inner : v.children ≠ []) : ∃ c selections, scope.Opens start enclosing s c selections := by
  cases seen with
  | field included resolved notices => exact ⟨_, _, .field included resolved⟩
  | group opens notices visits => exact ⟨_, _, opens⟩
  | _ => exact absurd rfl inner

/-- What is visited at an address stands there. The induction is on the address from its end, along the
constructs from the inside to the outside. -/
theorem stands_of_at? {address : List Nat} {v : Visit} (nonempty : address ≠ [])
    (found : Visit.at? address (.group [] (scope.expandInside start [] start.selections)) = some v) :
    ∃ enclosing s, scope.Stands start address enclosing s ∧
      v = scope.visitInside start enclosing s := by
  induction address using List.reverseRecOn generalizing v with
  | nil => exact absurd rfl nonempty
  | append_singleton address i ih =>
    rw [Visit.at?_concat] at found
    obtain ⟨w, outer, inner⟩ := Option.bind_eq_some_iff.mp found
    by_cases first : address = []
    · subst first
      cases outer
      rw [Visit.children, getElem?_expandInside] at inner
      obtain ⟨s, placed, rfl⟩ := Option.map_eq_some_iff.mp inner
      exact ⟨[], s, .top placed, rfl⟩
    · obtain ⟨enclosing, s, stands, rfl⟩ := ih first outer
      have visited : (scope.visitInside start enclosing s).children ≠ [] := by
        intro none
        rw [none] at inner
        cases inner
      obtain ⟨c, selections, opens⟩ := (seen_visitInside s).opens visited
      rw [children_of_opens opens, getElem?_expandInside] at inner
      obtain ⟨s', placed, rfl⟩ := Option.map_eq_some_iff.mp inner
      exact ⟨c :: enclosing, s', .inside stands opens placed, rfl⟩

/-- The fields that are visited are the resolved ones. -/
theorem mem_postAll_iff_resolved {f : List Nat × Site × List Visit} :
    f ∈ Visit.postAll 0 (scope.expand start.path start.parent start.selections) ↔
      scope.Resolved start f := by
  obtain ⟨address, site, inner⟩ := f
  have listed : (address, site, inner) ∈
      Visit.postAll 0 (scope.expand start.path start.parent start.selections) ↔
      ∃ notices, Visit.at? address (.group [] (scope.expandInside start [] start.selections)) =
        some (.field notices site inner) :=
    @Visit.mem_post address site inner (.group [] (scope.expandInside start [] start.selections))
  rw [listed]
  constructor
  · rintro ⟨notices, found⟩
    have nonempty : address ≠ [] := by
      rintro rfl
      cases found
    obtain ⟨enclosing, s, stands, visited⟩ := stands_of_at? nonempty found
    have seen := @seen_visitInside scope start enclosing s
    rw [← visited] at seen
    cases seen with
    | field included resolved => exact .field stands included resolved
  · rintro ⟨stands, included, resolved⟩
    have visited := at?_of_stands stands
    rw [visitInside, visitAt_resolved _ _ _ included (hasField_iff.mp resolved)] at visited
    exact ⟨_, visited⟩

/-- With estimators that do not raise, only an overflow can end the run. -/
theorem score_ensures_of_total {chain : List (Estimate σ)}
    (total : ∀ estimate ∈ chain, estimate.Total) (path : List String) (parent : Option TypeDef)
    (selections : List Selection) :
    (scope.score chain path parent selections).Ensures fun _ => True :=
  (Visit.priceAll_ensures_of_total total _ _).bind fun _ _ => .pure trivial

/-- When selections are scored, the calls of estimators come in turns. A transcript of them changes nothing
and holds nothing else. There is one turn for each resolved field that is come to, at its address and with
the type that the nearest construct around it sets, and none for any other selection; the turns come in
post-order. In a turn the estimators are asked from left to right, up to the first that answers with a
finite number. Each is told the sum of what the selections directly below the field come to, and the
arguments of the field as the one before has left them. The score is the sum of what the topmost selections
come to. Estimators that do not raise lead to a score unless there is an overflow. -/
theorem estimators_called_in_post_order (scope : Scope) (chain : List (Estimate σ)) (start : Frame)
    (s : Session σ) (log : List Entry) :
    ((∀ estimate ∈ chain, estimate.Total) → OverflowOr (fun _ => True)
      ((scope.score chain start.path start.parent start.selections).exec s).1) ∧
    ∀ score after,
      (scope.score chain start.path start.parent start.selections).exec s = (.ok score, after) →
      ∃ turns : List Turn,
        (scope.score (transcribe 0 chain) start.path start.parent start.selections).exec
            ⟨(s.memory, log), s.notices⟩ =
          (.ok score, ⟨(after.memory, log ++ turns.flatMap Turn.entries), after.notices⟩) ∧
        (∀ f, f ∈ turns.map Turn.field ↔ scope.Resolved start f) ∧
        (turns.map Turn.address).Pairwise Before ∧ (turns.map Turn.address).Nodup ∧
        (∀ turn ∈ turns, turn.Fair chain.length turns) ∧
        Visit.Sums turns [] 0 (scope.expand start.path start.parent start.selections) (.int 0)
          score.cost := by
  refine ⟨fun total => score_ensures_of_total total _ _ _ s, ?_⟩
  intro score after success
  obtain ⟨log', transcribed⟩ := score_transcribed_success success log
  obtain ⟨cost, _, priced, ended⟩ := Run.exec_bind_success transcribed
  obtain ⟨rfl, rfl⟩ := Run.exec_pure_success ended
  obtain ⟨turns, ran, sums⟩ := Visit.priceAll_turns chain _ [] 0 (.int 0) priced
  have fields : turns.map Turn.field =
      Visit.postAll 0 (scope.expand start.path start.parent start.selections) := by
    rw [ran.fields]
    exact List.map_id _
  have addresses : turns.map Turn.address = (turns.map Turn.field).map (·.1) := by
    rw [List.map_map]
    rfl
  have ordered : (turns.map Turn.address).Pairwise Before := by
    rw [addresses, fields]
    exact Visit.postAll_pairwise _ 0
  refine ⟨turns, ?_, ?_, ordered, Address.nodup_of_pairwise ordered, ran.fair, sums⟩
  · have written : log' = log ++ turns.flatMap Turn.entries := ran.written
    rw [transcribed, written]
  · intro f
    rw [fields]
    exact mem_postAll_iff_resolved

/-- Fields that lead back to their type, and a fragment on another type. -/
def layered : Scope :=
  ⟨⟨[⟨"T", .object [] [⟨"a", .named "Int", [], none, none, []⟩, ⟨"t", .named "T", [], none, none, []⟩],
      none⟩, ⟨"U", .object [] [⟨"a", .named "Int", [], none, none, []⟩], none⟩], none, none, none, []⟩,
    [⟨"A", "U", [], [.field ⟨none, "a", [], []⟩ []]⟩], []⟩

/-- A field with a spread, an unknown field and an excluded one below it, and a field after it. -/
def layers : List Selection :=
  [.field ⟨none, "t", [], []⟩ [.spread "A" [], .field ⟨none, "b", [], []⟩ [],
      .field ⟨none, "a", [], [⟨"skip", [("if", .bool true)]⟩]⟩ []],
    .field ⟨none, "a", [], []⟩ []]

/-- An estimator that declines, and one that answers differently in each turn. -/
def sequel : List (Estimate Memory) :=
  [(Formula.constant .null).estimate, (Formula.sequence 0 [.int 5, .null, .int 2]).estimate]

/-- The field in the fragment has its turn, on the type of the fragment. -/
theorem estimators_called_in_post_order_layers :
    (∀ estimate ∈ sequel, estimate.Total) ∧
    ∃ (turns : List Turn) (after : Session (Memory × List Entry)),
      (layered.score (transcribe 0 sequel) [] (layered.schema.type? "T") layers).exec
        ⟨(.empty, []), #[]⟩ = (.ok ⟨.int 9, 6⟩, after) ∧
      after.memory.2 = turns.flatMap Turn.entries ∧
      (turns.map Turn.address).Pairwise Before ∧
      ∃ turn ∈ turns, turn.address = [0, 0, 0] ∧ turn.site.parent.name = "U" := by
  have total : ∀ estimate ∈ sequel, estimate.Total :=
    List.forall_mem_cons.mpr ⟨fun _ s => ⟨_, s, rfl⟩,
      List.forall_mem_singleton.mpr fun _ _ => ⟨_, _, rfl⟩⟩
  obtain ⟨-, turned⟩ := estimators_called_in_post_order layered sequel
    ⟨[], layered.schema.type? "T", layers⟩ ⟨.empty, #[]⟩ []
  have scored : ((layered.score sequel [] (layered.schema.type? "T") layers).exec
      ⟨.empty, #[]⟩).1.toOption = some ⟨.int 9, 6⟩ := by decide +kernel
  rcases ended : (layered.score sequel [] (layered.schema.type? "T") layers).exec ⟨.empty, #[]⟩ with
    ⟨fault | score, after⟩
  · rw [ended] at scored
    cases scored
  rw [ended] at scored
  cases scored
  obtain ⟨turns, transcribed, fields, ordered, -⟩ := turned _ after ended
  have inside : layered.Resolved ⟨[], layered.schema.type? "T", layers⟩ ([0, 0, 0], _, _) :=
    .field (.inside (.inside (.top rfl) (.field rfl ⟨rfl, rfl, rfl⟩) rfl)
      (.fragment rfl List.not_mem_nil rfl) rfl) rfl ⟨rfl, rfl, rfl⟩
  obtain ⟨turn, member, same⟩ := List.mem_map.mp ((fields _).mpr inside)
  obtain ⟨address, site, -⟩ : turn.address = _ ∧ turn.site = _ ∧ turn.below = _ := by
    simpa [Turn.field] using same
  refine ⟨total, turns, _, transcribed, rfl, ordered, turn, member, address, ?_⟩
  rw [site]
  rfl

end Scope

end QueryCost
