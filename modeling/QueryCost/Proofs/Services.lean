import QueryCost.Proofs.Acceptance
import QueryCost.Proofs.Passes
import QueryCost.Service.Pipeline

/-!
# Services decide alike

The parts of a configuration are looked up in several places: by an endpoint when it is made and again for
every request, by a validator when it is made, when it is copied and when it makes its rule, and by a rule that
reads the configuration of its schema. `Configuration.effective` says what they all should come to: the policy
of the values in effect. They do (`Configuration.policy_iff`, `Validator.make_iff`), and since a checked policy
passes its own check (`Policy.make_again`), no number of copies changes it.

This takes estimators that can be read again. A stream of them is used up when an endpoint is made, so all that
the endpoint is asked to check fails. A validator reads its configuration once and does not notice.
-/
namespace QueryCost

variable {σ : Type}

namespace Limits

theorem readMaximum_finite {given : Value} {x : Number} (read : readMaximum given = .ok x) :
    x.isFinite = .ok true := by
  have outcome := given.finite?_outcome
  unfold readMaximum at read
  cases answer : given.finite? with
  | error fault =>
    rw [answer] at read
    cases read
  | ok found =>
    rw [answer] at read outcome
    cases found with
    | none => cases read
    | some y =>
      dsimp only at read
      split at read
      · cases read
        exact (outcome _ rfl).2
      · cases read

theorem readNodes_positive {given : Value} {n : Nat} (read : readNodes given = .ok n) : 0 < n := by
  unfold readNodes at read
  split at read
  next m =>
    split at read
    next positive =>
      cases read
      omega
    next => cases read
  next => cases read

/-- There are no limits without estimators. -/
theorem estimators_positive {maximum nodes : Value} {estimators : Nat} {limits : Limits}
    (valid : make maximum estimators nodes = .ok limits) : 0 < estimators := by
  unfold make at valid
  obtain ⟨highest, -, valid⟩ := except_bind_success valid
  dsimp only at valid
  split at valid
  · cases valid
  · omega

/-- Limits that were made can be made again from their own values. -/
theorem make_again {maximum nodes : Value} {estimators : Nat} {limits : Limits}
    (valid : make maximum estimators nodes = .ok limits) :
    make (.num limits.maximum) estimators (.int limits.nodes) = .ok limits := by
  obtain ⟨highest, most⟩ := make_success valid
  have count : 0 < (limits.nodes : Int) := by
    have positive := readNodes_positive most
    omega
  exact make_of_positive (readMaximum_finite highest) (readMaximum_positive highest)
    (estimators_positive valid) count

end Limits

namespace ChainSetting

theorem membersIfAny_sequence (chain : List (Estimate σ)) :
    (sequence chain).membersIfAny = .ok chain := by
  cases chain <;> rfl

/-- An empty setting has no members, if it can have any. -/
theorem members_of_isEmpty {setting : ChainSetting σ} (empty : setting.isEmpty = true)
    {chain : List (Estimate σ)} (found : setting.members = .ok chain) : chain = [] := by
  cases setting with
  | sequence members =>
    cases found
    exact List.isEmpty_iff.mp empty
  | stream members => cases empty
  | other v => cases found

/-- Where there have to be members, it makes no difference that an empty setting of any kind has none. -/
theorem membersIfAny_iff {setting : ChainSetting σ} {chain : List (Estimate σ)}
    (some : 0 < chain.length) :
    setting.membersIfAny = .ok chain ↔ setting.members = .ok chain := by
  unfold membersIfAny
  cases empty : setting.isEmpty with
  | false => rw [if_neg Bool.false_ne_true]
  | true =>
    rw [if_pos rfl]
    constructor
    · rintro ⟨⟩
      cases some
    · intro found
      rw [members_of_isEmpty empty found] at some
      cases some

theorem spent_spent (setting : ChainSetting σ) : setting.spent.spent = setting.spent := by
  cases setting <;> rfl

end ChainSetting

namespace Policy

variable {estimators : ChainSetting σ} {maximum nodes : Value} {policy : Policy σ}

theorem make_iff :
    make estimators maximum nodes = .ok policy ↔
      estimators.membersIfAny = .ok policy.chain ∧
        Limits.make maximum policy.chain.length nodes = .ok policy.limits := by
  unfold make
  rw [mapError_bind_iff]
  constructor
  · rintro ⟨chain, found, valid⟩
    obtain ⟨limits, made, valid⟩ := except_bind_success valid
    cases valid
    exact ⟨found, made⟩
  · rintro ⟨found, made⟩
    refine ⟨policy.chain, found, ?_⟩
    rw [made]
    rfl

/-- A checked policy passes its own check. -/
theorem make_again (valid : make estimators maximum nodes = .ok policy) :
    make (.sequence policy.chain) (.num policy.limits.maximum) (.int policy.limits.nodes) =
      .ok policy :=
  make_iff.mpr ⟨ChainSetting.membersIfAny_sequence _, Limits.make_again (make_iff.mp valid).2⟩

end Policy

namespace Configuration

variable {host : Host σ} {c : Configuration σ} {settings : Settings} {policy : Policy σ}

/-- The policy of the values in effect: what is given, else what the site sets for a limit, else the
default. -/
def effective (host : Host σ) (c : Configuration σ) (settings : Settings) :
    Except SetupError (Policy σ) :=
  Policy.make (c.estimators.getD (.sequence host.defaults))
    ((c.maximum.or settings.maximum).getD Limits.defaultMaximum)
    ((c.nodes.or settings.nodes).getD Limits.defaultNodes)

/-- The estimators are not given as a stream. -/
def Rereadable (c : Configuration σ) : Prop := ∀ chain, c.estimators ≠ some (.stream chain)

theorem Rereadable.spent_eq (rereadable : c.Rereadable) : c.spent = c := by
  obtain ⟨estimators, maximum, nodes⟩ := c
  cases estimators with
  | none => rfl
  | some setting =>
    cases setting with
    | stream chain => exact absurd rfl (rereadable chain)
    | _ => rfl

theorem spent_spent (c : Configuration σ) : c.spent.spent = c.spent := by
  obtain ⟨estimators, maximum, nodes⟩ := c
  cases estimators with
  | none => rfl
  | some setting => simp only [spent, Option.map_some, ChainSetting.spent_spent]

theorem maximumIn_eq : c.maximumIn settings =
    (c.maximum.or settings.maximum).getD Limits.defaultMaximum := by
  unfold maximumIn
  cases c.maximum <;> rfl

theorem nodesIn_eq : c.nodesIn settings = (c.nodes.or settings.nodes).getD Limits.defaultNodes := by
  unfold nodesIn
  cases c.nodes <;> rfl

theorem chain_eq_members (host : Host σ) (c : Configuration σ) :
    c.chain host = (c.estimators.getD (.sequence host.defaults)).members := by
  unfold chain
  cases c.estimators <;> rfl

theorem policy_iff_parts :
    c.policy host settings = .ok policy ↔
      (c.estimators.getD (.sequence host.defaults)).members = .ok policy.chain ∧
        Limits.make (c.maximumIn settings) policy.chain.length (c.nodesIn settings) =
          .ok policy.limits := by
  unfold Configuration.policy
  rw [mapError_bind_iff, chain_eq_members]
  constructor
  · rintro ⟨chain, found, valid⟩
    obtain ⟨members, limits⟩ := Policy.make_iff.mp valid
    rw [ChainSetting.membersIfAny_sequence] at members
    cases members
    exact ⟨found, limits⟩
  · rintro ⟨found, limits⟩
    exact ⟨_, found, Policy.make_iff.mpr ⟨ChainSetting.membersIfAny_sequence _, limits⟩⟩

/-- Whoever looks the parts up comes to the policy in effect, or to none if there is none. -/
theorem policy_iff : c.policy host settings = .ok policy ↔ c.effective host settings = .ok policy := by
  unfold effective
  rw [policy_iff_parts, Policy.make_iff, ← maximumIn_eq, ← nodesIn_eq]
  constructor
  · rintro ⟨members, limits⟩
    exact ⟨(ChainSetting.membersIfAny_iff (Limits.estimators_positive limits)).mpr members, limits⟩
  · rintro ⟨members, limits⟩
    exact ⟨(ChainSetting.membersIfAny_iff (Limits.estimators_positive limits)).mp members, limits⟩

/-- Whoever reads a stream after another one finds no estimators. -/
theorem policy_spent_stream {chain : List (Estimate σ)} (stream : c.estimators = some (.stream chain))
    (effective : c.effective host settings = .ok policy) :
    c.spent.policy host settings = .error .noEstimators := by
  obtain ⟨-, limits⟩ := policy_iff_parts.mp (policy_iff.mpr effective)
  have given : c.spent.maximumIn settings = c.maximumIn settings := rfl
  have empty : c.spent.chain host = .ok [] := by
    simp only [Configuration.chain, spent, stream, Option.map_some]
    rfl
  have none : Limits.make (c.maximumIn settings) 0 (c.spent.nodesIn settings) = .error .noEstimators := by
    unfold Limits.make
    rw [(Limits.make_success limits).1]
    rfl
  unfold Configuration.policy
  rw [empty, given]
  exact congrArg (· >>= fun limits => .ok (Policy.mk [] limits)) none

/-- A rule that reads the configuration of its schema checks with the policy in effect. -/
theorem check_of_effective (effective : c.effective host settings = .ok policy) (schema : Schema)
    (doc : Document) (vars : Entries) :
    c.check host settings schema doc vars = (do
      return (← ((policy.rule none vars).check schema doc).attempt).mapError .fault) := by
  rw [Configuration.check, policy_iff.mpr effective]

end Configuration

namespace Validator

variable {host : Host σ} {c : Configuration σ} {settings : Settings} {notifies : Bool}
  {v : Validator σ}

theorem configure_iff :
    configure host c notifies = .ok v ↔
      (c.estimators.getD (.sequence host.defaults)).members = .ok v.policy.chain ∧
      Limits.make (c.maximum.getD Limits.defaultMaximum) v.policy.chain.length
        (c.nodes.getD Limits.defaultNodes) = .ok v.policy.limits ∧
      v.notifies = notifies := by
  unfold configure
  rw [mapError_bind_iff]
  constructor
  · rintro ⟨chain, found, valid⟩
    obtain ⟨limits, made, valid⟩ := except_bind_success valid
    cases valid
    exact ⟨found, made, rfl⟩
  · rintro ⟨found, made, rfl⟩
    refine ⟨v.policy.chain, found, ?_⟩
    rw [made]
    rfl

/-- A validator is made with the policy in effect. -/
theorem make_iff :
    make host c settings notifies = .ok v ↔
      c.effective host settings = .ok v.policy ∧ v.notifies = notifies := by
  unfold make
  rw [configure_iff, ← Configuration.policy_iff, Configuration.policy_iff_parts, and_assoc]
  rfl

/-- Chained copies. -/
def copies (host : Host σ) : Nat → Validator σ → Except SetupError (Validator σ)
  | 0, v => .ok v
  | k + 1, v => v.copy host >>= copies host k

variable {estimators : ChainSetting σ} {maximum nodes : Value}

theorem copy_of_made (valid : Policy.make estimators maximum nodes = .ok v.policy) :
    v.copy host = .ok v :=
  configure_iff.mpr ⟨rfl, Limits.make_again (Policy.make_iff.mp valid).2, rfl⟩

theorem copies_of_made (valid : Policy.make estimators maximum nodes = .ok v.policy) (k : Nat) :
    v.copies host k = .ok v := by
  induction k with
  | zero => rfl
  | succ k ih =>
    rw [copies, copy_of_made valid]
    exact ih

theorem rule_of_made (valid : Policy.make estimators maximum nodes = .ok v.policy) (vars : Entries) :
    v.rule vars = .ok (v.policy.rule none vars) := by
  unfold rule
  rw [Policy.make_again valid]
  rfl

end Validator

namespace Request

variable {parse : String → Option Document} {request : Request} {doc : Document}

/-- The query of a request is a document, or a text of one. -/
inductive Asks (parse : String → Option Document) (request : Request) (doc : Document) : Prop
  | document (given : request.query? = some (.document doc))
  | text {text : String} (given : request.query? = some (.value (.str text))) (nonempty : text ≠ "")
      (parsed : parse text = some doc)

/-- A query that is asked for is looked at, unless the request is not to be checked. -/
theorem Asks.inquiry_eq (asks : request.Asks parse doc) (wanted : request.wantsCheck = true) :
    request.inquiry parse = .document doc := by
  unfold inquiry
  rw [wanted]
  cases asks with
  | document given =>
    rw [given]
    rfl
  | text given nonempty parsed =>
    rw [given]
    simp [Argument.truthy, Value.truthy, nonempty, parsed]

/-- The variables of a request: the values that are named, under the one name or else the other, or none. -/
inductive Sends (request : Request) : Entries → Prop
  | values {vars : Entries} (given : request.named? "variable_values" = some (.value (.map vars))) :
      Sends request vars
  | plain {vars : Entries} (absent : request.named? "variable_values" = none)
      (given : request.named? "variables" = some (.value (.map vars))) : Sends request vars
  | nothing (absent : request.named? "variable_values" = none)
      (silent : request.named? "variables" = none) : Sends request []

theorem Sends.vars_eq {vars : Entries} (sends : request.Sends vars) : request.vars = vars := by
  cases sends with
  | values given => simp [Request.vars, given]
  | plain absent given => simp [Request.vars, absent, given]
  | nothing absent silent => simp [Request.vars, absent, silent]

end Request

/-- What becomes of a call whose query is checked. -/
def CallOutcome.ofCheck (request : Request) : Except Fault Progress → CallOutcome
  | .ok progress => match progress.violation with
    | none => .reached (request.without Request.checkKey)
    | some v => .rejected [.excess v]
  | .error f => .failed (.fault f)

namespace Endpoint

variable {host : Host σ} {endpoint : Endpoint σ}

section Calls

variable {schema : Schema} {policy : Policy σ} {method : Method} {request : Request} {doc : Document}

/-- A guarded method is reached, rejected or failed as the check ends. -/
theorem call_checked (known : endpoint.schema = some schema)
    (valid : endpoint.configuration.policy host endpoint.settings = .ok policy)
    (guarded : method ∈ Method.guarded endpoint.methods)
    (asked : request.inquiry host.parse = .document doc) :
    endpoint.call host method request = (do
      let outcome ← ((policy.rule none request.vars).check schema doc).attempt
      return (CallOutcome.ofCheck request outcome, endpoint.spent)) := by
  have contained : (Method.guarded endpoint.methods).contains method = true := by simpa using guarded
  simp only [call, contained, if_true, objections, asked, screen, known, Configuration.check, valid,
    bind_assoc, pure_bind]
  congr 1
  funext outcome
  cases outcome with
  | error fault => rfl
  | ok progress =>
    obtain ⟨highest, violation⟩ := progress
    cases violation <;> rfl

/-- Nothing can be checked with a configuration that is refused. -/
theorem call_refused {e : SetupError} (known : endpoint.schema = some schema)
    (invalid : endpoint.configuration.policy host endpoint.settings = .error e)
    (guarded : method ∈ Method.guarded endpoint.methods)
    (asked : request.inquiry host.parse = .document doc) :
    endpoint.call host method request = return (.failed e, endpoint.spent) := by
  have contained : (Method.guarded endpoint.methods).contains method = true := by simpa using guarded
  simp only [call, contained, if_true, objections, asked, screen, known, Configuration.check, invalid,
    pure_bind]
  rfl

end Calls

/-- Calls one after the other, each to the endpoint that the one before has left. -/
def callAll (host : Host σ) :
    Endpoint σ → List (Method × Request) → Run σ (List CallOutcome × Endpoint σ)
  | endpoint, [] => return ([], endpoint)
  | endpoint, (method, request) :: rest => do
    let (outcome, after) ← endpoint.call host method request
    let (outcomes, last) ← callAll host after rest
    return (outcome :: outcomes, last)

/-- An endpoint whose configuration was read stays as it is. -/
theorem call_spent (spent : endpoint.spent = endpoint) (method : Method) (request : Request) :
    endpoint.call host method request = (do
      return ((← endpoint.call host method request).1, endpoint)) := by
  unfold call
  cases (Method.guarded endpoint.methods).contains method with
  | false => rfl
  | true =>
    unfold objections
    cases request.inquiry host.parse with
    | document doc =>
      simp only [if_true, bind_assoc, pure_bind, spent]
      congr 1
      funext found
      rcases found with e | _ | ⟨first, rest⟩ <;> rfl
    | _ => rfl

theorem callAll_spent (spent : endpoint.spent = endpoint) (calls : List (Method × Request)) :
    endpoint.callAll host calls = (do return ((← endpoint.callAll host calls).1, endpoint)) := by
  induction calls with
  | nil => rfl
  | cons first rest ih =>
    obtain ⟨method, request⟩ := first
    rw [callAll, call_spent spent]
    simp only [bind_assoc, pure_bind]
    congr 1
    funext result
    rw [ih]
    simp only [bind_assoc, pure_bind]

variable {c : Configuration σ} {settings : Settings} {policy : Policy σ}

theorem make_of_effective (effective : c.effective host settings = .ok policy) (methods : List Method)
    (schema : Schema) :
    make host methods schema c settings = .ok ⟨methods, some schema, c.spent, settings⟩ := by
  unfold make
  rw [Configuration.policy_iff.mpr effective]
  rfl

theorem effective_of_make {methods : List Method} {schema : Schema}
    (made : make host methods schema c settings = .ok endpoint) :
    ∃ policy, c.effective host settings = .ok policy := by
  obtain ⟨policy, valid, -⟩ := except_bind_success made
  exact ⟨policy, Configuration.policy_iff.mp valid⟩

end Endpoint

namespace Pipeline

variable {host : Host σ} {pipeline : Pipeline σ} {v : Validator σ} {text : String} {doc : Document}
  {vars : Entries} {rule : Rule σ}

/-- A request that gets one validator is validated in a pass with its rule. -/
theorem handle_single (own : pipeline.validators host = [v]) (made : v.rule vars = .ok rule)
    (parsed : host.parse text = some doc) :
    pipeline.handle host text vars = (do
      let outcome ← Pass.run pipeline.schema (host.report pipeline.schema doc) [rule]
      return ⟨outcome.violations.map .excess,
        ([v].zip outcome.completed).filterMap fun (v, cost) => if v.notifies then cost else none⟩) := by
  simp [handle, own, made, parsed, Except.toOption]

theorem objections_handle_single (own : pipeline.validators host = [v])
    (made : v.rule vars = .ok rule) (parsed : host.parse text = some doc)
    (room : (host.report pipeline.schema doc).LeavesRoom) :
    (·.objections) <$> pipeline.handle host text vars = (do
      let progress ← rule.check pipeline.schema doc
      return progress.violation.toList.map .excess) := by
  have reported : (·.violations) <$> Pass.run pipeline.schema (host.report pipeline.schema doc) [rule] =
      _ := Pass.run_violations room
  have listed := congrArg (List.map Objection.excess <$> ·) reported
  simp only [map_eq_pure_bind, bind_assoc, pure_bind] at listed
  rw [handle_single own made parsed]
  simpa only [map_bind, map_pure] using listed

/-- One of the extensions is a validator: this one, a copy of it, or one that is made like it from nothing. -/
def ValidatesBy (host : Host σ) (pipeline : Pipeline σ) (v : Validator σ) : Prop :=
  ∃ before e after, pipeline.extensions = before ++ e :: after ∧
    (∀ other ∈ before ++ after, other.isValidator = false) ∧
    (e = .shared v ∨ e = .copied v ∨ e = .fresh ∧ Validator.configure host .blank false = .ok v)

theorem filterMap_validator? {extensions : List (Extension σ)}
    (unrelated : ∀ e ∈ extensions, e.isValidator = false) :
    extensions.filterMap (·.validator? host) = [] := by
  rw [List.filterMap_eq_nil_iff]
  intro e member
  have other := unrelated e member
  cases e with
  | unrelated => rfl
  | _ => cases other

/-- Whichever it is, requests get the validator. -/
theorem ValidatesBy.validators (single : pipeline.ValidatesBy host v) (copied : v.copy host = .ok v) :
    pipeline.validators host = [v] := by
  obtain ⟨before, e, after, extensions, unrelated, own⟩ := single
  rw [List.forall_mem_append] at unrelated
  have given : e.validator? host = some v := by
    rcases own with rfl | rfl | ⟨rfl, standard⟩
    · rfl
    · rw [Extension.validator?, copied]
      rfl
    · rw [Extension.validator?, standard]
      rfl
  rw [Pipeline.validators, extensions, List.filterMap_append, List.filterMap_cons, given,
    filterMap_validator? unrelated.1, filterMap_validator? unrelated.2]
  rfl

/-- Where no extension is a validator, a pipeline gets one of its own. -/
theorem make_own {c : Configuration σ} {settings : Settings}
    (made : Validator.make host c settings false = .ok v) (schema : Schema)
    {extensions : List (Extension σ)} (unrelated : ∀ e ∈ extensions, e.isValidator = false) :
    ∃ pipeline, make host schema extensions c settings = .ok pipeline ∧ pipeline.schema = schema ∧
      pipeline.ValidatesBy host v := by
  have none : extensions.any (·.isValidator) = false := by simpa using unrelated
  refine ⟨⟨schema, .copied v :: extensions, c⟩, ?_, rfl,
    ⟨[], _, extensions, rfl, unrelated, .inr (.inl rfl)⟩⟩
  unfold make
  rw [none, if_neg Bool.false_ne_true, made]
  rfl

end Pipeline

/-- All services decide alike, for any estimators. A configuration passes in all of them or in none, and it
passes exactly if the values in effect make a policy. With this policy, for every document and all variables:
if the estimators can be read again, a guarded method is reached, rejected or failed as the check by the
policy's rule ends, and a rule that reads the configuration of its schema decides the same. A validator makes
this very rule, and so does a copy of a copy, and a pipeline with such a validator objects to what a pass with
the rule reports, which is what the rule reports on its own if the flaws of the document leave room for it. A
pipeline that is given no validator gets one of this kind. Whatever an endpoint is called for, it stays as it
was made; if it was made with a stream of estimators, all that it is asked to check fails for want of any. -/
theorem services_decide_alike (host : Host σ) (c : Configuration σ) (settings : Settings) :
    (∀ methods schema, (∃ endpoint, Endpoint.make host methods schema c settings = .ok endpoint) ↔
      ∃ policy, c.effective host settings = .ok policy) ∧
    (∀ notifies, (∃ v, Validator.make host c settings notifies = .ok v) ↔
      ∃ policy, c.effective host settings = .ok policy) ∧
    ∀ policy, c.effective host settings = .ok policy →
      (∀ methods schema endpoint, Endpoint.make host methods schema c settings = .ok endpoint →
        (∀ calls, endpoint.callAll host calls = (do
          return ((← endpoint.callAll host calls).1, endpoint))) ∧
        ∀ method ∈ Method.guarded methods, ∀ request doc vars, request.wantsCheck = true →
          request.Asks host.parse doc → request.Sends vars →
          (c.Rereadable → endpoint.call host method request = (do
            let outcome ← ((policy.rule none vars).check schema doc).attempt
            return (CallOutcome.ofCheck request outcome, endpoint))) ∧
          ∀ chain, c.estimators = some (.stream chain) →
            endpoint.call host method request = return (.failed .noEstimators, endpoint)) ∧
      (∀ notifies k, ∃ v, (Validator.make host c settings notifies >>= Validator.copies host k) = .ok v ∧
        (∀ vars, v.rule vars = .ok (policy.rule none vars)) ∧
        ∀ pipeline : Pipeline σ, pipeline.ValidatesBy host v → ∀ text doc vars,
          host.parse text = some doc →
          (·.objections) <$> pipeline.handle host text vars = (do
            let outcome ← Pass.run pipeline.schema (host.report pipeline.schema doc)
              [policy.rule none vars]
            return outcome.violations.map .excess) ∧
          ((host.report pipeline.schema doc).LeavesRoom →
            (·.objections) <$> pipeline.handle host text vars = (do
              let progress ← (policy.rule none vars).check pipeline.schema doc
              return progress.violation.toList.map .excess))) ∧
      (∀ schema extensions, (∀ e ∈ extensions, e.isValidator = false) →
        ∃ v pipeline, Validator.make host c settings false = .ok v ∧
          Pipeline.make host schema extensions c settings = .ok pipeline ∧ pipeline.schema = schema ∧
          pipeline.ValidatesBy host v) ∧
      (c.Rereadable → c.spent = c) ∧
      ∀ schema doc vars, c.check host settings schema doc vars = (do
        return (← ((policy.rule none vars).check schema doc).attempt).mapError .fault) := by
  refine ⟨?_, ?_, ?_⟩
  · intro methods schema
    constructor
    · rintro ⟨endpoint, made⟩
      exact Endpoint.effective_of_make made
    · rintro ⟨policy, effective⟩
      exact ⟨_, Endpoint.make_of_effective effective methods schema⟩
  · intro notifies
    constructor
    · rintro ⟨v, made⟩
      exact ⟨v.policy, (Validator.make_iff.mp made).1⟩
    · rintro ⟨policy, effective⟩
      exact ⟨⟨policy, notifies⟩, Validator.make_iff.mpr ⟨effective, rfl⟩⟩
  intro policy effective
  have made : ∀ notifies, Validator.make host c settings notifies = .ok ⟨policy, notifies⟩ :=
    fun notifies => Validator.make_iff.mpr ⟨effective, rfl⟩
  refine ⟨?_, ?_, ?_, Configuration.Rereadable.spent_eq, Configuration.check_of_effective effective⟩
  · intro methods schema endpoint valid
    rw [Endpoint.make_of_effective effective] at valid
    obtain rfl := Except.ok.inj valid
    have spent : Endpoint.spent ⟨methods, some schema, c.spent, settings⟩ =
        ⟨methods, some schema, c.spent, settings⟩ :=
      congrArg (Endpoint.mk methods (some schema) · settings) c.spent_spent
    refine ⟨Endpoint.callAll_spent spent, ?_⟩
    intro method guarded request doc vars wanted asks sends
    rw [← sends.vars_eq]
    constructor
    · intro rereadable
      have read : c.spent.policy host settings = .ok policy := by
        rw [rereadable.spent_eq, Configuration.policy_iff.mpr effective]
      rw [Endpoint.call_checked rfl read guarded (asks.inquiry_eq wanted), spent]
    · intro chain stream
      have refused := Configuration.policy_spent_stream stream effective
      rw [Endpoint.call_refused rfl refused guarded (asks.inquiry_eq wanted), spent]
  · intro notifies k
    have valid : Policy.make _ _ _ = .ok (Validator.mk policy notifies).policy := effective
    refine ⟨⟨policy, notifies⟩, ?_, Validator.rule_of_made valid, ?_⟩
    · rw [made]
      exact Validator.copies_of_made valid k
    · intro pipeline single text doc vars parsed
      have own := single.validators (Validator.copy_of_made valid)
      have rule := Validator.rule_of_made valid vars
      refine ⟨?_, Pipeline.objections_handle_single own rule parsed⟩
      rw [Pipeline.handle_single own rule parsed, map_bind]
      rfl
  · intro schema extensions unrelated
    obtain ⟨pipeline, found⟩ := Pipeline.make_own (made false) schema unrelated
    exact ⟨_, pipeline, made false, found⟩

/-- A host that takes every text for the same document. -/
def Host.always (doc : Document) : Host Memory := { Host.standard none with parse := fun _ => some doc }

/-- The maximum is given, and the node limit is left to the site. -/
def Configuration.lenient : Configuration Memory :=
  ⟨some (.sequence [.constant .null]), some (.int 7), none⟩

def Settings.cautious : Settings := ⟨some (.int 3), some (.int 1)⟩

def Document.twoFields : Document := ⟨[.operation (Rule.repeated .query 1 2)]⟩

/-- Two fields are one too many, for an endpoint and for a pipeline with the copy of a copy. -/
theorem services_decide_alike_lenient :
    Configuration.lenient.effective (.always .twoFields) .cautious =
      .ok ⟨[.constant .null], ⟨.int 7, 1⟩⟩ ∧
    (∃ endpoint, Endpoint.make (.always .twoFields) [.execute] Rule.queryOnly .lenient .cautious =
        .ok endpoint ∧
      ((endpoint.call (.always .twoFields) .execute ⟨[.value (.str "{ a a }")], []⟩).exec .fresh).1 =
        .ok (.rejected [.excess ⟨.nodes 1 2, ⟨1, 1⟩⟩], endpoint)) ∧
    ∃ v, (Validator.make (.always .twoFields) .lenient .cautious true >>=
        Validator.copies (.always .twoFields) 2) = .ok v ∧
      ((·.objections) <$> Pipeline.handle (.always .twoFields)
        ⟨Rule.queryOnly, [.unrelated, .copied v], .blank⟩ "{ a a }" []).Returns
          [.excess ⟨.nodes 1 2, ⟨1, 1⟩⟩] := by
  have effective : Configuration.lenient.effective (.always .twoFields) .cautious =
      .ok ⟨[.constant .null], ⟨.int 7, 1⟩⟩ :=
    Policy.make_iff.mpr ⟨rfl, Limits.make_of_positive (by decide +kernel) (by decide +kernel)
      (by decide) (by decide)⟩
  obtain ⟨passes, -, alike⟩ := services_decide_alike (.always .twoFields) .lenient .cautious
  obtain ⟨calls, validators, -, -⟩ := alike _ effective
  refine ⟨effective, ?_, ?_⟩
  · obtain ⟨endpoint, made⟩ := (passes [.execute] Rule.queryOnly).mpr ⟨_, effective⟩
    have called := (calls _ _ endpoint made).2 .execute (by decide) ⟨[.value (.str "{ a a }")], []⟩ _ _
      rfl (.text rfl (by decide) rfl) (.nothing rfl rfl)
    refine ⟨endpoint, made, ?_⟩
    rw [called.1 fun chain => by rintro ⟨⟩]
    rfl
  · obtain ⟨v, copied, -, validates⟩ := validators true 2
    have single : Pipeline.ValidatesBy (.always .twoFields)
        ⟨Rule.queryOnly, [.unrelated, .copied v], .blank⟩ v :=
      ⟨[.unrelated], _, [], rfl, List.forall_mem_singleton.mpr rfl, .inr (.inl rfl)⟩
    have room : (Document.report Rule.queryOnly .twoFields).LeavesRoom := by
      unfold Report.LeavesRoom
      decide
    have handled := (validates _ single "{ a a }" _ [] rfl).2 room
    refine ⟨v, copied, ?_⟩
    rw [handled]
    exact fun s => ⟨_, rfl⟩

/-- Five hundred for every field, from estimators that can be read once. -/
def Configuration.fleeting : Configuration Memory :=
  ⟨some (.stream [.constant (.int 500)]), some (.int 300), none⟩

/-- More fields that the schema does not have than a pass takes errors, and then one that it has. -/
def Document.crowded : Document :=
  ⟨[.operation ⟨.query, some "A", [], [], List.replicate 101 (.field ⟨none, "x", [], []⟩ []), ⟨1, 1⟩⟩,
    .operation ⟨.query, some "B", [], [], [.field ⟨none, "a", [], []⟩ []], ⟨2, 1⟩⟩]⟩

/-- The second operation is beyond the maximum. So says the rule of a validator on its own. An endpoint, though
it was made, has no estimators left and fails; and a pipeline with the validator reports nothing, since the
pass is given up before it comes to the operation. -/
theorem services_differ :
    ∃ v, Validator.make (.always .crowded) .fleeting .empty false = .ok v ∧
      (∃ rule, v.rule [] = .ok rule ∧
        ((rule.check Rule.queryOnly .crowded).exec .fresh).1.map (·.violation) =
          .ok (some ⟨.cost (.int 300) (.int 500), ⟨2, 1⟩⟩)) ∧
      (∃ endpoint, Endpoint.make (.always .crowded) [.execute] Rule.queryOnly .fleeting .empty =
          .ok endpoint ∧
        ((endpoint.call (.always .crowded) .execute ⟨[.document .crowded], []⟩).exec .fresh).1 =
          .ok (.failed .noEstimators, endpoint)) ∧
      ((Pipeline.handle (.always .crowded) ⟨Rule.queryOnly, [.shared v], .blank⟩ "..." []).exec
        .fresh).1.map (·.objections.length) = .ok 0 := by
  have effective : Configuration.fleeting.effective (.always .crowded) .empty =
      .ok ⟨[.constant (.int 500)], ⟨.int 300, 10000⟩⟩ :=
    Policy.make_iff.mpr ⟨rfl, Limits.make_of_positive (by decide +kernel) (by decide +kernel)
      (by decide) (by decide)⟩
  let v : Validator Memory := ⟨⟨[.constant (.int 500)], ⟨.int 300, 10000⟩⟩, false⟩
  have valid : Policy.make _ _ _ = .ok v.policy := effective
  refine ⟨v, Validator.make_iff.mpr ⟨effective, rfl⟩, ⟨_, Validator.rule_of_made valid [], ?_⟩,
    ⟨_, Endpoint.make_of_effective effective _ _, ?_⟩, ?_⟩
  · decide +kernel
  · have refused := Configuration.policy_spent_stream rfl effective
    rw [Endpoint.call_refused rfl refused (by decide) rfl]
    rfl
  · have own : Pipeline.validators (.always .crowded) ⟨Rule.queryOnly, [.shared v], .blank⟩ = [v] := rfl
    rw [Pipeline.handle_single own (Validator.rule_of_made valid []) rfl]
    decide +kernel

end QueryCost
