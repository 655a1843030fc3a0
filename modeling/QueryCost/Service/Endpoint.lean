import QueryCost.Service.Configuration

/-!
# Endpoints

An endpoint has methods that execute queries. Some of them are guarded: the query is checked first, and
the method is reached only if nothing speaks against it. A call may ask not to be checked. Each check
reads the configuration of the endpoint.
-/
namespace QueryCost

variable {σ : Type}

inductive Method where
  | execute
  | executeSync
  | executeAsync
  | subscribe
  deriving DecidableEq, Repr

/-- The methods that are guarded among those an endpoint has. With a synchronous method the plain one
is its counterpart, and an asynchronous one is left alone. -/
def Method.guarded (defined : List Method) : List Method :=
  let candidates := if defined.contains executeSync then [executeSync, execute, subscribe]
    else [execute, executeAsync, subscribe]
  candidates.filter defined.contains

/-- What a call may carry. -/
inductive Argument where
  | value (v : Value)
  | document (doc : Document)

def Argument.truthy : Argument → Bool
  | value v => v.truthy
  | document _ => true

structure Request where
  positional : List Argument
  named : List (String × Argument)

/-- What there is to check in a request. -/
inductive Inquiry where
  /-- Nothing: no check is asked for, or the query is missing or empty and left to the method. -/
  | nothing
  | document (doc : Document)
  /-- The text is not a document. -/
  | malformed
  /-- The query is neither a text nor a document. -/
  | misfit

namespace Request

def named? (request : Request) (name : String) : Option Argument :=
  (request.named.find? (·.1 == name)).map (·.2)

def without (request : Request) (name : String) : Request :=
  { request with named := request.named.filter (·.1 != name) }

/-- Name of the argument by which a call asks whether to be checked. -/
def checkKey : String := "check_complexity"

/-- A call is checked unless it says otherwise. -/
def wantsCheck (request : Request) : Bool :=
  match request.named? checkKey with
  | some arg => arg.truthy
  | none => true

/-- The query of a call: named as such, named as the source, or the first argument. -/
def query? (request : Request) : Option Argument :=
  match request.named? "query" with
  | some arg => some arg
  | none => match request.named? "source" with
    | some arg => some arg
    | none => request.positional.head?

/-- The variables of a call; other values than mappings count as none. -/
def vars (request : Request) : Entries :=
  let given := match request.named? "variable_values" with
    | some arg => some arg
    | none => request.named? "variables"
  match given with
  | some (.value (.map entries)) => entries
  | _ => []

def inquiry (parse : String → Option Document) (request : Request) : Inquiry :=
  if !request.wantsCheck then .nothing
  else match request.query? with
    | none => .nothing
    | some query =>
      if !query.truthy then .nothing
      else match query with
        | .document doc => .document doc
        | .value (.str text) => (parse text).elim .malformed .document
        | .value _ => .misfit

end Request

/-- What speaks against a query. -/
inductive Objection where
  /-- The text is not a document. -/
  | malformed
  | excess (v : Violation)

/-- A schema that checks the queries it is given to execute (`SchemaMixin`). -/
structure Endpoint (σ : Type) where
  methods : List Method
  /-- The schema that queries are checked against; without one no query can be checked. -/
  schema : Option Schema
  configuration : Configuration σ
  settings : Settings

inductive CallOutcome where
  | reached (request : Request)
  | rejected (objections : List Objection)
  | failed (e : SetupError)

namespace Endpoint

/-- An endpoint whose configuration is checked at once and not with the first query. -/
def make (host : Host σ) (methods : List Method) (schema : Schema) (c : Configuration σ)
    (settings : Settings) : Except SetupError (Endpoint σ) := do
  let _ ← c.policy host settings
  return ⟨methods, some schema, c.spent, settings⟩

/-- The endpoint after its configuration was read. -/
def spent (endpoint : Endpoint σ) : Endpoint σ :=
  { endpoint with configuration := endpoint.configuration.spent }

/-- Check a document with the variables of a call. -/
def screen (host : Host σ) (endpoint : Endpoint σ) (doc : Document) (vars : Entries) :
    Run σ (Except SetupError (List Objection)) :=
  match endpoint.schema with
  | some schema => do
    let checked ← endpoint.configuration.check host endpoint.settings schema doc vars
    return checked.map fun progress => (progress.violation.map Objection.excess).toList
  | none => return do
    let _ ← endpoint.configuration.policy host endpoint.settings
    throw (.fault .typeMismatch)

/-- What speaks against a request, and the endpoint after the request was looked at. -/
def objections (host : Host σ) (endpoint : Endpoint σ) (request : Request) :
    Run σ (Except SetupError (List Objection) × Endpoint σ) :=
  match request.inquiry host.parse with
  | .nothing => return (.ok [], endpoint)
  | .document doc => do return (← endpoint.screen host doc request.vars, endpoint.spent)
  | .malformed => return (.ok [.malformed], endpoint)
  | .misfit => return (.error (.fault .typeMismatch), endpoint)

/-- Call a method. A guarded one (`decorate_complexity`) does not see whether a check was asked for. -/
def call (host : Host σ) (endpoint : Endpoint σ) (method : Method) (request : Request) :
    Run σ (CallOutcome × Endpoint σ) := do
  if (Method.guarded endpoint.methods).contains method then
    let (found, after) ← endpoint.objections host request
    match found with
    | .error e => return (.failed e, after)
    | .ok [] => return (.reached (request.without Request.checkKey), after)
    | .ok objections => return (.rejected objections, after)
  else return (.reached request, endpoint)

end Endpoint

end QueryCost
