import QueryCost.Service.Endpoint

/-!
# Execution of accepted requests

Of an execution only this much is known: its arguments have to fit the parameters, and a query that is
not a document is objected to.
-/
namespace QueryCost

namespace Execution

/-- Parameters in order; the first one is required. -/
def parameters : List String :=
  ["source", "root_value", "context_value", "variable_values", "operation_name", "field_resolver",
    "type_resolver", "middleware", "execution_context_class"]

/-- Other names for some parameters. -/
def synonyms : List (String × String) :=
  [("root", "root_value"), ("context", "context_value"), ("variables", "variable_values"),
    ("operation", "operation_name")]

/-- Replace a synonym unless the parameter itself is named too. -/
def parameterName (request : Request) (name : String) : String :=
  match synonyms.find? (·.1 == name) with
  | some (_, parameter) => if (request.named? parameter).isSome then name else parameter
  | none => name

/-- The query that is executed, if the arguments fit the parameters. -/
def source? (request : Request) : Option Argument :=
  let filled := parameters.take request.positional.length
  let names := request.named.map fun e => parameterName request e.1
  if request.positional.length ≤ parameters.length
      && names.all (fun name => parameters.contains name && !filled.contains name) then
    match request.positional with
    | arg :: _ => some arg
    | [] => request.named? "source"
  else none

/-- What an execution objects to. -/
def objections (parse : String → Option Document) (request : Request) :
    Except Fault (List Objection) :=
  match source? request with
  | some (.value (.str text)) => .ok (if (parse text).isSome then [] else [.malformed])
  | _ => .error .typeMismatch

end Execution

/-- Call a method that executes what reaches it. -/
def Endpoint.serve {σ : Type} (host : Host σ) (endpoint : Endpoint σ) (method : Method)
    (request : Request) : Run σ (Except SetupError (List Objection) × Endpoint σ) := do
  let (outcome, after) ← endpoint.call host method request
  match outcome with
  | .failed e => return (.error e, after)
  | .rejected objections => return (.ok objections, after)
  | .reached request => return ((Execution.objections host.parse request).mapError .fault, after)

end QueryCost
