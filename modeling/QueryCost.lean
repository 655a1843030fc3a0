import QueryCost.Assessment
import QueryCost.Proofs.Appending
import QueryCost.Proofs.Decided
import QueryCost.Proofs.Introspection
import QueryCost.Proofs.SharedPath
import QueryCost.Schema.Classes
import QueryCost.Service.Execution
import QueryCost.Service.Pipeline
import QueryCost.Proofs.Tariffs
import QueryCost.Proofs.Edits
import QueryCost.Proofs.Insertion
import QueryCost.Proofs.Reordering
import QueryCost.Proofs.Acceptance
import QueryCost.Proofs.Passes
import QueryCost.Proofs.Prediction
import QueryCost.Proofs.Variables
import QueryCost.Proofs.Constants
import QueryCost.Proofs.NodeCount
import QueryCost.Proofs.Services
import QueryCost.Proofs.Conditions
import QueryCost.Proofs.Matching
import QueryCost.Proofs.Pruning
import QueryCost.Proofs.Declining
import QueryCost.Proofs.Turns
import QueryCost.Proofs.CallOrder
import QueryCost.Proofs.Growth
import QueryCost.Proofs.Multipliers
import QueryCost.Proofs.Precedence
import QueryCost.Proofs.Tally
import QueryCost.Declaration.Store
import QueryCost.Proofs.NameCases
import QueryCost.Proofs.ClientNames
import QueryCost.Proofs.WaysToDeclare
import QueryCost.Proofs.Decorating
