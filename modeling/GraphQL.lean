import GraphQL.Json.Text
import GraphQL.Json.Written
import GraphQL.Record
import GraphQL.Request
import GraphQL.Schema.Build
import GraphQL.Schema.Description
import GraphQL.Proofs.Execution.Trace
import GraphQL.Proofs.Execution.Tracing
import GraphQL.Proofs.Execution.Simulation
import GraphQL.Proofs.Execution.Fitting
import GraphQL.Proofs.Execution.Grouping
import GraphQL.Proofs.Execution.Response
import GraphQL.Proofs.Execution.Conformance
import GraphQL.Proofs.Execution.ErrorLog
import GraphQL.Proofs.Document.Nesting
import GraphQL.Proofs.Document.Inlining
import GraphQL.Proofs.Execution.Congruence
import GraphQL.Proofs.Execution.Termination
import GraphQL.Proofs.Execution.NullPropagation
import GraphQL.Proofs.Execution.Expansion
import GraphQL.Proofs.Execution.FragmentInlining
import GraphQL.Proofs.Execution.Serial
import GraphQL.Proofs.Execution.Isolation
import GraphQL.Proofs.Introspection.Listing
import GraphQL.Proofs.Introspection.Closure
import GraphQL.Proofs.Introspection.Disclosure
import GraphQL.Proofs.Introspection.Safety
import GraphQL.Proofs.Introspection.Faithfulness
import GraphQL.Proofs.Schema.WellFormed
import GraphQL.Proofs.Input.Agreement
import GraphQL.Proofs.Input.EnumNames
import GraphQL.Proofs.Execution.Refusal
import GraphQL.Proofs.Execution.Configuration
import GraphQL.Proofs.Execution.Exactness
import GraphQL.Proofs.Execution.Relevance
import GraphQL.Proofs.Execution.Skipping
import GraphQL.Proofs.Response.RoundTrip
import GraphQL.Proofs.Execution.TypeConditions
import GraphQL.Proofs.Schema.BuiltInNames
import GraphQL.Proofs.Input.Defaults
import GraphQL.Proofs.Execution.Substitution
import GraphQL.Proofs.Execution.Absence
import GraphQL.Proofs.Input.Variations
import GraphQL.Proofs.Execution.Settled
import GraphQL.Proofs.Execution.FieldMerging
import GraphQL.Proofs.Execution.FieldOrder
import GraphQL.Proofs.Json.Values
import GraphQL.Proofs.Json.Kept
import GraphQL.Proofs.Request.RoundTrip
import GraphQL.Proofs.Input.Integers
