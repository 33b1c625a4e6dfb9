import Relay.Dict
import Relay.Dict.Lemmas
import Relay.Text.Blank
import Relay.Text.Hex
import Relay.Number.Binary64
import Relay.Number.Literal
import Relay.Number.Shortest
import Relay.Uuid
import Relay.Trace.Parent
import Relay.Message
import Relay.Cancellation
import Relay.Cancellation.Lemmas
import Relay.Context
import Relay.Span
import Relay.Propagation
import Relay.Context.Run
import Relay.Error.Refusal
import Relay.Error.Basic
import Relay.Error.Taxonomy
import Relay.Json.Value
import Relay.Json.Scan
import Relay.Json.Numeral
import Relay.Json.Read
import Relay.Json.Write
import Relay.Payload
import Relay.Retry.Policy
import Relay.Config.Basic
import Relay.Setting.Basic
import Relay.Setting.Path
import Relay.Setting.Plain
import Relay.Setting.Outline
import Relay.Setting.Layer
import Relay.Config.Load
import Relay.Exchange.Basic
import Relay.Exchange.Run
import Relay.Pipeline.Handler
import Relay.Pipeline.Script
import Relay.Pipeline.Stage
import Relay.Journal
import Relay.World
import Relay.Pipeline.Call
import Relay.Router.Registration
import Relay.Router.Task
import Relay.Router.Step
import Relay.Broker
import Relay.Schedule
import Relay.Session
import Relay.Proofs.Number.Rounding
import Relay.Proofs.Number.Whole
import Relay.Proofs.Isolation.Identifiers
import Relay.Proofs.Trace.Grammar
import Relay.Proofs.Trace.RoundTrip
import Relay.Proofs.Error.Wrapping
import Relay.Proofs.Error.Classification
import Relay.Proofs.Causal.Fields
import Relay.Proofs.Causal.Transfer
import Relay.Proofs.Exchange.Queues
import Relay.Proofs.Exchange.Origin
import Relay.Proofs.Exchange.Changes
import Relay.Proofs.Exchange.Listing
import Relay.Proofs.Exchange.Fanout
import Relay.Proofs.Exchange.Prefixes
import Relay.Proofs.Exchange.Streams
import Relay.Proofs.Exchange.Backpressure
import Relay.Proofs.Exchange.Closing
import Relay.Proofs.Exchange.Pruning
import Relay.Proofs.Exchange.Registry
import Relay.Proofs.Call.Moves
import Relay.Proofs.Call.Place
import Relay.Proofs.Cancellation.Lineage
import Relay.Proofs.Cancellation.Scope
import Relay.Proofs.History
import Relay.Proofs.Router.Moves
import Relay.Proofs.Router.Steps
import Relay.Proofs.Router.Frames
import Relay.Proofs.Router.Supply
import Relay.Proofs.Router.Course
import Relay.Proofs.Router.Supervisor
import Relay.Proofs.Router.Settled
import Relay.Proofs.Router.Delivery
import Relay.Proofs.Router.Reception
import Relay.Proofs.Router.Lifecycle
import Relay.Proofs.Router.Failures
import Relay.Proofs.Broker.Chain
import Relay.Proofs.Broker.Enrolment
import Relay.Proofs.Broker.Registry
import Relay.Proofs.Broker.Dealings
import Relay.Proofs.Broker.Accounts
import Relay.Proofs.Broker.Shutdown
import Relay.Proofs.Broker.Aborts
import Relay.Proofs.Retry.Backoff
import Relay.Proofs.Retry.Loop
import Relay.Proofs.Retry.Runs
import Relay.Proofs.Retry.Course
import Relay.Proofs.Retry.Rounds
import Relay.Proofs.Causal.Hops
import Relay.Proofs.Causal.Detached
import Relay.Proofs.Causal.Identity
import Relay.Proofs.Causal.Attempts
import Relay.Proofs.Causal.Ledger
import Relay.Proofs.Survival.Peace
import Relay.Proofs.Survival.Attempts
import Relay.Proofs.Survival.Unwinding
import Relay.Proofs.Isolation.Still
import Relay.Proofs.Isolation.Veil
import Relay.Proofs.Isolation.Blind
import Relay.Proofs.Isolation.Flight
import Relay.Proofs.Isolation.Posting
import Relay.Proofs.Isolation.Onward
import Relay.Proofs.Isolation.Solo
import Relay.Proofs.Isolation.Tidy
import Relay.Proofs.Isolation.Bypass
import Relay.Proofs.Isolation.Sight
import Relay.Proofs.Isolation.Follow
import Relay.Proofs.Isolation.TwoRuns
import Relay.Proofs.Poison.Surroundings
import Relay.Proofs.Poison.Sitting
import Relay.Proofs.Poison.Refusal
import Relay.Proofs.Poison.Accord
import Relay.Proofs.Poison.Deliveries
import Relay.Proofs.Poison.Harmless
