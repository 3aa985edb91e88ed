import ExchangePipeline.Chain.Description
import ExchangePipeline.Codec.Records
import ExchangePipeline.Json.Printer
import ExchangePipeline.LogFilter
import ExchangePipeline.Pattern.Reader
import ExchangePipeline.Script
import ExchangePipeline.Session.Perform
import ExchangePipeline.Proofs.Chain.OnePhase
import ExchangePipeline.Proofs.Chain.Resolution
import ExchangePipeline.Proofs.Tree.Changes
import ExchangePipeline.Proofs.Deployment.Contributions
import ExchangePipeline.Proofs.Deployment.Steps
import ExchangePipeline.Proofs.Keeping
import ExchangePipeline.Proofs.Deployment.Coherence
import ExchangePipeline.Proofs.Session.Moves
import ExchangePipeline.Proofs.Session.Advancing
import ExchangePipeline.Proofs.Session.Reachable
import ExchangePipeline.Proofs.Tree.Growth
import ExchangePipeline.Proofs.Tree.Locks
import ExchangePipeline.Proofs.Session.Refusals
import ExchangePipeline.Proofs.Session.Hosting
import ExchangePipeline.Proofs.Walk.Pauses
import ExchangePipeline.Proofs.Chain.Cycles
import ExchangePipeline.Proofs.Walk.Turns
import ExchangePipeline.Proofs.Walk.States
import ExchangePipeline.Proofs.Session.StateMachine
import ExchangePipeline.Proofs.Walk.FaultRecord
import ExchangePipeline.Proofs.Session.FaultRecord
import ExchangePipeline.Proofs.Walk.Cancellation
import ExchangePipeline.Proofs.Session.Cancellation
import ExchangePipeline.Proofs.Deployment.Readiness
import ExchangePipeline.Proofs.Session.Setups
import ExchangePipeline.Proofs.Session.Bootstrap
import ExchangePipeline.Proofs.Session.Invalidation
import ExchangePipeline.Proofs.Mirroring
import ExchangePipeline.Proofs.Session.Requests
import ExchangePipeline.Proofs.Session.Settling
import ExchangePipeline.Proofs.Session.Permits
import ExchangePipeline.Proofs.Session.Accounts
import ExchangePipeline.Proofs.Session.Past
import ExchangePipeline.Proofs.Session.Pipeline
import ExchangePipeline.Proofs.Deployment.Extension
import ExchangePipeline.Proofs.Session.Histories
import ExchangePipeline.Proofs.Session.Telling
import ExchangePipeline.Proofs.Session.Generations
import ExchangePipeline.Proofs.Session.Independence
import ExchangePipeline.Proofs.Json.Texts
import ExchangePipeline.Proofs.Codec.RoundTrips
import ExchangePipeline.Proofs.Chain.LeastOrder
import ExchangePipeline.Proofs.Chain.Comparison
import ExchangePipeline.Proofs.Deployment.Engagements
import ExchangePipeline.Proofs.Session.Engagements
import ExchangePipeline.Proofs.Tree.Definitions
import ExchangePipeline.Proofs.Session.Parameters
import ExchangePipeline.Proofs.Chain.LateHandler
import ExchangePipeline.Proofs.Session.LateHandler
import ExchangePipeline.Proofs.Session.Failures
import ExchangePipeline.Proofs.Walk.Sequel
import ExchangePipeline.Proofs.Session.Steering
import ExchangePipeline.Proofs.Tree.Commuting
import ExchangePipeline.Proofs.Chain.CycleReports
import ExchangePipeline.Proofs.Session.Shutdown
import ExchangePipeline.Proofs.Json.Intact
import ExchangePipeline.Proofs.Json.Tidying
import ExchangePipeline.Proofs.Codec.Overlays
import ExchangePipeline.Proofs.Chain.Counters
import ExchangePipeline.Proofs.Tree.Arena
import ExchangePipeline.Proofs.Deployment.Bookkeeping
import ExchangePipeline.Proofs.Session.Bookkeeping
