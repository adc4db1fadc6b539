import Upkeep.Host.Detect
import Upkeep.Main
import Upkeep.Pool.Drill
import Upkeep.Proofs.Pool.Loops
import Upkeep.Proofs.Service.Run
import Upkeep.Proofs.Store.Ledger
import Upkeep.Service.Run
import Upkeep.Proofs.Pool.Turn
import Upkeep.Proofs.Service.Chronicle
import Upkeep.Proofs.Service.Recount
import Upkeep.Proofs.Service.Commands
import Upkeep.Proofs.Service.Slot
import Upkeep.Proofs.Service.Accepted
import Upkeep.Proofs.Pool.Conservation
import Upkeep.Proofs.Pool.Scheduling
import Upkeep.Proofs.Service.Gates
import Upkeep.Proofs.Service.Interleaving
import Upkeep.Proofs.Service.Holding
import Upkeep.Proofs.Service.Exclusion
import Upkeep.Proofs.RateLimit.Tracking
import Upkeep.Proofs.RateLimit.Window
import Upkeep.Proofs.Pool.Shutdown
import Upkeep.Proofs.Sanction
import Upkeep.Proofs.Service.Frame
import Upkeep.Proofs.Service.Deadline
import Upkeep.Proofs.Service.Forward
import Upkeep.Proofs.Json.Text
import Upkeep.Proofs.RateLimit.LoneBucket
import Upkeep.Proofs.Service.Distrust
import Upkeep.Proofs.Service.Lookup
import Upkeep.Proofs.Json.Number
import Upkeep.Proofs.Json.Shape
import Upkeep.Proofs.Request.RoundTrip
import Upkeep.Proofs.RateLimit.Independence
import Upkeep.Proofs.RateLimit.Sweeping
import Upkeep.Proofs.Pool.Cancellation
import Upkeep.Proofs.Store.Finishing
import Upkeep.Proofs.Execution
import Upkeep.Proofs.Pool.Callers
import Upkeep.Proofs.Json.Grammar
import Upkeep.Proofs.Json.Agreement
import Upkeep.Proofs.Json.Spelling
import Upkeep.Proofs.Request.Fields
import Upkeep.Proofs.Store.Retention
import Upkeep.Proofs.Service.Replay
import Upkeep.Proofs.RateLimit.ClientKey
import Upkeep.Proofs.Service.Idleness
import Upkeep.Proofs.RateLimit.Forwarders
import Upkeep.Proofs.Host.OsRelease
import Upkeep.Proofs.Decimal.Dyadic
import Upkeep.Proofs.Decimal.Range
import Upkeep.Proofs.Decimal.Shortest
import Upkeep.Proofs.Startup
import Upkeep.Proofs.Json.Decoding
import Upkeep.Proofs.Json.Decimal
import Upkeep.Proofs.Time.Calendar
import Upkeep.Proofs.Time.Rfc3339
import Upkeep.Proofs.Job.View
import Upkeep.Proofs.Job.Lifecycle
import Upkeep.Proofs.Service.Naming
