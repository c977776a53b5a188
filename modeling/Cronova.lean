import Cronova.Text.Decimal
import Cronova.Text.Trim
import Cronova.Checks
import Cronova.Parser.Dependencies
import Cronova.Parser.Document
import Cronova.Scheduler.System
import Cronova.Scheduler.Progress
import Cronova.Scheduler.Catchup
import Cronova.Scheduler.External
import Cronova.Scheduler.Expansion
import Cronova.Scheduler.Budget
import Cronova.Scheduler.View
import Cronova.Scheduler.Footprint
import Cronova.Scheduler.Conduct.Attempt
import Cronova.Scheduler.Conduct.Creation
import Cronova.Scheduler.Conduct.Operator
import Cronova.Scheduler.Conduct.Run
import Cronova.Scheduler.Conduct.Tick
import Cronova.Scheduler.Exclusion
import Cronova.Scheduler.Serial
import Cronova.Scheduler.Archive
import Cronova.Scheduler.Pausing
import Cronova.Api.Save
import Cronova.Api.Editor
import Cronova.Api.Resave
import Cronova.Scheduler.Snapshots
import Cronova.Store.Timestamps
import Cronova.Store.Prune
import Cronova.Scheduler.Retention
import Cronova.Store.Orphans
import Cronova.Store.Reactivation
import Cronova.Store.Admission
import Cronova.Process.Lockstep
import Cronova.Scheduler.Migration
import Cronova.Process.Reach
import Cronova.Serve.Lease
import Cronova.Worker.Exchange
import Cronova.Worker.Logs
import Cronova.Worker.Output
import Cronova.Worker.Sessions
import Cronova.Worker.Hub
import Cronova.Worker.Routing
import Cronova.Worker.Load
import Cronova.Worker.Console
import Cronova.Blocks
import Cronova.Worker.Adoption
import Cronova.Api.Confinement
import Cronova.Api.Operator
import Cronova.Executor.Idempotent
import Cronova.Executor.Outcome
import Cronova.Secrets.RoundTrip
import Cronova.Api.Forwarded
import Cronova.Api.Throttle
import Cronova.Scheduler.Capacity
import Cronova.Process.Promise
import Cronova.Scheduler.Backlog
import Cronova.Model.Verdict
import Cronova.Scheduler.Propagation
import Cronova.Worklist
import Cronova.Scheduler.Alone
import Cronova.Scheduler.Retry
import Cronova.Scheduler.Priority
import Cronova.Scheduler.Finishing
import Cronova.Scheduler.Limits
import Cronova.Scheduler.Promotion
import Cronova.Parser.Acyclic
import Cronova.Parser.Limits
import Cronova.Parser.Shards
import Cronova.Scheduler.Backoff
import Cronova.Api.Atomic
import Cronova.Executor.Redaction
import Cronova.Scheduler.Cascade
import Cronova.Scheduler.Release
import Cronova.Scheduler.Window
import Cronova.Scheduler.Discarding
import Cronova.Scheduler.Holding
import Cronova.Executor.Files
import Cronova.Datetmpl.Exact
import Cronova.Secrets.Dsn
import Cronova.Scheduler.Drain
import Cronova.Scheduler.Naming
import Cronova.Scheduler.Deadline
import Cronova.Api.Upload
import Cronova.Scheduler.Nesting
import Cronova.Auth.Authority
