import Quorum.Lib.GoMap
import Quorum.Lib.EncodedMap
import Quorum.Lib.ContainerHeap
import Quorum.Lib.HeapOrder
import Quorum.Lib.Machine
import Quorum.Lib.Chan
import Quorum.Lib.CappedWalk
import Quorum.Lib.Method
import Quorum.Lib.Successor
import Quorum.Lib.Lines
import Quorum.Lib.Words
import Quorum.Lib.Civil
import Quorum.Lib.Base64
import Quorum.Lib.ReplicatedLog
import Quorum.Lib.UniqueIndex
import Quorum.Lib.ServeMux
import Quorum.Lib.LossyChan
import Quorum.Lib.Ticker
import Quorum.Job.Basic
import Quorum.Job.Backoff
import Quorum.Job.Lease
import Quorum.Auth.Jwt
import Quorum.Store.Interface
import Quorum.Store.StatusIndex
import Quorum.Store.Memory
import Quorum.Store.Bolt
import Quorum.Store.Methods
import Quorum.Store.Keys
import Quorum.Store.Tables
import Quorum.Store.Histories
import Quorum.Storage.Wal
import Quorum.Queue.JobQueue
import Quorum.Queue.Order
import Quorum.Queue.Runs
import Quorum.Queue.Deletions
import Quorum.Worker.Broker
import Quorum.Worker.Selection
import Quorum.Worker.Runner
import Quorum.Worker.Breaker
import Quorum.Worker.BreakerCalls
import Quorum.Worker.Cancellation
import Quorum.Worker.TokenBucket
import Quorum.Worker.Pipeline
import Quorum.Events.Broadcaster
import Quorum.Cron.Scheduler
import Quorum.Store.BoltFile
import Quorum.Cron.Slots
import Quorum.Cron.Schedules
import Quorum.Cron.Calendar
import Quorum.Scheduler.Basic
import Quorum.Scheduler.Dispatch
import Quorum.Scheduler.Wakeup
import Quorum.Scheduler.Drain
import Quorum.Scheduler.Delayed
import Quorum.Scheduler.Board
import Quorum.Scheduler.Refine
import Quorum.Consensus.Fsm
import Quorum.Consensus.Replay
import Quorum.Consensus.Cluster
import Quorum.Consensus.Keys
import Quorum.Consensus.Snapshot
import Quorum.Consensus.Compaction
import Quorum.Engine.Basic
import Quorum.Engine.Moves
import Quorum.Engine.Active
import Quorum.Engine.Leadership
import Quorum.Engine.Grants
import Quorum.Engine.Fencing
import Quorum.Engine.Attempts
import Quorum.Engine.Exclusion
import Quorum.Engine.Rebuild
import Quorum.Engine.Timing
import Quorum.Engine.Promotion
import Quorum.Engine.DelayLoop
import Quorum.Engine.Cron
import Quorum.Rpc.Report
import Quorum.Rpc.Pool
import Quorum.Rpc.Availability
import Quorum.Engine.Shutdown
import Quorum.Rpc.Fleet
import Quorum.Rpc.OneJob
import Quorum.Rpc.Routing
import Quorum.Rpc.Owners
import Quorum.Rpc.Signals
import Quorum.Rpc.Manager
import Quorum.Rpc.Membership
import Quorum.Rpc.Delivery
import Quorum.Rpc.DeadEnds
import Quorum.Engine.Work
import Quorum.Engine.Loops
import Quorum.Engine.Floor
import Quorum.Engine.Completion
import Quorum.Engine.DeadLetters
import Quorum.Engine.Progress
import Quorum.Engine.Lifecycle
import Quorum.Engine.InProcess
import Quorum.Engine.Server
import Quorum.Engine.Terminal
import Quorum.Engine.LostUpdate
import Quorum.Engine.Idempotency
import Quorum.Engine.Sessions
import Quorum.Engine.Recovery
import Quorum.Consensus.Leaders
import Quorum.Handlers.Jobs
import Quorum.Handlers.Api
import Quorum.Middleware.Auth
import Quorum.Handlers.Routes
import Quorum.Handlers.Access
import Quorum.Handlers.Requests
import Quorum.Handlers.Accounts
import Quorum.Handlers.Contract
