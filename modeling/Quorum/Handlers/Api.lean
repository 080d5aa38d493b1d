/-
The handlers of the HTTP API (`internal/handlers`) on a control node: jobs, cron jobs, the workers and the state of
the cluster. A handler checks its request and makes at most one call that changes the node; which one is decided by
the request and the clock alone. With and without Raft the handlers are the same, `raft` being what becomes of a
proposal.
-/
import Quorum.Engine.Cron
import Quorum.Handlers.Jobs
import Quorum.Rpc.Manager

namespace Quorum

/-- The engine with its loops, its cron scheduler and its worker manager. -/
structure ControlNode (σ : Type) where
  server : Server σ
  cronScheduler : CronScheduler
  manager : Manager

namespace ControlNode

variable {σ : Type} [LawfulStore σ]

def store (n : ControlNode σ) : σ := n.server.store

def withEngine (n : ControlNode σ) (e : Engine σ) : ControlNode σ := { n with server := n.server.withEngine e }

/-- The part of the node that the cron calls work on. -/
def cronEngine (n : ControlNode σ) : CronEngine σ := ⟨n.server.engine, n.cronScheduler, true⟩

def withCronEngine (n : ControlNode σ) (e : CronEngine σ) : ControlNode σ :=
  { n.withEngine e.engine with cronScheduler := e.cronScheduler }

/-- `Manager.Remove`, with the part of it that concerns the broker. -/
def evict (n : ControlNode σ) (id : Int) : ControlNode σ :=
  let s := n.server.engine.scheduler
  { n with
    server := n.server.withScheduler { s with broker := s.broker.map fun b => b.unregisterWorker id }
    manager := n.manager.remove id }

end ControlNode

/-- `NodeSnapshot` without the address. -/
structure NodeSnapshot where
  id : Int
  alive : Bool
  lastHeartbeat : Time
  topics : List String
  deriving DecidableEq, Repr

/-- `Manager.Nodes`. -/
def Manager.nodes (m : Manager) (ord : RangeOrder Int) : List NodeSnapshot :=
  (ord.order m.workers.keys).filterMap fun id =>
    (m.workers.lookup id).map fun info => ⟨id, info.alive, info.lastHeartbeat, info.topics⟩

namespace Http

/-- A request. Its path is the list of the segments after the first slash; a missing header is empty. -/
structure Request where
  method : String
  path : List String
  authorization : String
  body : List UInt8

/-- The JSON body of `POST /cron`. -/
structure CreateCronJobRequest where
  id : String
  schedule : String
  type : String
  priority : Int

/-- What `encoding/json` reads in the body of a request, none if it does not decode, and the times of `time.RFC3339`.
A time is an instant, without the offset of its text. Texts with an offset of 24 hours or more are left out:
`time.Parse` takes some of them, and `encoding/json` then refuses to write the time. -/
structure Codec where
  submitJob : List UInt8 → Option Handlers.SubmitJobRequest
  createCronJob : List UInt8 → Option CreateCronJobRequest
  rfc3339 : Rfc3339

/-- What raft answers to questions about the cluster. -/
structure RaftView where
  isLeader : Bool
  term : Nat
  leaderAddr : String

/-- What a request finds outside of the node: the clock, once for its token and once for its handler, raft, if there
is one, the orders of the maps it ranges over, and the answer of `promhttp.Handler`, whose page counts the requests
for it as well. -/
structure Reading where
  verifiedAt : Time
  now : Time
  raft : Option RaftReply
  view : RaftView
  jobs : RangeOrder Int
  crons : RangeOrder String
  scheduled : RangeOrder String
  nodes : RangeOrder Int
  metricsCode : Nat
  metricsPage : List UInt8

structure ClusterStatus where
  totalNodes : Nat
  activeNodes : Nat
  deadNodes : Nat
  totalJobs : Nat
  pendingJobs : Nat
  completedJobs : Nat
  failedJobs : Nat
  cancelledJobs : Nat
  leaderNode : String
  raftTerm : Nat
  deriving DecidableEq, Repr

/-- The body of an answer. The lease table has no exported field, so that its JSON is an empty object. -/
inductive Body where
  | text (msg : String)
  | error (msg : String)
  | denied (error message : String)
  | jobCreated (b : JobBody)
  | job (j : Job)
  | jobs (js : List Job)
  | crons (cs : List CronJob)
  | status (status : String) (id : Option String)
  | nodes (ns : List NodeSnapshot)
  | cluster (s : ClusterStatus)
  | raft (isLeader : Bool) (term : Nat) (leaderAddr nodeID : String)
  | leases
  | evicted (id : Int)
  | simulated
  | running
  | location (path : String)
  | page
  | metrics (page : List UInt8)
  | nothing
  deriving DecidableEq

structure Response where
  code : Nat
  body : Body
  deriving DecidableEq

/-- No answer at all: the server closes the connection after a panic of the handler. -/
def noAnswer : Response := ⟨0, .nothing⟩

/-- `http.Error`. -/
def textError (msg : String) (code : Nat) : Response := ⟨code, .text msg⟩

/-- `httpapi.WriteError`. -/
def writeError (code : Nat) (msg : String) : Response := ⟨code, .error msg⟩

/-- An answer about a job, as `POST /jobs` gives it. -/
def Response.ofJobs (r : HttpResponse) : Response :=
  ⟨r.code, match r.body with
    | .text msg => .text msg
    | .job b => .jobCreated b⟩

section
variable {σ : Type} [LawfulStore σ] (codec : Codec)

/-! ## Jobs -/

def submitJobHandler (rd : Reading) (r : Request) (n : ControlNode σ) : Response × ControlNode σ :=
  if r.method ≠ "POST" then (textError "Method Not Allowed" 405, n)
  else
    match codec.submitJob r.body with
    | none => (textError "Invalid JSON" 400, n)
    | some req =>
      if req.type = "" then (textError "type is required" 400, n)
      else if req.priority < 0 then (textError "priority must be >= 0" 400, n)
      else if !isBlank req.runAt then
        match codec.rfc3339.parse req.runAt with
        | none => (textError "run_at must be RFC3339" 400, n)
        | some runAt =>
          if ¬ runAt > rd.now then (textError "run_at must be in the future" 400, n)
          else
            match n.server.engine.submitJobAt rd.raft req.type req.priority runAt with
            | (.error _, e) => (textError "Failed to submit job" 500, n.withEngine e)
            | (.ok created, e) => (.ofJobs (scheduledResponse codec.rfc3339 created), n.withEngine e)
      else
        match n.server.engine.submitJobIdempotent rd.raft req.idempotencyKey req.type req.priority with
        | (.error _, e) => (textError "Failed to submit job" 500, n.withEngine e)
        | (.ok (created, wasDuplicate), e) => (.ofJobs (submittedResponse created wasDuplicate), n.withEngine e)

def listJobsHandler (rd : Reading) (r : Request) (n : ControlNode σ) : Response :=
  if r.method ≠ "GET" then textError "Method Not Allowed" 405 else ⟨200, .jobs (Store.list rd.jobs n.store)⟩

/-- `GetJobHandler`; `idStr` is the path value. -/
def getJobHandler (idStr : String) (n : ControlNode σ) : Response :=
  match Cron.atoi idStr.toList with
  | none => textError "Invalid job ID" 400
  | some id =>
    match Store.get n.store id with
    | none => textError "Job not found" 404
    | some j => ⟨200, .job j⟩

def cancelJobHandler (rd : Reading) (idStr : String) (n : ControlNode σ) : Response × ControlNode σ :=
  match Cron.atoi idStr.toList with
  | none => (textError "invalid job id" 400, n)
  | some id =>
    match n.server.engine.cancelJob rd.raft id with
    | (some err, e) => (textError err 409, n.withEngine e)
    | (none, e) => (⟨200, .status "cancelled" none⟩, n.withEngine e)

/-! ## Cron jobs -/

def createCronJobHandler (rd : Reading) (r : Request) (n : ControlNode σ) : Response × ControlNode σ :=
  match codec.createCronJob r.body with
  | none => (textError "Invalid JSON" 400, n)
  | some req =>
    let id := trimSpace req.id
    let schedule := trimSpace req.schedule
    let type := trimSpace req.type
    if id = "" then (textError "id is required" 400, n)
    else if schedule = "" then (textError "schedule is required" 400, n)
    else if type = "" then (textError "type is required" 400, n)
    else if req.priority < 0 then (textError "priority must be >= 0" 400, n)
    else
      match n.cronEngine.addCronJob rd.raft rd.now id schedule type req.priority with
      | (some err, e) => (textError err 400, n.withCronEngine e)
      | (none, e) => (⟨201, .status "created" (some id)⟩, n.withCronEngine e)

def listCronJobsHandler (rd : Reading) (n : ControlNode σ) : Response :=
  ⟨200, .crons (n.cronEngine.listCronJobs rd.crons rd.scheduled)⟩

def deleteCronJobHandler (rd : Reading) (idStr : String) (n : ControlNode σ) : Response × ControlNode σ :=
  let id := trimSpace idStr
  if id = "" then (textError "id is required" 400, n)
  else (⟨200, .status "removed" (some id)⟩, n.withCronEngine (n.cronEngine.removeCronJob rd.raft id))

/-! ## The cluster -/

/-- `ClusterHandler.Nodes`. -/
def nodes (rd : Reading) (r : Request) (n : ControlNode σ) : Response :=
  if r.method ≠ "GET" then writeError 405 "method not allowed" else ⟨200, .nodes (n.manager.nodes rd.nodes)⟩

/-- The aggregated counts of `ClusterHandler.Status`. -/
def clusterStatus (rd : Reading) (n : ControlNode σ) : ClusterStatus :=
  let nodes := n.manager.nodes rd.nodes
  let jobs := Store.list rd.jobs n.store
  { totalNodes := nodes.length
    activeNodes := nodes.countP fun s => s.alive
    deadNodes := nodes.countP fun s => !s.alive
    totalJobs := jobs.length
    pendingJobs := jobs.countP fun j => j.status = .pending ∨ j.status = .scheduled
    completedJobs := jobs.countP fun j => j.status = .completed
    failedJobs := jobs.countP fun j => j.status = .failed
    cancelledJobs := jobs.countP fun j => j.status = .cancelled
    leaderNode := if rd.raft.isSome ∧ rd.view.leaderAddr ≠ "" then rd.view.leaderAddr else "node-1"
    raftTerm := if rd.raft.isSome then rd.view.term else 1 }

/-- `ClusterHandler.Status`. -/
def status (rd : Reading) (r : Request) (n : ControlNode σ) : Response :=
  if r.method ≠ "GET" then writeError 405 "method not allowed" else ⟨200, .cluster (clusterStatus rd n)⟩

/-- `ClusterHandler.RaftStatus`. -/
def raftStatus (nodeID : String) (rd : Reading) : Response :=
  ⟨200, if rd.raft.isSome then .raft rd.view.isLeader rd.view.term rd.view.leaderAddr nodeID
    else .raft true 1 "127.0.0.1:18088" nodeID⟩

/-- What is left of the path of a request after `/cluster/nodes/`; none if it does not begin with that. -/
def nodePath (r : Request) : Option String :=
  if r.path.take 2 = ["cluster", "nodes"] ∧ r.path.drop 2 ≠ [] then some ("/".intercalate (r.path.drop 2)) else none

/-- `ClusterHandler.NodeRoute`. -/
def nodeRoute (rd : Reading) (r : Request) (n : ControlNode σ) : Response × ControlNode σ :=
  match (nodePath r).filter (· ≠ "") with
  | none => (nodes rd r n, n)
  | some path =>
    match Cron.atoi path.toList with
    | none => (writeError 400 "invalid node ID", n)
    | some id =>
      if r.method = "DELETE" then (⟨200, .evicted id⟩, n.evict id) else (writeError 405 "method not allowed", n)

end

end Http

end Quorum
