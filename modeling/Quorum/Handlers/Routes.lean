/-
The routes of the control node (`cmd/server/server.go`): which handler answers a request, and behind which roles. The
request log, the request ids and the spans that are wrapped around all of them are left out.

What a request does to the node is one call, and the request and the clock decide which.
-/
import Quorum.Lib.ServeMux
import Quorum.Middleware.Auth

namespace Quorum

namespace Http

open ServeMux Auth Middleware

/-- What `main` registers a handler for. -/
inductive Endpoint where
  | ui
  | uiRedirect
  | root
  | jobs
  | job
  | cancelJob
  | cron
  | deleteCron
  | status
  | nodes
  | node
  | raft
  | failover
  | leases
  | metrics
  | events
  deriving DecidableEq, Repr

/-- The part of the configuration that the routes use. -/
structure Config where
  jwtSecret : List UInt8
  authEnabled : Bool
  raftNodeID : String

/-- What the routes use of libraries. -/
structure Env where
  jwt : Library
  codec : Codec
  redirectCode : Nat

/-- The calls of `mux.Handle`, in the order of the source. -/
def routes : List (Pattern × Endpoint) :=
  [(⟨none, [.literal "ui"], true⟩, .ui),
    (⟨none, [.literal "ui"], false⟩, .uiRedirect),
    (⟨none, [], true⟩, .root),
    (⟨none, [.literal "jobs"], false⟩, .jobs),
    (⟨some "GET", [.literal "jobs", .wildcard], false⟩, .job),
    (⟨some "DELETE", [.literal "jobs", .wildcard], false⟩, .cancelJob),
    (⟨none, [.literal "cron"], false⟩, .cron),
    (⟨some "DELETE", [.literal "cron", .wildcard], false⟩, .deleteCron),
    (⟨none, [.literal "cluster", .literal "status"], false⟩, .status),
    (⟨none, [.literal "cluster", .literal "nodes"], false⟩, .nodes),
    (⟨none, [.literal "cluster", .literal "nodes"], true⟩, .node),
    (⟨none, [.literal "cluster", .literal "raft"], false⟩, .raft),
    (⟨none, [.literal "cluster", .literal "failover-simulate"], false⟩, .failover),
    (⟨some "GET", [.literal "jobs", .literal "leases"], false⟩, .leases),
    (⟨none, [.literal "metrics"], false⟩, .metrics),
    (⟨none, [.literal "events"], false⟩, .events)]

section
variable {σ : Type} [LawfulStore σ] (env : Env) (cfg : Config)

/-- `requireRoles` of `main`. -/
def requireRoles (allowedRoles : List String) (next : Handler σ) : Handler σ :=
  if cfg.authEnabled then Middleware.requireRoles env.jwt cfg.jwtSecret allowedRoles next else next

def requireSubmitter (next : Handler σ) : Handler σ := requireRoles env cfg [roleSubmitter, roleAdmin] next

def requireViewer (next : Handler σ) : Handler σ := requireRoles env cfg [roleViewer, roleSubmitter, roleAdmin] next

def requireAdmin (next : Handler σ) : Handler σ := requireRoles env cfg [roleAdmin] next

/-- A handler that only reads. -/
def reading (h : Reading → Request → List String → ControlNode σ → Response) : Handler σ :=
  fun _ rd r ids n => (h rd r ids n, n)

/-- `r.PathValue("id")`. -/
def pathValue (ids : List String) : String := ids.headD ""

/-- The handlers as they are registered. -/
def handle : Endpoint → Handler σ
  | .ui => reading fun _ _ _ _ => ⟨200, .page⟩
  | .uiRedirect => reading fun _ _ _ _ => ⟨301, .location "/ui/"⟩
  | .root => reading fun _ r _ _ => if r.path = [""] then ⟨302, .location "/ui/"⟩ else ⟨200, .running⟩
  | .jobs => fun ctx rd r ids n =>
    if r.method = "POST" then
      requireSubmitter env cfg (fun _ rd r _ n => submitJobHandler env.codec rd r n) ctx rd r ids n
    else if r.method = "GET" then
      requireViewer env cfg (reading fun rd r _ n => listJobsHandler rd r n) ctx rd r ids n
    else (textError "Method Not Allowed" 405, n)
  | .job => requireViewer env cfg (reading fun _ _ ids n => getJobHandler (pathValue ids) n)
  | .cancelJob => requireSubmitter env cfg fun _ rd _ ids n => cancelJobHandler rd (pathValue ids) n
  | .cron => fun ctx rd r ids n =>
    if r.method = "POST" then
      requireAdmin env cfg (fun _ rd r _ n => createCronJobHandler env.codec rd r n) ctx rd r ids n
    else if r.method = "GET" then
      requireViewer env cfg (reading fun rd _ _ n => listCronJobsHandler rd n) ctx rd r ids n
    else (textError "Method Not Allowed" 405, n)
  | .deleteCron => requireAdmin env cfg fun _ rd _ ids n => deleteCronJobHandler rd (pathValue ids) n
  | .status => requireViewer env cfg (reading fun rd r _ n => status rd r n)
  | .nodes => requireViewer env cfg (reading fun rd r _ n => nodes rd r n)
  | .node => fun ctx rd r ids n =>
    if r.method = "DELETE" then requireAdmin env cfg (fun _ rd r _ n => nodeRoute rd r n) ctx rd r ids n
    else requireViewer env cfg (fun _ rd r _ n => nodeRoute rd r n) ctx rd r ids n
  | .raft => requireViewer env cfg (reading fun rd _ _ _ => raftStatus cfg.raftNodeID rd)
  | .failover => requireAdmin env cfg (reading fun _ _ _ _ => ⟨200, .simulated⟩)
  | .leases => requireViewer env cfg (reading fun _ _ _ _ => ⟨200, .leases⟩)
  | .metrics => reading fun rd _ _ _ => ⟨rd.metricsCode, .metrics rd.metricsPage⟩
  -- the handler panics, as the writer that the middleware hands it is no `http.Flusher`
  | .events => reading fun _ _ _ _ => noAnswer

/-- A request to the server. -/
def serve (rd : Reading) (r : Request) (n : ControlNode σ) : Response × ControlNode σ :=
  if clean r.path ≠ r.path then (⟨env.redirectCode, .location ("/" ++ "/".intercalate (clean r.path))⟩, n)
  else
    match find routes r.method r.path with
    | none => (textError "404 page not found" 404, n)
    | some (endpoint, ids) => handle env cfg endpoint none rd r ids n

/-- What the loops, the runners and the process do without a request. -/
def isInternal : Server.Act → Bool
  | .submitJob _ _ | .submitJobAt _ _ _ | .findKey _ _ _ | .addKeyed | .cancelJob _ | .deleteJob _ => false
  | _ => true

/-- What happens on a control node: a request, a step of the loops, a tick of the cron scheduler, and what the worker
manager is told. -/
inductive Input where
  | request (rd : Reading) (r : Request)
  | act (a : Server.Act) (h : isInternal a = true)
  | tick (raft : Option RaftReply) (now : Time) (ord : RangeOrder String)
  | worker (timeout : Duration) (a : Manager.Act)

/-- What a call of the manager does to the broker. -/
def brokerAfter (b : Broker) : Manager.Act → Broker
  | .register id topics _ => b.registerWorker id topics
  | .remove id => b.unregisterWorker id
  | _ => b

/-- A request with what it found outside of the node, and its answer. -/
structure Exchange where
  reading : Reading
  request : Request
  response : Response

/-- A request is served in one step: requests do not overlap, and the process is not stopped during one. -/
def step (n : ControlNode σ) : Input → ControlNode σ × List Exchange
  | .request rd r => ((serve env cfg rd r n).2, [⟨rd, r, (serve env cfg rd r n).1⟩])
  -- a process that is started again has neither cron jobs nor workers
  | .act a _ =>
    (if a.isRestart then ⟨(n.server.step a).1, .new, .new⟩ else { n with server := (n.server.step a).1 }, [])
  | .tick raft now ord => (n.withCronEngine (n.cronEngine.tick raft ord now).1, [])
  | .worker timeout a =>
    let s := n.server.engine.scheduler
    ({ n with
        server := n.server.withScheduler { s with broker := s.broker.map fun b => brokerAfter b a }
        manager := (Manager.step timeout n.manager a).1 }, [])

/-- The control node, with the requests and their answers. -/
def api : Machine (ControlNode σ) Input Exchange := ⟨step env cfg⟩

/-! ## The call of a request -/

/-- The calls of the handlers that change a node. -/
inductive Call where
  | submitJobAt (jobType : String) (priority : Int) (runAt : Time)
  | submitJobIdempotent (key jobType : String) (priority : Int)
  | cancelJob (id : Int)
  | addCronJob (id schedule jobType : String) (priority : Int)
  | removeCronJob (id : String)
  | evict (id : Int)
  deriving DecidableEq, Repr

/-- The node after a call. -/
def Call.run (rd : Reading) (n : ControlNode σ) : Call → ControlNode σ
  | .submitJobAt jobType priority runAt => n.withEngine (n.server.engine.submitJobAt rd.raft jobType priority runAt).2
  | .submitJobIdempotent key jobType priority =>
    n.withEngine (n.server.engine.submitJobIdempotent rd.raft key jobType priority).2
  | .cancelJob id => n.withEngine (n.server.engine.cancelJob rd.raft id).2
  | .addCronJob id schedule jobType priority =>
    n.withCronEngine (n.cronEngine.addCronJob rd.raft rd.now id schedule jobType priority).2
  | .removeCronJob id => n.withCronEngine (n.cronEngine.removeCronJob rd.raft id)
  | .evict id => n.evict id

/-- The node after a call, or after none. -/
def perform (rd : Reading) (n : ControlNode σ) : Option Call → ControlNode σ
  | none => n
  | some c => c.run rd n

end

section
variable (codec : Codec)

/-- The call of `SubmitJobHandler`. -/
def submitCall (now : Time) (r : Request) : Option Call := do
  let req ← codec.submitJob r.body
  if r.method ≠ "POST" ∨ req.type = "" ∨ req.priority < 0 then none
  else if isBlank req.runAt then some (.submitJobIdempotent req.idempotencyKey req.type req.priority)
  else
    let runAt ← codec.rfc3339.parse req.runAt
    if runAt > now then some (.submitJobAt req.type req.priority runAt) else none

/-- The call of `CancelJobHandler`. -/
def cancelCall (idStr : String) : Option Call := (Cron.atoi idStr.toList).map .cancelJob

/-- The call of `CreateCronJobHandler`. -/
def createCronCall (r : Request) : Option Call := do
  let req ← codec.createCronJob r.body
  if trimSpace req.id = "" ∨ trimSpace req.schedule = "" ∨ trimSpace req.type = "" ∨ req.priority < 0 then none
  else some (.addCronJob (trimSpace req.id) (trimSpace req.schedule) (trimSpace req.type) req.priority)

/-- The call of `DeleteCronJobHandler`. -/
def deleteCronCall (idStr : String) : Option Call :=
  if trimSpace idStr = "" then none else some (.removeCronJob (trimSpace idStr))

/-- The call of `NodeRoute`. -/
def nodeCall (r : Request) : Option Call := do
  let path ← (nodePath r).filter (· ≠ "")
  let id ← Cron.atoi path.toList
  if r.method = "DELETE" then some (.evict id) else none

/-- The call of a request that gets to an endpoint. -/
def callOf (now : Time) (r : Request) (ids : List String) : Endpoint → Option Call
  | .jobs => if r.method = "POST" then submitCall codec now r else none
  | .cancelJob => cancelCall (pathValue ids)
  | .cron => if r.method = "POST" then createCronCall codec r else none
  | .deleteCron => deleteCronCall (pathValue ids)
  | .node => nodeCall r
  | _ => none

variable {codec}

theorem submitCall_cases {now : Time} {r : Request} {c : Call} (h : submitCall codec now r = some c) :
    ∃ req, codec.submitJob r.body = some req ∧
      ((∃ runAt, c = .submitJobAt req.type req.priority runAt) ∨
        c = .submitJobIdempotent req.idempotencyKey req.type req.priority) := by
  obtain ⟨req, hreq, h⟩ := Option.bind_eq_some_iff.1 h
  refine ⟨req, hreq, ?_⟩
  split at h
  · cases h
  split at h
  · cases h
    exact .inr rfl
  obtain ⟨runAt, -, h⟩ := Option.bind_eq_some_iff.1 h
  split at h
  · cases h
    exact .inl ⟨runAt, rfl⟩
  · cases h

theorem createCronCall_cases {r : Request} {c : Call} (h : createCronCall codec r = some c) :
    ∃ id schedule jobType priority, c = .addCronJob id schedule jobType priority := by
  obtain ⟨req, -, h⟩ := Option.bind_eq_some_iff.1 h
  split at h
  · cases h
  · cases h
    exact ⟨_, _, _, _, rfl⟩

theorem nodeCall_cases {r : Request} {c : Call} (h : nodeCall r = some c) :
    r.method = "DELETE" ∧ ∃ id, c = .evict id := by
  obtain ⟨path, -, h⟩ := Option.bind_eq_some_iff.1 h
  obtain ⟨id, -, h⟩ := Option.bind_eq_some_iff.1 h
  split at h
  · cases h
    exact ⟨‹_›, id, rfl⟩
  · cases h

/-- The endpoint that makes a call. -/
def Call.endpoint : Call → Endpoint
  | .submitJobAt _ _ _ | .submitJobIdempotent _ _ _ => .jobs
  | .cancelJob _ => .cancelJob
  | .addCronJob _ _ _ _ => .cron
  | .removeCronJob _ => .deleteCron
  | .evict _ => .node

/-- The method that the endpoint looks for. -/
def Call.method : Call → Option String
  | .submitJobAt _ _ _ | .submitJobIdempotent _ _ _ | .addCronJob _ _ _ _ => some "POST"
  | .evict _ => some "DELETE"
  | .cancelJob _ | .removeCronJob _ => none

theorem callOf_endpoint {now : Time} {r : Request} {ids : List String} {endpoint : Endpoint} {c : Call}
    (h : callOf codec now r ids endpoint = some c) : endpoint = c.endpoint ∧ ∀ m, c.method = some m → r.method = m := by
  cases endpoint with
  | jobs =>
    dsimp only [callOf] at h
    split at h
    · rename_i hpost
      obtain ⟨req, -, ⟨runAt, rfl⟩ | rfl⟩ := submitCall_cases h <;>
      · refine ⟨rfl, ?_⟩
        rintro m ⟨⟩
        exact hpost
    · cases h
  | cancelJob =>
    obtain ⟨id, -, rfl⟩ := Option.map_eq_some_iff.1 h
    exact ⟨rfl, fun m hm => by cases hm⟩
  | cron =>
    dsimp only [callOf] at h
    split at h
    · rename_i hpost
      obtain ⟨id, schedule, jobType, priority, rfl⟩ := createCronCall_cases h
      refine ⟨rfl, ?_⟩
      rintro m ⟨⟩
      exact hpost
    · cases h
  | deleteCron =>
    dsimp only [callOf, deleteCronCall] at h
    split at h
    · cases h
    · cases h
      exact ⟨rfl, fun m hm => by cases hm⟩
  | node =>
    obtain ⟨hdelete, id, rfl⟩ := nodeCall_cases h
    refine ⟨rfl, ?_⟩
    rintro m ⟨⟩
    exact hdelete
  | ui | uiRedirect | root | job | status | nodes | raft | failover | leases | metrics | events => cases h

end

section
variable {σ : Type} [LawfulStore σ] {codec : Codec} {rd : Reading} {n : ControlNode σ}

/-- What `SubmitJobHandler` comes to: an answer without a call, or the answer to its call. -/
inductive Submits (codec : Codec) (rd : Reading) (r : Request) (n : ControlNode σ) : Response × ControlNode σ → Prop
  | rejected {msg : String} : submitCall codec rd.now r = none →
      Submits codec rd r n (textError msg (if r.method = "POST" then 400 else 405), n)
  | failedAt {jobType : String} {priority : Int} {runAt : Time} {err : String} :
      submitCall codec rd.now r = some (.submitJobAt jobType priority runAt) →
      (n.server.engine.submitJobAt rd.raft jobType priority runAt).1 = .error err →
      Submits codec rd r n (textError "Failed to submit job" 500,
        n.withEngine (n.server.engine.submitJobAt rd.raft jobType priority runAt).2)
  | scheduled {jobType : String} {priority : Int} {runAt : Time} {created : Job} :
      submitCall codec rd.now r = some (.submitJobAt jobType priority runAt) →
      (n.server.engine.submitJobAt rd.raft jobType priority runAt).1 = .ok created →
      Submits codec rd r n (.ofJobs (scheduledResponse codec.rfc3339 created),
        n.withEngine (n.server.engine.submitJobAt rd.raft jobType priority runAt).2)
  | failed {key jobType : String} {priority : Int} {err : String} :
      submitCall codec rd.now r = some (.submitJobIdempotent key jobType priority) →
      (n.server.engine.submitJobIdempotent rd.raft key jobType priority).1 = .error err →
      Submits codec rd r n (textError "Failed to submit job" 500,
        n.withEngine (n.server.engine.submitJobIdempotent rd.raft key jobType priority).2)
  | submitted {key jobType : String} {priority : Int} {created : Job} {wasDuplicate : Bool} :
      submitCall codec rd.now r = some (.submitJobIdempotent key jobType priority) →
      (n.server.engine.submitJobIdempotent rd.raft key jobType priority).1 = .ok (created, wasDuplicate) →
      Submits codec rd r n (.ofJobs (submittedResponse created wasDuplicate),
        n.withEngine (n.server.engine.submitJobIdempotent rd.raft key jobType priority).2)

theorem submitJobHandler_submits (r : Request) : Submits codec rd r n (submitJobHandler codec rd r n) := by
  have hbad : r.method = "POST" → ∀ msg, submitCall codec rd.now r = none →
      Submits codec rd r n (textError msg 400, n) := by
    intro hpost msg hnone
    have h : Submits codec rd r n (textError msg _, n) := .rejected hnone
    rwa [if_pos hpost] at h
  unfold submitJobHandler
  by_cases hpost : r.method = "POST"
  · rw [if_neg (not_not.2 hpost)]
    cases hreq : codec.submitJob r.body with
    | none => exact hbad hpost _ (by simp [submitCall, hreq])
    | some req =>
      dsimp only
      split
      · rename_i htype
        exact hbad hpost _ (by simp [submitCall, hreq, htype])
      split
      · rename_i hpriority
        exact hbad hpost _ (by simp [submitCall, hreq, hpriority])
      rename_i htype hpriority
      have hvalid : ¬ (r.method ≠ "POST" ∨ req.type = "" ∨ req.priority < 0) := by simp [hpost, htype, hpriority]
      split
      · rename_i hblank
        rw [Bool.not_eq_true'] at hblank
        cases hparse : codec.rfc3339.parse req.runAt with
        | none => exact hbad hpost _ (by simp [submitCall, hreq, hvalid, hblank, hparse])
        | some runAt =>
          dsimp only
          split
          · rename_i hpast
            exact hbad hpost _ (by simp [submitCall, hreq, hvalid, hblank, hparse, hpast])
          · rename_i hfuture
            have hcall : submitCall codec rd.now r = some (.submitJobAt req.type req.priority runAt) := by
              simp [submitCall, hreq, hvalid, hblank, hparse, not_not.1 hfuture]
            cases hres : n.server.engine.submitJobAt rd.raft req.type req.priority runAt with
            | mk res e =>
              obtain rfl : (n.server.engine.submitJobAt rd.raft req.type req.priority runAt).2 = e := by rw [hres]
              cases res with
              | error err => exact .failedAt hcall (by rw [hres])
              | ok created => exact .scheduled hcall (by rw [hres])
      · rename_i hblank
        rw [Bool.not_eq_true', Bool.not_eq_false] at hblank
        have hcall : submitCall codec rd.now r =
            some (.submitJobIdempotent req.idempotencyKey req.type req.priority) := by
          simp [submitCall, hreq, hvalid, hblank]
        cases hres : n.server.engine.submitJobIdempotent rd.raft req.idempotencyKey req.type req.priority with
        | mk res e =>
          obtain rfl : _ = e := congrArg Prod.snd hres
          cases res with
          | error err => exact .failed hcall (by rw [hres])
          | ok p => exact .submitted hcall (by rw [hres])
  · rw [if_pos hpost]
    have hnone : submitCall codec rd.now r = none := by
      unfold submitCall
      cases codec.submitJob r.body with
      | none => rfl
      | some req => simp [hpost]
    have h : Submits codec rd r n (textError "Method Not Allowed" _, n) := .rejected hnone
    rwa [if_neg hpost] at h

theorem submitJobHandler_call (r : Request) :
    (submitJobHandler codec rd r n).2 = perform rd n (submitCall codec rd.now r) := by
  have h : Submits codec rd r n (submitJobHandler codec rd r n) := submitJobHandler_submits r
  generalize submitJobHandler codec rd r n = p at h
  cases h with
  | rejected hcall | failedAt hcall | scheduled hcall | failed hcall | submitted hcall =>
    rw [hcall]
    rfl

theorem cancelJobHandler_call (idStr : String) :
    (cancelJobHandler rd idStr n).2 = perform rd n (cancelCall idStr) := by
  unfold cancelJobHandler cancelCall
  cases Cron.atoi idStr.toList with
  | none => rfl
  | some id =>
    rcases hcall : n.server.engine.cancelJob rd.raft id with ⟨_ | err, e⟩ <;> simp [perform, Call.run, hcall]

theorem createCronJobHandler_call (r : Request) :
    (createCronJobHandler codec rd r n).2 = perform rd n (createCronCall codec r) := by
  unfold createCronJobHandler createCronCall
  cases codec.createCronJob r.body with
  | none => rfl
  | some req =>
    dsimp only [Option.bind_eq_bind, Option.bind_some]
    split
    · rename_i hid; simp [hid, perform]
    split
    · rename_i hschedule; simp [hschedule, perform]
    split
    · rename_i htype; simp [htype, perform]
    split
    · rename_i hpriority; simp [hpriority, perform]
    rename_i hid hschedule htype hpriority
    simp only [hid, hschedule, htype, hpriority, or_self, if_false]
    rcases hcall : n.cronEngine.addCronJob rd.raft rd.now (trimSpace req.id) (trimSpace req.schedule)
      (trimSpace req.type)
      req.priority with ⟨_ | err, e⟩ <;> simp [perform, Call.run, hcall]

theorem deleteCronJobHandler_call (idStr : String) :
    (deleteCronJobHandler rd idStr n).2 = perform rd n (deleteCronCall idStr) := by
  unfold deleteCronJobHandler deleteCronCall
  dsimp only
  split <;> rfl

theorem nodeRoute_call (r : Request) : (nodeRoute rd r n).2 = perform rd n (nodeCall r) := by
  unfold nodeRoute nodeCall
  cases (nodePath r).filter (· ≠ "") with
  | none => rfl
  | some path =>
    dsimp only [Option.bind_eq_bind, Option.bind_some]
    cases Cron.atoi path.toList with
    | none => rfl
    | some id =>
      dsimp only [Option.bind_some]
      split <;> rfl

omit [LawfulStore σ] in
theorem requireRoles_open (env : Env) {cfg : Config} (hcfg : cfg.authEnabled = false) (roles : List String)
    (next : Handler σ) :
    requireRoles env cfg roles next = next := by
  unfold requireRoles
  rw [hcfg]
  rfl

/-- Without authentication a request that gets to an endpoint makes its call, and nothing else happens to the node. -/
theorem handle_call (env : Env) {cfg : Config} (hcfg : cfg.authEnabled = false) (endpoint : Endpoint)
    (ctx : Option Claims) (r : Request) (ids : List String) :
    (handle env cfg endpoint ctx rd r ids n).2 = perform rd n (callOf env.codec rd.now r ids endpoint) := by
  have hopen := requireRoles_open (σ := σ) env hcfg
  cases endpoint with
  | ui | uiRedirect | root | metrics | events => rfl
  | job | leases | status | nodes | raft | failover =>
    simp only [handle, requireViewer, requireAdmin, hopen]
    rfl
  | cancelJob =>
    simp only [handle, requireSubmitter, hopen]
    exact cancelJobHandler_call _
  | deleteCron =>
    simp only [handle, requireAdmin, hopen]
    exact deleteCronJobHandler_call _
  | node =>
    simp only [handle, requireAdmin, requireViewer, hopen, ite_self]
    exact nodeRoute_call r
  | jobs =>
    simp only [handle, requireSubmitter, requireViewer, hopen, callOf]
    split
    · exact submitJobHandler_call r
    · split <;> rfl
  | cron =>
    simp only [handle, requireAdmin, requireViewer, hopen, callOf]
    split
    · exact createCronJobHandler_call r
    · split <;> rfl

end

end Http

end Quorum
