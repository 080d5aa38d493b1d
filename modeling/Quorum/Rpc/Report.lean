/-
The path of a remote execution, from `Client.Submit` on the control node through `ExecutionServer.SubmitJob`,
`Runner.Execute` and the worker's result forwarder to `WorkerServer.ReportResult` (`internal/rpc`,
`internal/runner`, `cmd/worker/main.go`). gRPC delivers what protobuf encodes: the fields of the message
descriptor in `worker.pb.go`, which does not have every field of the Go structs. Go's `int` and `int64` are both
64 bits wide, so otherwise only the conversions to `int32` can change a number.
-/
import Quorum.Engine.Grants
import Quorum.Store.Memory
import Quorum.Worker.Runner

namespace Quorum

/-- `int32(x)`. -/
def int32 (x : Int) : Int := Int.bmod x (1 <<< 32)

/-- `workerpb.SubmitJobRequest`. -/
structure SubmitJobRequest where
  id : Int
  type : String
  priority : Int
  workerId : Int
  attempt : Int
  deriving DecidableEq, Repr

/-- The request as the worker node decodes it. The descriptor of the message ends with `worker_id`; the Go
struct's field `Attempt` is not in it, so it is not encoded. -/
def SubmitJobRequest.decoded (req : SubmitJobRequest) : SubmitJobRequest := { req with attempt := 0 }

/-- `workerpb.ReportResultRequest`. -/
structure ReportResultRequest where
  jobId : Int
  success : Bool
  error : String
  workerId : Int
  attempt : Int
  deriving DecidableEq, Repr

/-- The request as the control node decodes it: this descriptor has no `attempt` either. -/
def ReportResultRequest.decoded (req : ReportResultRequest) : ReportResultRequest := { req with attempt := 0 }

namespace Rpc

/-- The request of `Client.Submit`; the attempt of the lease is not among its arguments. -/
def submitRequest (c : WorkerClient) (j : Job) : SubmitJobRequest :=
  { id := j.id, type := j.type, priority := int32 j.priority, workerId := int32 c.id, attempt := 1 }

/-- `ExecutionServer.SubmitJob`: the job handed to the runner. -/
def receivedJob (req : SubmitJobRequest) : Job :=
  { Job.zero with id := req.id, type := req.type, priority := req.priority }

/-- The forwarder of the worker process and `Client.ReportResult`. -/
def reportRequest (c : WorkerClient) (r : Result) : ReportResultRequest :=
  { jobId := r.jobID, success := r.success, error := r.error.getD "", workerId := int32 c.id
    attempt := int32 r.attempt }

/-- `WorkerServer.ReportResult`: the result it sends to the scheduler. -/
def reportedResult (req : ReportResultRequest) : Result :=
  { jobID := req.jobId, success := req.success, error := if req.success then none else some req.error
    attempt := req.attempt, carries := by intro h; simp [h] }

/-- The whole path of a job dispatched to `c`, with `buffer` places in the worker's result channel: what
reaches `Scheduler.Results`, unless the runner had to drop the result. -/
def delivered (buffer : Nat) (c : WorkerClient) (exec : Job → Option ExecError) (j : Job) : Option Result :=
  let received := receivedJob (submitRequest c j).decoded
  let results := (Runner.execute (none : Option MemoryStore) (Chan.make buffer) received (exec received)).2
  results.tryRecv.map fun p => reportedResult (reportRequest c p.1).decoded

/-- The outcome of the executor has survived the path: id, attempt `a`, success and error message. -/
structure Survives (j : Job) (a : Int) (err : Option ExecError) (r : Result) : Prop where
  jobID : r.jobID = j.id
  attempt : r.attempt = a
  success : r.success = err.isNone
  error : ∀ e, err = some e → r.error = some e.message

/-- A result without an attempt is never discarded. -/
theorem Survives.not_stale {σ : Type} [LawfulStore σ] {j : Job} {err : Option ExecError} {r : Result}
    (h : Survives j 0 err r) (s : Scheduler σ) : s.isStale r = false := by
  rw [← Bool.not_eq_true, Scheduler.isStale_iff]
  rintro ⟨l, -, hpos, -⟩
  rw [h.attempt] at hpos
  omega

theorem delivered_eq (buffer : Nat) (c : WorkerClient) (exec : Job → Option ExecError) (j : Job) :
    delivered (buffer + 1) c exec j =
      some (reportedResult (reportRequest c (Runner.result (receivedJob (submitRequest c j).decoded)
        (exec (receivedJob (submitRequest c j).decoded)))).decoded) := by
  simp [delivered, Runner.execute, Chan.make, Chan.trySend, Chan.tryRecv]

/-- What a runner reports. -/
theorem survives_result (j : Job) (err : Option ExecError) : Survives j 0 err (Runner.result j err) := by
  cases err with
  | none => exact ⟨rfl, rfl, rfl, fun e he => by cases he⟩
  | some err => exact ⟨rfl, rfl, rfl, fun e he => by cases he; rfl⟩

/-- `ReportResult` keeps the outcome, and whatever attempt the runner has set arrives as zero. -/
theorem Survives.reported {j : Job} {a : Int} {err : Option ExecError} {r : Result} (h : Survives j a err r)
    (c : WorkerClient) : Survives j 0 err (reportedResult (reportRequest c r).decoded) where
  jobID := h.jobID
  attempt := rfl
  success := h.success
  error := by
    rintro e rfl
    have hfail : r.success = false := h.success
    simp [reportedResult, reportRequest, ReportResultRequest.decoded, hfail, h.error e rfl]

/-- Everything but the attempt survives, and the attempt that arrives is zero. -/
theorem delivered_spec (buffer : Nat) (c : WorkerClient) (exec : Job → Option ExecError) (j : Job) :
    ∃ r, delivered (buffer + 1) c exec j = some r ∧
      Survives j 0 (exec (receivedJob (submitRequest c j).decoded)) r := by
  refine ⟨_, delivered_eq buffer c exec j, ?_⟩
  have hrun :=
    survives_result (receivedJob (submitRequest c j).decoded) (exec (receivedJob (submitRequest c j).decoded))
  exact { hrun.reported c with }

/-- No execution reports the attempt it was dispatched under: in every run, for every dispatched job, every
worker and every outcome, the result that reaches the scheduler carries another attempt than the lease. -/
theorem attempt_never_survives {σ : Type} [LawfulStore σ] (e : Engine σ) (he : e.Starts)
    (evs : List Engine.Event) (g : Grant) (hg : g ∈ Engine.node.trace e evs) (buffer : Nat) (c : WorkerClient)
    (exec : Job → Option ExecError) :
    ∃ r, delivered (buffer + 1) c exec g.job = some r ∧
      Survives g.job 0 (exec (receivedJob (submitRequest c g.job).decoded)) r ∧
      ¬ Survives g.job g.lease.attempt (exec (receivedJob (submitRequest c g.job).decoded)) r := by
  obtain ⟨r, hr, hs⟩ := delivered_spec buffer c exec g.job
  refine ⟨r, hr, hs, fun h => ?_⟩
  have hpos := (Engine.node_counted he evs).2.2 g hg
  have hattempt : (0 : Int) = g.lease.attempt := hs.attempt.symm.trans h.attempt
  omega

/-- A job is submitted and dispatched to worker 7, which fails it. -/
theorem attempt_never_survives_failure :
    ∃ r, delivered 4 ⟨7⟩ (fun _ => some ⟨"timeout", false⟩) (Job.newJob 1 "email" 1) = some r ∧
      Survives (Job.newJob 1 "email" 1) 0 (some ⟨"timeout", false⟩) r ∧
      ¬ Survives (Job.newJob 1 "email" 1) 1 (some ⟨"timeout", false⟩) r :=
  attempt_never_survives (Engine.new (Store.empty : MemoryStore) ⟨1, [⟨7⟩], by decide⟩ none) (Engine.starts_new _ _)
    [.input none (.submitJob "email" 1), .input none (.round (.dispatchLoop 5 fun _ _ => none))]
    ⟨⟨1, 7, 1, 1⟩, Job.newJob 1 "email" 1, 5, true⟩ (List.mem_singleton_self _) 3 ⟨7⟩ fun _ => some ⟨"timeout", false⟩

/-- A job dispatched under attempt 1 and executed without an error is reported with attempt 0. -/
theorem success_reported_without_attempt :
    ∃ g r, Engine.node.trace (Engine.new (Store.empty : MemoryStore) ⟨1, [⟨7⟩], by decide⟩ none)
        [.input none (.submitJob "email" 1), .input none (.round (.dispatchLoop 5 fun _ _ => none))] = [g] ∧
      g.lease.attempt = 1 ∧ delivered 4 ⟨7⟩ (fun _ => none) g.job = some r ∧ r.attempt = 0 ∧
      ¬ Survives g.job g.lease.attempt none r := by
  refine ⟨⟨⟨1, 7, 1, 1⟩, Job.newJob 1 "email" 1, 5, true⟩, _, rfl, rfl, rfl, rfl, fun h => ?_⟩
  cases h.attempt

end Rpc

end Quorum
