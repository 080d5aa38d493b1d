/-
The scheduler (`internal/scheduler/scheduler.go`). Each loop is modelled by one round of it: the
value a round receives from a channel, the clock readings it makes, the answer of a worker's
`Submit` and the order of a `range` loop are its arguments. Tracing, logging, metrics and the event
broadcasts are left out.
-/
import Quorum.Job.Lease
import Quorum.Queue.JobQueue
import Quorum.Worker.Broker

namespace Quorum

structure Scheduler (σ : Type) where
  priorityQueue : JobQueue
  delayQueue : JobQueue
  available : Chan WorkerClient
  store : σ
  dlq : GoMap Int Job
  broker : Option Broker
  leases : LeaseManager

/-- Which of the two queues an id is pushed onto. -/
inductive QueueRef where
  | priority
  | delay

/-- What a dispatch shows to the outside: the lease it acquired, the job it passed to the worker's
`Submit`, when, and whether the worker accepted. -/
structure Grant where
  lease : Lease
  job : Job
  time : Time
  accepted : Bool

/-- What `Dispatch` leaves behind and returns. -/
structure Dispatched (σ : Type) where
  sched : Scheduler σ
  grants : List Grant
  ok : Bool

namespace Scheduler

variable {σ : Type} [Store σ]

/-- `NewScheduler` with empty queues on the given store. -/
def new (store : σ) (available : Chan WorkerClient) (broker : Option Broker) : Scheduler σ :=
  { priorityQueue := .new, delayQueue := .new, available := available, store := store, dlq := ∅,
    broker := broker, leases := .new }

def enqueueJob (s : Scheduler σ) (jobID : Int) : QueueRef → Scheduler σ
  | .priority => { s with priorityQueue := s.priorityQueue.enqueue priorityComparator s.store jobID }
  | .delay => { s with delayQueue := s.delayQueue.enqueue delayComparator s.store jobID }

/-- `Store.Update` with its error logged or ignored. -/
def tryUpdate (s : Scheduler σ) (j : Job) : Scheduler σ := { s with store := Store.tryUpdate s.store j }

/-- `Leases.Release`. -/
def release (s : Scheduler σ) (jobID : Int) : Scheduler σ := { s with leases := s.leases.release jobID }

/-- `Leases.Clear`. -/
def clearLeases (s : Scheduler σ) : Scheduler σ := { s with leases := s.leases.clear }

/-- `RebuildQueuesFromStore`; each of the two lists comes from its own loop over the store. -/
def rebuildQueuesFromStore (ord₁ ord₂ : RangeOrder Int) (s : Scheduler σ) : Scheduler σ × Option String :=
  match Store.listByStatus ord₁ s.store .pending with
  | .error e => (s, some e)
  | .ok pendingJobs =>
    let s := pendingJobs.foldl (fun s j => s.enqueueJob j.id .priority) s
    match Store.listByStatus ord₂ s.store .scheduled with
    | .error e => (s, some e)
    | .ok scheduledJobs => (scheduledJobs.foldl (fun s j => s.enqueueJob j.id .delay) s, none)

/-! ## Dispatching -/

/-- The worker `Dispatch` picks and the channel afterwards. -/
def selectWorker (s : Scheduler σ) (jobType : String) : Option WorkerClient × Chan WorkerClient :=
  match s.broker with
  | some b => b.selectWorker jobType s.available
  | none =>
    match s.available.tryRecv with
    | some (w, ch) => (some w, ch)
    | none => (none, s.available)

/-- Whether a dispatch may give a job of this type to the worker; without a broker it may. -/
def canHandle (s : Scheduler σ) (jobType : String) (w : WorkerClient) : Bool :=
  match s.broker with
  | some b => b.canHandle w.id jobType
  | none => true

omit [Store σ] in
theorem selectWorker_selects (s : Scheduler σ) (jobType : String) :
    Selects (s.canHandle jobType) s.available.buf (s.selectWorker jobType).1 (s.selectWorker jobType).2.buf := by
  unfold selectWorker canHandle
  cases s.broker with
  | some b => exact b.selectWorker_selects jobType s.available
  | none =>
    dsimp only
    cases hrecv : s.available.tryRecv with
    | none =>
      rw [Chan.tryRecv_eq_none.1 hrecv]
      exact .none (fun w hw => absurd hw List.not_mem_nil) (List.Perm.refl _)
    | some p =>
      rw [Chan.tryRecv_eq_some hrecv]
      exact .some rfl (List.Perm.refl _)

omit [Store σ] in
/-- The worker that is picked is the first in `Available` that can take the job. -/
theorem selectWorker_first (s : Scheduler σ) (jobType : String) :
    (s.selectWorker jobType).1 = s.available.buf.find? (s.canHandle jobType) := by
  unfold selectWorker canHandle
  cases s.broker with
  | some b => exact (b.selectWorker_eq_pick jobType s.available).1.trans (pick_fst _ _)
  | none =>
    dsimp only
    cases hrecv : s.available.tryRecv with
    | none =>
      rw [Chan.tryRecv_eq_none.1 hrecv]
      rfl
    | some p =>
      rw [Chan.tryRecv_eq_some hrecv]
      rfl

/-- The attempt number of the next lease: one more than that of the lease that is there. -/
def nextAttempt (s : Scheduler σ) (jobID : Int) : Int :=
  match s.leases.get jobID with
  | some lease => lease.attempt + 1
  | none => 1

/-- `Dispatch`. `submit` is the worker's answer: `none` for success, else the error. -/
def dispatch (ctxDone : Bool) (now : Time) (submit : WorkerClient → Job → Option String) (s : Scheduler σ)
    (j : Job) : Dispatched σ :=
  -- the caller has popped the id and does not push it back
  if ctxDone then { sched := s, grants := [], ok := false }
  else
    match s.selectWorker j.type with
    | (none, ch) => { sched := { s with available := ch }.enqueueJob j.id .priority, grants := [], ok := false }
    | (some w, ch) =>
      let attempt := s.nextAttempt j.id
      let lease : Lease := { jobID := j.id, workerID := w.id, term := 1, attempt := attempt }
      let s := { s with available := ch, leases := s.leases.acquire j.id w.id 1 attempt }
      match submit w j with
      -- the worker is not made available again
      | some _ =>
        { sched := (s.release j.id).enqueueJob j.id .priority
          grants := [{ lease := lease, job := j, time := now, accepted := false }], ok := false }
      | none =>
        { sched := s, grants := [{ lease := lease, job := j, time := now, accepted := true }], ok := true }

/-- One round of the inner loop of `dispatchLoop`. -/
def dispatchLoop (ctxDone : Bool) (now : Time) (submit : WorkerClient → Job → Option String) (s : Scheduler σ) :
    Scheduler σ × List Grant :=
  match s.priorityQueue.dequeue priorityComparator s.store with
  | none => (s, [])
  | some (id, q) =>
    let s := { s with priorityQueue := q }
    match Store.get s.store id with
    | none => (s, [])
    | some j =>
      -- a job that has become scheduled since it was queued passes
      if j.status.isTerminal then (s, [])
      else ((s.dispatch ctxDone now submit j).sched, (s.dispatch ctxDone now submit j).grants)

/-! ## Results -/

/-- The check of `resultLoop`: the job is leased under another attempt than a result that names one. -/
def isStale (s : Scheduler σ) (r : Result) : Bool :=
  match s.leases.get r.jobID with
  | some lease => r.attempt > 0 && r.attempt ≠ lease.attempt
  | none => false

/-- The retry branch: count the failure and come back after the backoff. -/
def retryJob (now : Time) (err : String) (j : Job) : Job :=
  let j := { j with retryCount := j.retryCount + 1, status := .scheduled, lastError := err }
  { j with nextRunAt := nextRetryTime now j defaultMaxBackoff }

/-- The last branch: the job goes to the store's dead-letter queue and to the in-memory one. -/
def bury (s : Scheduler σ) (j : Job) : Scheduler σ :=
  { s with store := Store.addDLQ s.store j, dlq := s.dlq.insert j.id j }

/-- One round of `resultLoop`. -/
def resultLoop (now : Time) (r : Result) (s : Scheduler σ) : Scheduler σ :=
  match Store.get s.store r.jobID with
  | none => s
  | some j =>
    if s.isStale r then s
    else
      -- a job without a lease gets here too
      let s := s.release r.jobID
      if r.success then s.tryUpdate { j with status := .completed }
      else
        let err := r.error.getD ""
        if shouldRetry j then
          -- the id is pushed even if the update was refused
          let j := retryJob now err j
          (s.tryUpdate j).enqueueJob j.id .delay
        else
          let j := { j with status := .failed, lastError := err }
          (s.tryUpdate j).bury j

/-! ## Delayed jobs and dead workers -/

/-- `DelayQueue.Dequeue()` with the returned id ignored. -/
def dropDelayed (s : Scheduler σ) : Scheduler σ :=
  match s.delayQueue.dequeue delayComparator s.store with
  | none => s
  | some (_, q) => { s with delayQueue := q }

/-- One round of the loop of `ProcessDelayedJobs`; `none` where it returns. -/
def processDelayedJob (now : Time) (s : Scheduler σ) : Option (Scheduler σ) :=
  match s.delayQueue.peek with
  | none => none
  | some id =>
    match Store.get s.store id with
    | none => some s.dropDelayed
    | some j =>
      if j.nextRunAt > now then none
      else
        -- a refused update ends the job's stay in the queue as well
        let s := s.dropDelayed
        match Store.update s.store { j with status := .pending } with
        | .error _ => some s
        | .ok st => some ({ s with store := st }.enqueueJob id .priority)

/-- A released job goes back to the priority queue if it is still pending. -/
def requeueReleased (s : Scheduler σ) (jobID : Int) : Scheduler σ :=
  match Store.get s.store jobID with
  | some j => if j.status = .pending then s.enqueueJob jobID .priority else s
  | none => s

/-- One round of `recoveryLoop`. -/
def recoveryLoop (ord : RangeOrder Int) (workerID : Int) (s : Scheduler σ) : Scheduler σ :=
  let p := s.leases.releaseByWorker ord workerID
  p.1.foldl requeueReleased { s with leases := p.2 }

/-! ## Rounds -/

/-- What moves the scheduler: a round of one of its loops, or the worker side, which may do anything to
the `Available` channel and to the broker's registrations. -/
inductive Round where
  | workers (available : Chan WorkerClient) (broker : Option Broker)
  | dispatchLoop (now : Time) (submit : WorkerClient → Job → Option String)
  | resultLoop (now : Time) (r : Result)
  | processDelayedJobs (now : Time)
  | recoveryLoop (workerID : Int) (ord : RangeOrder Int)

/-- One round while the scheduler's context is live, with the grants of a dispatch. -/
def round (s : Scheduler σ) : Round → Scheduler σ × List Grant
  | .workers available broker => ({ s with available := available, broker := broker }, [])
  | .dispatchLoop now submit => s.dispatchLoop false now submit
  | .resultLoop now r => (s.resultLoop now r, [])
  | .processDelayedJobs now => ((s.processDelayedJob now).getD s, [])
  | .recoveryLoop workerID ord => (s.recoveryLoop ord workerID, [])

end Scheduler

end Quorum
