/-
The standalone scheduler in the single operations of its goroutines. Each of the four loops has a place in its
code and a value it carries there, each submission under way has one, and a step is the next operation of one
of them on the store, the queues, the lease table or a worker; between any two operations every other goroutine
may go on. `Submit` is a call that begins, hands the job over and returns, in steps of their own.
`standalone_reaches` connects this machine with the rounds of the standalone engine: they are runs of it.
-/
import Quorum.Engine.Grants
import Quorum.Engine.Work

namespace Quorum

/-! ## Where the goroutines are -/

/-- Where `dispatchLoop` is, `Dispatch` included. -/
inductive Dispatching where
  | idle
  /-- `Dequeue` has returned the id. -/
  | dequeued (id : Int)
  /-- `Get` has returned a job that is not terminal, and `Dispatch` is called with it. -/
  | entered (j : Job)
  /-- `SelectWorker` has returned a worker. -/
  | selected (j : Job) (w : WorkerClient)
  /-- `Leases.Get` has been asked for the attempt. -/
  | counted (j : Job) (w : WorkerClient) (attempt : Int)
  /-- `Leases.Acquire` has returned. -/
  | leased (j : Job) (w : WorkerClient) (attempt : Int)
  /-- `Submit` is called; `taken` once the worker has the job. -/
  | submitting (j : Job) (w : WorkerClient) (taken : Bool)
  /-- `Submit` has returned an error. -/
  | refused (j : Job)
  /-- The id is to be pushed onto the priority queue again. -/
  | requeueing (id : Int)

/-- Where `resultLoop` is. -/
inductive Reporting where
  | idle
  /-- A result is received and `Get` has returned its job. -/
  | read (r : Result) (j : Job)
  /-- The result is not stale. -/
  | accepted (r : Result) (j : Job)
  /-- `Leases.Release` has returned. -/
  | released (r : Result) (j : Job)
  /-- The retry is written, and the id is to be pushed onto the delay queue. -/
  | retrying (id : Int)
  /-- The failure is written, and the job is to be buried. -/
  | burying (j : Job)

/-- Where `ProcessDelayedJobs` is. -/
inductive Promoting where
  | idle
  /-- `Peek` has returned the id. -/
  | peeked (id : Int)
  /-- `Get` has found nothing. -/
  | missing
  /-- `Get` has returned a job that is due. -/
  | due (id : Int) (j : Job)
  /-- `Dequeue` has returned. -/
  | dequeued (id : Int) (j : Job)
  /-- The job is written as pending, and the id is to be pushed onto the priority queue. -/
  | promoted (id : Int)

/-- Where `recoveryLoop` is: before the ids it has still to look at, or about to push one of them. -/
inductive Recovering where
  | visiting (ids : List Int)
  | found (id : Int) (rest : List Int)

/-- A submission that has taken its id: the job is to be added to the store, or its id to be pushed. -/
inductive Submitting where
  | made (j : Job) (q : QueueRef)
  | stored (j : Job) (q : QueueRef)

def Submitting.job : Submitting → Job
  | .made j _ => j
  | .stored j _ => j

structure Loops (σ : Type) where
  engine : Engine σ
  dispatcher : Dispatching
  reporter : Reporting
  promoter : Promoting
  recoverer : Recovering
  calls : List Submitting
  /-- The jobs workers were given. The runner of an in-process worker writes its job back. -/
  running : List Job

namespace Loops

/-- A step: an API call begins or goes on, the worker side moves, or a loop makes its next operation. Of the values
an operation needs from outside, `now` is a reading of the clock, `answer` what `Submit` returns, `r` a result
that is received, and `workerID` a worker that is dead. -/
inductive Act where
  | submit (i : Engine.Input)
  | call (n : Nat)
  | cancelJob (id : Int)
  | deleteJob (id : Int)
  | workers (available : Chan WorkerClient) (broker : Option Broker)
  | dispatchLoop (now : Time) (answer : Option String)
  | take
  | resultLoop (now : Time) (r : Result)
  | delayLoop (now : Time)
  | recoveryLoop (workerID : Int) (ord : RangeOrder Int)
  | finish (n : Nat) (err : Option ExecError)

/-- What a step shows: a call of `Submit`, and a `NextRunAt` that `SubmitJobAt` or a retry has stored. -/
inductive Shown where
  | submitted (j : Job) (w : WorkerClient) (now : Time)
  | scheduled (id : Int) (runAt : Time)

/-! ## The next operation of each -/

section
variable {σ : Type} [Store σ]

/-- `dispatchLoop`. -/
def dispatch (now : Time) (answer : Option String) (s : Scheduler σ) :
    Dispatching → Scheduler σ × Dispatching × List Shown
  | .idle =>
    match s.priorityQueue.dequeue priorityComparator s.store with
    | none => (s, .idle, [])
    | some (id, q) => ({ s with priorityQueue := q }, .dequeued id, [])
  | .dequeued id =>
    match Store.get s.store id with
    | none => (s, .idle, [])
    | some j => if j.status.isTerminal then (s, .idle, []) else (s, .entered j, [])
  | .entered j =>
    match s.selectWorker j.type with
    | (none, ch) => ({ s with available := ch }, .requeueing j.id, [])
    | (some w, ch) => ({ s with available := ch }, .selected j w, [])
  | .selected j w => (s, .counted j w (s.nextAttempt j.id), [])
  | .counted j w attempt =>
    ({ s with leases := s.leases.acquire j.id w.id 1 attempt }, .leased j w attempt, [])
  | .leased j w _ => (s, .submitting j w false, [.submitted j w now])
  | .submitting j w taken =>
    match answer with
    | some _ => (s, .refused j, [])
    -- `Submit` succeeds once the worker has the job, and blocks until then
    | none => if taken then (s, .idle, []) else (s, .submitting j w taken, [])
  | .refused j => (s.release j.id, .requeueing j.id, [])
  | .requeueing id => (s.enqueueJob id .priority, .idle, [])

/-- `resultLoop`. -/
def report (now : Time) (r : Result) (s : Scheduler σ) : Reporting → Scheduler σ × Reporting × List Shown
  | .idle =>
    match Store.get s.store r.jobID with
    | none => (s, .idle, [])
    | some j => (s, .read r j, [])
  | .read r j => if s.isStale r then (s, .idle, []) else (s, .accepted r j, [])
  | .accepted r j => (s.release r.jobID, .released r j, [])
  | .released r j =>
    if r.success then (s.tryUpdate { j with status := .completed }, .idle, [])
    else
      let err := r.error.getD ""
      if shouldRetry j then
        let j := Scheduler.retryJob now err j
        match Store.update s.store j with
        | .error _ => (s, .retrying j.id, [])
        | .ok st => ({ s with store := st }, .retrying j.id, [.scheduled j.id j.nextRunAt])
      else
        let j := { j with status := .failed, lastError := err }
        (s.tryUpdate j, .burying j, [])
  | .retrying id => (s.enqueueJob id .delay, .idle, [])
  | .burying j => (s.bury j, .idle, [])

/-- `ProcessDelayedJobs`. -/
def promote (now : Time) (s : Scheduler σ) : Promoting → Scheduler σ × Promoting
  | .idle =>
    match s.delayQueue.peek with
    | none => (s, .idle)
    | some id => (s, .peeked id)
  | .peeked id =>
    match Store.get s.store id with
    | none => (s, .missing)
    | some j => if j.nextRunAt > now then (s, .idle) else (s, .due id j)
  | .missing => (s.dropDelayed, .idle)
  -- `Dequeue` takes whatever is first by now
  | .due id j => (s.dropDelayed, .dequeued id j)
  | .dequeued id j =>
    match Store.update s.store { j with status := .pending } with
    | .error _ => (s, .idle)
    | .ok st => ({ s with store := st }, .promoted id)
  | .promoted id => (s.enqueueJob id .priority, .idle)

/-- `recoveryLoop`. -/
def recover (workerID : Int) (ord : RangeOrder Int) (s : Scheduler σ) : Recovering → Scheduler σ × Recovering
  | .visiting [] =>
    let p := s.leases.releaseByWorker ord workerID
    ({ s with leases := p.2 }, .visiting p.1)
  | .visiting (id :: rest) =>
    match Store.get s.store id with
    | none => (s, .visiting rest)
    | some j => if j.status = .pending then (s, .found id rest) else (s, .visiting rest)
  | .found id rest => (s.enqueueJob id .priority, .visiting rest)

/-- The goroutines around an engine before any of them has begun. -/
def start (e : Engine σ) : Loops σ :=
  { engine := e, dispatcher := .idle, reporter := .idle, promoter := .idle, recoverer := .visiting [], calls := [],
    running := [] }

def scheduler (s : Loops σ) : Scheduler σ := s.engine.scheduler

def store (s : Loops σ) : σ := s.scheduler.store

def withScheduler (s : Loops σ) (sch : Scheduler σ) : Loops σ := { s with engine := s.engine.withScheduler sch }

def withStore (s : Loops σ) (st : σ) : Loops σ := { s with engine := s.engine.withStore st }

/-- A submission of `j` waits for `submitMu`, or finds its key: `SubmitJobIdempotent` holds the mutex to its end. -/
def blocked (s : Loops σ) (j : Job) : Bool :=
  j.idempotencyKey ≠ "" && (s.calls.any (fun c => c.job.idempotencyKey ≠ "") ||
    (Store.findByIdempotencyKey s.store j.idempotencyKey).isSome)

/-- What the `Add` of a submission shows. -/
def setTime (j : Job) : QueueRef → List Shown
  | .priority => []
  | .delay => [.scheduled j.id j.nextRunAt]

def step (s : Loops σ) : Act → Loops σ × List Shown
  | .submit i =>
    match i.newJob (s.engine.nextJobID + 1) with
    | none => (s, [])
    | some (q, j) =>
      if s.blocked j then (s, []) else ({ s with engine := s.engine.takeID, calls := s.calls ++ [.made j q] }, [])
  | .call n =>
    match s.calls[n]? with
    | none => (s, [])
    | some (.made j q) =>
      match Store.add s.store j with
      | .error _ => ({ s with calls := s.calls.eraseIdx n }, [])
      | .ok st => ({ s.withStore st with calls := s.calls.set n (.stored j q) }, setTime j q)
    | some (.stored j q) => ({ s.withScheduler (s.scheduler.enqueueJob j.id q) with calls := s.calls.eraseIdx n }, [])
  | .cancelJob id => (s.withStore (orUnchanged s.store (Store.cancel s.store id)).1, [])
  | .deleteJob id => (s.withStore (Store.delete s.store id).2, [])
  | .workers available broker => (s.withScheduler { s.scheduler with available := available, broker := broker }, [])
  | .dispatchLoop now answer =>
    let p := dispatch now answer s.scheduler s.dispatcher
    ({ s.withScheduler p.1 with dispatcher := p.2.1 }, p.2.2)
  | .take =>
    match s.dispatcher with
    | .submitting j w false => ({ s with dispatcher := .submitting j w true, running := j :: s.running }, [])
    | _ => (s, [])
  | .resultLoop now r =>
    let p := report now r s.scheduler s.reporter
    ({ s.withScheduler p.1 with reporter := p.2.1 }, p.2.2)
  | .delayLoop now =>
    let p := promote now s.scheduler s.promoter
    ({ s.withScheduler p.1 with promoter := p.2 }, [])
  | .recoveryLoop workerID ord =>
    let p := recover workerID ord s.scheduler s.recoverer
    ({ s.withScheduler p.1 with recoverer := p.2 }, [])
  | .finish n err =>
    match s.running[n]? with
    | none => (s, [])
    | some j => ({ s with engine := s.engine.finish j err, running := s.running.eraseIdx n }, [])

end

end Loops

/-- A standalone scheduler, its API calls and its in-process runners, operation by operation. -/
def loops {σ : Type} [Store σ] : Machine (Loops σ) Loops.Act Loops.Shown := ⟨Loops.step⟩

namespace Loops

variable {σ : Type} [LawfulStore σ]

/-! ## The rounds are runs -/

/-- The goroutines in the middle of nothing, while workers execute `running`. -/
def resting (e : Engine σ) (running : List Job) : Loops σ := { start e with running := running }

/-- Steps of the loops lead from rest to rest, with `e'` for `e`. -/
def Reaches (e e' : Engine σ) : Prop :=
  ∀ running, ∃ acts running', loops.exec (resting e running) acts = resting e' running'

theorem Reaches.refl (e : Engine σ) : Reaches e e := fun running => ⟨[], running, rfl⟩

theorem Reaches.trans {e₁ e₂ e₃ : Engine σ} (h : Reaches e₁ e₂) (h' : Reaches e₂ e₃) : Reaches e₁ e₃ := by
  intro running
  obtain ⟨acts, running₂, hacts⟩ := h running
  obtain ⟨acts', running₃, hacts'⟩ := h' running₂
  exact ⟨acts ++ acts', running₃, by rw [Machine.exec_append, hacts, hacts']⟩

section
variable (e : Engine σ)

/-- One act that leaves the goroutines at rest. -/
theorem Reaches.act {e e' : Engine σ} (a : Act)
    (h : ∀ running, ((resting e running).step a).1 = resting e' running) : Reaches e e' :=
  fun running => ⟨[a], running, h running⟩

theorem dispatch_reaches (now : Time) (submit : WorkerClient → Job → Option String) {id : Int} {q : JobQueue} {j : Job}
    (hq : e.scheduler.priorityQueue.dequeue priorityComparator e.scheduler.store = some (id, q))
    (hj : Store.get e.scheduler.store id = some j) (ht : j.status.isTerminal = false) :
    Reaches e
      (e.withScheduler (Scheduler.dispatch false now submit { e.scheduler with priorityQueue := q } j).sched) := by
  intro running
  let op : Act := .dispatchLoop now none
  unfold Scheduler.dispatch
  simp only [Bool.false_eq_true, if_false]
  split
  · rename_i ch hw
    refine ⟨[op, op, op, op], running, ?_⟩
    simp [op, loops, step, dispatch, resting, start, scheduler, withScheduler, Engine.withScheduler, hq, hj, ht, hw]
  · rename_i w ch hw
    cases hs : submit w j with
    | none =>
      refine ⟨[op, op, op, op, op, op, .take, op], j :: running, ?_⟩
      simp [op, loops, step, dispatch, resting, start, scheduler, withScheduler, Engine.withScheduler, hq, hj, ht, hw]
      rfl
    | some err =>
      refine ⟨[op, op, op, op, op, op, .dispatchLoop now (some err), op, op], running, ?_⟩
      simp [op, loops, step, dispatch, resting, start, scheduler, withScheduler, Engine.withScheduler, hq, hj, ht, hw]
      rfl

theorem dispatchLoop_reaches (now : Time) (submit : WorkerClient → Job → Option String) :
    Reaches e (e.withScheduler (e.scheduler.dispatchLoop false now submit).1) := by
  let op : Act := .dispatchLoop now none
  unfold Scheduler.dispatchLoop
  split
  · exact .refl e
  · rename_i id q hq
    dsimp only
    split
    · rename_i hj
      refine fun running => ⟨[op, op], running, ?_⟩
      simp [op, loops, step, dispatch, resting, start, scheduler, withScheduler, Engine.withScheduler, hq, hj]
    · rename_i j hj
      cases ht : j.status.isTerminal with
      | true =>
        refine fun running => ⟨[op, op], running, ?_⟩
        simp [op, loops, step, dispatch, resting, start, scheduler, withScheduler, Engine.withScheduler, hq, hj, ht]
      | false => exact dispatch_reaches e now submit hq hj ht

theorem resultLoop_reaches (now : Time) (r : Result) :
    Reaches e (e.withScheduler (e.scheduler.resultLoop now r)) := by
  let op : Act := .resultLoop now r
  unfold Scheduler.resultLoop
  split
  · exact .refl e
  · rename_i j hj
    split
    · exact .refl e
    · rename_i hstale
      cases hok : r.success with
      | true =>
        refine fun running => ⟨[op, op, op, op], running, ?_⟩
        simp [op, loops, step, report, resting, start, scheduler, withScheduler, Engine.withScheduler, hj, hstale, hok]
      | false =>
        cases hretry : shouldRetry j with
        | true =>
          refine fun running => ⟨[op, op, op, op, op], running, ?_⟩
          cases hu : Store.update e.scheduler.store (Scheduler.retryJob now (r.error.getD "") j) with
          | error err =>
            simp [op, loops, step, report, resting, start, scheduler, withScheduler, Engine.withScheduler, hj, hstale,
              hok, hretry, hu, Scheduler.release, Scheduler.tryUpdate, Store.tryUpdate, orUnchanged]
          | ok st =>
            simp [op, loops, step, report, resting, start, scheduler, withScheduler, Engine.withScheduler, hj, hstale,
              hok, hretry, hu, Scheduler.release, Scheduler.tryUpdate, Store.tryUpdate, orUnchanged]
        | false =>
          refine fun running => ⟨[op, op, op, op, op], running, ?_⟩
          simp [op, loops, step, report, resting, start, scheduler, withScheduler, Engine.withScheduler, hj, hstale,
            hok, hretry]

theorem processDelayedJob_reaches (now : Time) :
    Reaches e (e.withScheduler ((e.scheduler.processDelayedJob now).getD e.scheduler)) := by
  let op : Act := .delayLoop now
  unfold Scheduler.processDelayedJob
  split
  · exact .refl e
  · rename_i id hpeek
    split
    · rename_i hj
      refine fun running => ⟨[op, op, op], running, ?_⟩
      simp [op, loops, step, promote, resting, start, scheduler, withScheduler, Engine.withScheduler, hpeek, hj]
    · rename_i j hj
      split
      · exact .refl e
      · rename_i hdue
        have hdue' : ¬ now < j.nextRunAt := hdue
        dsimp only
        rw [Scheduler.dropDelayed_store]
        cases hu : Store.update e.scheduler.store { j with status := .pending } with
        | error err =>
          refine fun running => ⟨[op, op, op, op], running, ?_⟩
          simp [op, loops, step, promote, resting, start, scheduler, withScheduler, Engine.withScheduler, hpeek, hj,
            hdue', Scheduler.dropDelayed_store, hu]
        | ok st =>
          refine fun running => ⟨[op, op, op, op, op], running, ?_⟩
          simp [op, loops, step, promote, resting, start, scheduler, withScheduler, Engine.withScheduler, hpeek, hj,
            hdue', Scheduler.dropDelayed_store, hu]

/-- `recoveryLoop` looks at the next of the ids it has released. -/
theorem visit_reaches (workerID : Int) (ord : RangeOrder Int) (running : List Job) (id : Int) (ids : List Int) :
    ∃ acts, loops.exec { resting e running with recoverer := .visiting (id :: ids) } acts =
      { resting (e.withScheduler (e.scheduler.requeueReleased id)) running with recoverer := .visiting ids } := by
  let op : Act := .recoveryLoop workerID ord
  unfold Scheduler.requeueReleased
  cases hj : Store.get e.scheduler.store id with
  | none =>
    refine ⟨[op], ?_⟩
    simp [op, loops, step, recover, resting, start, scheduler, withScheduler, Engine.withScheduler, hj]
  | some j =>
    by_cases hp : j.status = .pending
    · refine ⟨[op, op], ?_⟩
      simp [op, loops, step, recover, resting, start, scheduler, withScheduler, Engine.withScheduler, hj, hp]
    · refine ⟨[op], ?_⟩
      simp [op, loops, step, recover, resting, start, scheduler, withScheduler, Engine.withScheduler, hj, hp]

theorem visiting_reaches (workerID : Int) (ord : RangeOrder Int) (running : List Job) :
    ∀ (ids : List Int) (e : Engine σ), ∃ acts, loops.exec { resting e running with recoverer := .visiting ids } acts =
      resting (e.withScheduler (ids.foldl Scheduler.requeueReleased e.scheduler)) running
  | [], e => ⟨[], rfl⟩
  | id :: ids, e => by
    obtain ⟨first, hfirst⟩ := visit_reaches e workerID ord running id ids
    obtain ⟨rest, hrest⟩ := visiting_reaches workerID ord running ids (e.withScheduler (e.scheduler.requeueReleased id))
    exact ⟨first ++ rest, by rw [Machine.exec_append, hfirst, hrest]; rfl⟩

theorem recoveryLoop_reaches (workerID : Int) (ord : RangeOrder Int) :
    Reaches e (e.withScheduler (e.scheduler.recoveryLoop ord workerID)) := by
  intro running
  obtain ⟨acts, hacts⟩ := visiting_reaches workerID ord running (e.scheduler.leases.releaseByWorker ord workerID).1
    (e.withScheduler { e.scheduler with leases := (e.scheduler.leases.releaseByWorker ord workerID).2 })
  exact ⟨.recoveryLoop workerID ord :: acts, running, hacts⟩

/-- A submission that nothing blocks. -/
theorem accept_reaches (what : String) {i : Engine.Input} {q : QueueRef} {j : Job}
    (hi : i.newJob (e.nextJobID + 1) = some (q, j)) (hfree : ∀ running, (resting e running).blocked j = false) :
    Reaches e (e.takeID.accept none what q j).2 := by
  intro running
  have hmade : ((resting e running).step (.submit i)).1 =
      { resting e.takeID running with calls := [.made j q] } := by
    simp only [step]
    rw [show (resting e running).engine = e from rfl, hi]
    dsimp only
    rw [hfree running]
    rfl
  unfold Engine.accept
  cases hadd : Store.add e.scheduler.store j with
  | error err =>
    refine ⟨[.submit i, .call 0], running, ?_⟩
    show ((((resting e running).step (.submit i)).1).step (.call 0)).1 = _
    rw [hmade]
    simp [step, resting, start, store, scheduler, Engine.takeID, hadd]
  | ok st =>
    refine ⟨[.submit i, .call 0, .call 0], running, ?_⟩
    show (((((resting e running).step (.submit i)).1).step (.call 0)).1.step (.call 0)).1 = _
    rw [hmade]
    simp [step, resting, start, store, scheduler, Engine.takeID, hadd, withStore, withScheduler, Engine.withStore,
      Engine.enqueue, Engine.withScheduler]

/-- Every input of the standalone engine is a run of the loops. -/
theorem input_reaches (i : Engine.Input) : Reaches e (e.step none i).1 := by
  have hfree : ∀ (j : Job), j.idempotencyKey = "" → ∀ running, (resting e running).blocked j = false := by
    intro j hj running
    simp [blocked, hj]
  cases i with
  | submitJob jobType priority =>
    exact accept_reaches e "add_job" (i := .submitJob jobType priority) rfl (hfree _ rfl)
  | submitJobAt jobType priority runAt =>
    exact accept_reaches e "add_job_at" (i := .submitJobAt jobType priority runAt) rfl (hfree _ rfl)
  | submitJobIdempotent key jobType priority =>
    show Reaches e (e.submitJobIdempotent none key jobType priority).2
    unfold Engine.submitJobIdempotent
    split
    · exact accept_reaches e "add_job" (i := .submitJob jobType priority) rfl (hfree _ rfl)
    · split
      · exact .refl e
      · rename_i hfind
        refine accept_reaches e _ (i := .submitJobIdempotent key jobType priority) rfl fun running => ?_
        simp [blocked, resting, start]
        exact fun _ => hfind
  | cancelJob id => exact .act (.cancelJob id) fun _ => rfl
  | deleteJob id => exact .act (.deleteJob id) fun _ => rfl
  | round r =>
    cases r with
    | workers available broker => exact .act (.workers available broker) fun _ => rfl
    | dispatchLoop now submit => exact dispatchLoop_reaches e now submit
    | resultLoop now r => exact resultLoop_reaches e now r
    | processDelayedJobs now => exact processDelayedJob_reaches e now
    | recoveryLoop workerID ord => exact recoveryLoop_reaches e workerID ord

/-- Every run of the standalone engine is a run of the loops. -/
theorem standalone_reaches (is : List Engine.Input) : Reaches e (Engine.standalone.exec e is) := by
  induction is generalizing e with
  | nil => exact .refl e
  | cons i is ih => exact (input_reaches e i).trans (ih _)

end

end Loops

end Quorum
