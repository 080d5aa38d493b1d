/-
A standalone server in its atomic steps, through restarts. The loops of the scheduler and the in-process runners
read a job with `Store.Get`, change their copy and write the copy back with `Store.Update`; here the read and
the write are steps of their own, and every other step may come in between. `SubmitJobIdempotent` is taken
apart the same way, into its lookup and its insertion under `submitMu`. `step_outcome` says once what an act can
do, and `step_store` what it can do to the store.
-/
import Quorum.Engine.Rebuild
import Quorum.Engine.Work

namespace Quorum

/-! ## The loops in two halves -/

namespace Scheduler

variable {σ : Type} [Store σ]

/-- `dispatchLoop` up to its check of the status: the id it dequeued and the job it goes on with. -/
def takeReady (s : Scheduler σ) : Scheduler σ × Option Int × Option Job :=
  match s.priorityQueue.dequeue priorityComparator s.store with
  | none => (s, none, none)
  | some (id, q) =>
    ({ s with priorityQueue := q }, some id, (Store.get s.store id).filter fun j => !j.status.isTerminal)

/-- `resultLoop` once `Get` has returned `j`. -/
def applyResult (now : Time) (r : Result) (j : Job) (s : Scheduler σ) : Scheduler σ :=
  if s.isStale r then s
  else
    let s := s.release r.jobID
    if r.success then s.tryUpdate { j with status := .completed }
    else
      let err := r.error.getD ""
      if shouldRetry j then
        let j := retryJob now err j
        (s.tryUpdate j).enqueueJob j.id .delay
      else
        let j := { j with status := .failed, lastError := err }
        (s.tryUpdate j).bury j

/-- `ProcessDelayedJobs` up to its check of the time: the id it peeked and the due job it goes on with. -/
def readDelayed (now : Time) (s : Scheduler σ) : Scheduler σ × Option (Int × Job) :=
  match s.delayQueue.peek with
  | none => (s, none)
  | some id =>
    match Store.get s.store id with
    | none => (s.dropDelayed, none)
    | some j => (s, if j.nextRunAt > now then none else some (id, j))

/-- The rest of the round. `Dequeue` takes whatever is first by now. -/
def promote (id : Int) (j : Job) (s : Scheduler σ) : Scheduler σ :=
  let s := s.dropDelayed
  match Store.update s.store { j with status := .pending } with
  | .error _ => s
  | .ok st => { s with store := st }.enqueueJob id .priority

theorem dispatchLoop_halves (now : Time) (submit : WorkerClient → Job → Option String) (s : Scheduler σ) :
    s.dispatchLoop false now submit = match s.takeReady.2.2 with
      | none => (s.takeReady.1, [])
      | some j =>
          ((s.takeReady.1.dispatch false now submit j).sched, (s.takeReady.1.dispatch false now submit j).grants) := by
  unfold dispatchLoop takeReady
  cases s.priorityQueue.dequeue priorityComparator s.store with
  | none => rfl
  | some p =>
    dsimp only
    cases Store.get s.store p.1 with
    | none => rfl
    | some j => cases hj : j.status.isTerminal <;> simp [Option.filter, hj]

theorem resultLoop_halves (now : Time) (r : Result) (s : Scheduler σ) :
    s.resultLoop now r = match Store.get s.store r.jobID with
      | none => s
      | some j => s.applyResult now r j := rfl

theorem processDelayedJob_halves (now : Time) (s : Scheduler σ) :
    (s.processDelayedJob now).getD s = match (s.readDelayed now).2 with
      | none => (s.readDelayed now).1
      | some (id, j) => (s.readDelayed now).1.promote id j := by
  unfold processDelayedJob readDelayed
  cases s.delayQueue.peek with
  | none => rfl
  | some id =>
    dsimp only
    cases Store.get s.store id with
    | none => rfl
    | some j =>
      dsimp only
      split
      · rfl
      · unfold promote
        dsimp only
        cases Store.update s.dropDelayed.store { j with status := .pending } <;> rfl

end Scheduler

/-! ## The server -/

structure Server (σ : Type) where
  engine : Engine σ
  /-- Key, type and priority of the `SubmitJobIdempotent` call that holds `submitMu` and has found nothing. -/
  submitting : Option (String × String × Int)
  /-- What `dispatchLoop`, `resultLoop`, `ProcessDelayedJobs` and `recoveryLoop` are in the middle of. -/
  dispatching : Option Job
  reporting : Option (Result × Job)
  promoting : Option (Int × Job)
  recovering : List Int
  /-- The jobs in-process workers were given and have not written back. -/
  running : List Job

namespace Server

/-- A step of the server. `restart` is the end of the process, by `Stop` or a crash, and the next boot on the
same store, as with a `BoltStore`. -/
inductive Act where
  | submitJob (jobType : String) (priority : Int)
  | submitJobAt (jobType : String) (priority : Int) (runAt : Time)
  | findKey (key jobType : String) (priority : Int)
  | addKeyed
  | cancelJob (id : Int)
  | deleteJob (id : Int)
  | workers (available : Chan WorkerClient) (broker : Option Broker)
  | takeReady
  | dispatch (now : Time) (submit : WorkerClient → Job → Option String)
  | readResult (r : Result)
  | writeResult (now : Time)
  | readDelayed (now : Time)
  | writeDelayed
  | releaseWorker (workerID : Int) (ord : RangeOrder Int)
  | requeueReleased
  | finish (n : Nat) (err : Option ExecError)
  | restart (available : Chan WorkerClient) (broker : Option Broker) (ord ord₁ ord₂ ord₃ ord₄ : RangeOrder Int)

def Act.isRestart : Act → Bool
  | .restart _ _ _ _ _ _ _ => true
  | _ => false

/-- What an act shows: the answer of a submission, the start of an iteration of `dispatchLoop` with the id it
dequeued, and a grant. -/
inductive Shown where
  | returned (key : String) (j : Job) (duplicate : Bool)
  | started (id : Int)
  | granted (g : Grant)

variable {σ : Type} [LawfulStore σ]

def store (s : Server σ) : σ := s.engine.scheduler.store

/-- The copies of jobs that are around. -/
def held (s : Server σ) : List Job :=
  s.dispatching.toList ++ (s.reporting.map Prod.snd).toList ++ (s.promoting.map Prod.snd).toList ++ s.running

/-- The answer of a submission that made a new job. -/
def answer (key : String) : Except String Job → List Shown
  | .ok j => [.returned key j false]
  | .error _ => []

/-- `SubmitJobIdempotent` once `FindByIdempotencyKey` has found nothing. -/
def addKeyed (e : Engine σ) (key jobType : String) (priority : Int) : Except String Job × Engine σ :=
  let e := e.takeID
  e.accept none "add_job (idempotent)" .priority { Job.newJob e.nextJobID jobType priority with idempotencyKey := key }

theorem submitJobIdempotent_halves (e : Engine σ) {key : String} (hk : key ≠ "") (jobType : String) (priority : Int) :
    e.submitJobIdempotent none key jobType priority =
      match Store.findByIdempotencyKey e.scheduler.store key with
      | some existing => (.ok (existing, true), e)
      | none => ((addKeyed e key jobType priority).1.map fun j => (j, false), (addKeyed e key jobType priority).2) := by
  unfold Engine.submitJobIdempotent
  rw [if_neg hk]
  rfl

/-- A server after its boot. -/
def start (st : σ) (available : Chan WorkerClient) (broker : Option Broker) (ord ord₁ ord₂ ord₃ ord₄ : RangeOrder Int) :
    Server σ :=
  { engine := Engine.boot st available broker ord ord₁ ord₂ ord₃ ord₄, submitting := none, dispatching := none,
    reporting := none, promoting := none, recovering := [], running := [] }

def withEngine (s : Server σ) (e : Engine σ) : Server σ := { s with engine := e }

def withScheduler (s : Server σ) (sch : Scheduler σ) : Server σ := s.withEngine (s.engine.withScheduler sch)

/-- An act that finds its loop busy, or nothing to go on with, changes nothing: each loop is one goroutine, and
`submitMu` is held by one call. -/
def step (s : Server σ) : Act → Server σ × List Shown
  | .submitJob jobType priority =>
    let p := s.engine.submitJob none jobType priority
    (s.withEngine p.2, answer "" p.1)
  | .submitJobAt jobType priority runAt =>
    let p := s.engine.submitJobAt none jobType priority runAt
    (s.withEngine p.2, answer "" p.1)
  | .findKey key jobType priority =>
    -- without a key the call is `SubmitJob`
    if key = "" then (s, [])
    else
      match s.submitting with
      | some _ => (s, [])
      | none =>
        match Store.findByIdempotencyKey s.store key with
        | some existing => (s, [.returned key existing true])
        | none => ({ s with submitting := some (key, jobType, priority) }, [])
  | .addKeyed =>
    match s.submitting with
    | none => (s, [])
    | some (key, jobType, priority) =>
      let p := addKeyed s.engine key jobType priority
      ({ s with engine := p.2, submitting := none }, answer key p.1)
  | .cancelJob id => (s.withEngine (s.engine.cancelJob none id).2, [])
  | .deleteJob id => (s.withEngine (s.engine.deleteJob none id).2, [])
  | .workers available broker =>
    (s.withScheduler { s.engine.scheduler with available := available, broker := broker }, [])
  | .takeReady =>
    match s.dispatching with
    | some _ => (s, [])
    | none =>
      let p := s.engine.scheduler.takeReady
      ({ s.withScheduler p.1 with dispatching := p.2.2 }, p.2.1.toList.map .started)
  | .dispatch now submit =>
    match s.dispatching with
    | none => (s, [])
    | some j =>
      let d := s.engine.scheduler.dispatch false now submit j
      ({ s.withScheduler d.sched with dispatching := none, running := if d.ok then j :: s.running else s.running },
        d.grants.map .granted)
  | .readResult r =>
    match s.reporting with
    | some _ => (s, [])
    | none => ({ s with reporting := (Store.get s.store r.jobID).map fun j => (r, j) }, [])
  | .writeResult now =>
    match s.reporting with
    | none => (s, [])
    | some (r, j) => ({ s.withScheduler (s.engine.scheduler.applyResult now r j) with reporting := none }, [])
  | .readDelayed now =>
    match s.promoting with
    | some _ => (s, [])
    | none =>
      let p := s.engine.scheduler.readDelayed now
      ({ s.withScheduler p.1 with promoting := p.2 }, [])
  | .writeDelayed =>
    match s.promoting with
    | none => (s, [])
    | some (id, j) => ({ s.withScheduler (s.engine.scheduler.promote id j) with promoting := none }, [])
  | .releaseWorker workerID ord =>
    match s.recovering with
    | _ :: _ => (s, [])
    | [] =>
      let p := s.engine.scheduler.leases.releaseByWorker ord workerID
      ({ s.withScheduler { s.engine.scheduler with leases := p.2 } with recovering := p.1 }, [])
  | .requeueReleased =>
    match s.recovering with
    | [] => (s, [])
    | id :: rest => ({ s.withScheduler (s.engine.scheduler.requeueReleased id) with recovering := rest }, [])
  | .finish n err =>
    match s.running[n]? with
    | none => (s, [])
    | some j => ({ s.withEngine (s.engine.finish j err) with running := s.running.eraseIdx n }, [])
  | .restart available broker ord ord₁ ord₂ ord₃ ord₄ =>
    (start s.store available broker ord ord₁ ord₂ ord₃ ord₄, [])

end Server

/-- A standalone server through its restarts. -/
def server {σ : Type} [LawfulStore σ] : Machine (Server σ) Server.Act Server.Shown := ⟨Server.step⟩

namespace Server

variable {σ : Type} [LawfulStore σ]

/-! ## What an act does, once and for all -/

/-- The act finds its loop free, or something to go on with. -/
def Enabled (s : Server σ) : Act → Prop
  | .findKey key _ _ => key ≠ "" ∧ s.submitting = none
  | .addKeyed => s.submitting ≠ none
  | .takeReady => s.dispatching = none
  | .dispatch _ _ => s.dispatching ≠ none
  | .readResult _ => s.reporting = none
  | .writeResult _ => s.reporting ≠ none
  | .readDelayed _ => s.promoting = none
  | .writeDelayed => s.promoting ≠ none
  | .releaseWorker _ _ => s.recovering = []
  | .requeueReleased => s.recovering ≠ []
  | .finish n _ => s.running[n]? ≠ none
  | _ => True

/-- The cases of `step`, with what each finds. -/
inductive Outcome (s : Server σ) : Act → Server σ × List Shown → Prop
  | idle {a : Act} (h : ¬ s.Enabled a) : Outcome s a (s, [])
  | submitJob {jobType : String} {priority : Int} : Outcome s (.submitJob jobType priority)
      (s.withEngine (s.engine.submitJob none jobType priority).2,
        answer "" (s.engine.submitJob none jobType priority).1)
  | submitJobAt {jobType : String} {priority : Int} {runAt : Time} : Outcome s (.submitJobAt jobType priority runAt)
      (s.withEngine (s.engine.submitJobAt none jobType priority runAt).2,
        answer "" (s.engine.submitJobAt none jobType priority runAt).1)
  | found {key jobType : String} {priority : Int} {existing : Job} (hkey : key ≠ "")
      (hfind : Store.findByIdempotencyKey s.store key = some existing) :
      Outcome s (.findKey key jobType priority) (s, [.returned key existing true])
  | notFound {key jobType : String} {priority : Int} (hkey : key ≠ "")
      (hfind : Store.findByIdempotencyKey s.store key = none) :
      Outcome s (.findKey key jobType priority) ({ s with submitting := some (key, jobType, priority) }, [])
  | addKeyed {key jobType : String} {priority : Int} (hsub : s.submitting = some (key, jobType, priority)) :
      Outcome s .addKeyed ({ s with engine := (addKeyed s.engine key jobType priority).2, submitting := none },
        answer key (addKeyed s.engine key jobType priority).1)
  | cancelJob {id : Int} : Outcome s (.cancelJob id) (s.withEngine (s.engine.cancelJob none id).2, [])
  | deleteJob {id : Int} : Outcome s (.deleteJob id) (s.withEngine (s.engine.deleteJob none id).2, [])
  | workers {available : Chan WorkerClient} {broker : Option Broker} : Outcome s (.workers available broker)
      (s.withScheduler { s.engine.scheduler with available := available, broker := broker }, [])
  | takeReady (hfree : s.dispatching = none) : Outcome s .takeReady
      ({ s.withScheduler s.engine.scheduler.takeReady.1 with dispatching := s.engine.scheduler.takeReady.2.2 },
        s.engine.scheduler.takeReady.2.1.toList.map .started)
  | dispatch {now : Time} {submit : WorkerClient → Job → Option String} {j : Job} (hj : s.dispatching = some j) :
      Outcome s (.dispatch now submit)
        ({ s.withScheduler (s.engine.scheduler.dispatch false now submit j).sched with
            dispatching := none
            running := if (s.engine.scheduler.dispatch false now submit j).ok then j :: s.running else s.running },
          (s.engine.scheduler.dispatch false now submit j).grants.map .granted)
  | readResult {r : Result} (hfree : s.reporting = none) : Outcome s (.readResult r)
      ({ s with reporting := (Store.get s.store r.jobID).map fun j => (r, j) }, [])
  | writeResult {now : Time} {r : Result} {j : Job} (hj : s.reporting = some (r, j)) : Outcome s (.writeResult now)
      ({ s.withScheduler (s.engine.scheduler.applyResult now r j) with reporting := none }, [])
  | readDelayed {now : Time} (hfree : s.promoting = none) : Outcome s (.readDelayed now)
      ({ s.withScheduler (s.engine.scheduler.readDelayed now).1 with
        promoting := (s.engine.scheduler.readDelayed now).2 }, [])
  | writeDelayed {id : Int} {j : Job} (hj : s.promoting = some (id, j)) : Outcome s .writeDelayed
      ({ s.withScheduler (s.engine.scheduler.promote id j) with promoting := none }, [])
  | releaseWorker {workerID : Int} {ord : RangeOrder Int} (hfree : s.recovering = []) :
      Outcome s (.releaseWorker workerID ord)
      ({ s.withScheduler
          { s.engine.scheduler with leases := (s.engine.scheduler.leases.releaseByWorker ord workerID).2 } with
          recovering := (s.engine.scheduler.leases.releaseByWorker ord workerID).1 }, [])
  | requeueReleased {id : Int} {rest : List Int} (hid : s.recovering = id :: rest) : Outcome s .requeueReleased
      ({ s.withScheduler (s.engine.scheduler.requeueReleased id) with recovering := rest }, [])
  | finish {n : Nat} {err : Option ExecError} {j : Job} (hj : s.running[n]? = some j) : Outcome s (.finish n err)
      ({ s.withEngine (s.engine.finish j err) with running := s.running.eraseIdx n }, [])
  | restart {available : Chan WorkerClient} {broker : Option Broker} {ord ord₁ ord₂ ord₃ ord₄ : RangeOrder Int} :
      Outcome s (.restart available broker ord ord₁ ord₂ ord₃ ord₄)
        (start s.store available broker ord ord₁ ord₂ ord₃ ord₄, [])

theorem step_outcome (s : Server σ) (a : Act) : s.Outcome a (s.step a) := by
  cases a with
  | submitJob jobType priority => exact .submitJob
  | submitJobAt jobType priority runAt => exact .submitJobAt
  | cancelJob id => exact .cancelJob
  | deleteJob id => exact .deleteJob
  | workers available broker => exact .workers
  | restart available broker ord ord₁ ord₂ ord₃ ord₄ => exact .restart
  | findKey key jobType priority =>
    simp only [step]
    split
    · rename_i hkey
      exact .idle fun h => h.1 hkey
    · rename_i hkey
      split
      · rename_i p hbusy
        refine .idle fun h => ?_
        cases hbusy.symm.trans h.2
      · split
        · rename_i existing hfind
          exact .found hkey hfind
        · rename_i hfind
          exact .notFound hkey hfind
  | addKeyed =>
    simp only [step]
    split
    · rename_i hnone
      exact .idle fun h => h hnone
    · rename_i key jobType priority hsub
      exact .addKeyed hsub
  | takeReady =>
    simp only [step]
    split
    · rename_i j hbusy
      refine .idle fun h => ?_
      cases hbusy.symm.trans h
    · rename_i hfree
      exact .takeReady hfree
  | dispatch now submit =>
    simp only [step]
    split
    · rename_i hnone
      exact .idle fun h => h hnone
    · rename_i j hj
      exact .dispatch hj
  | readResult r =>
    simp only [step]
    split
    · rename_i p hbusy
      refine .idle fun h => ?_
      cases hbusy.symm.trans h
    · rename_i hfree
      exact .readResult hfree
  | writeResult now =>
    simp only [step]
    split
    · rename_i hnone
      exact .idle fun h => h hnone
    · rename_i r j hj
      exact .writeResult hj
  | readDelayed now =>
    simp only [step]
    split
    · rename_i p hbusy
      refine .idle fun h => ?_
      cases hbusy.symm.trans h
    · rename_i hfree
      exact .readDelayed hfree
  | writeDelayed =>
    simp only [step]
    split
    · rename_i hnone
      exact .idle fun h => h hnone
    · rename_i id j hj
      exact .writeDelayed hj
  | releaseWorker workerID ord =>
    simp only [step]
    split
    · rename_i id rest hbusy
      refine .idle fun h => ?_
      cases hbusy.symm.trans h
    · rename_i hfree
      exact .releaseWorker hfree
  | requeueReleased =>
    simp only [step]
    split
    · rename_i hnone
      exact .idle fun h => h hnone
    · rename_i id rest hid
      exact .requeueReleased hid
  | finish n err =>
    simp only [step]
    split
    · rename_i hnone
      exact .idle fun h => h hnone
    · rename_i j hj
      exact .finish hj

/-! ## The halves make up the rounds -/

theorem exec_dispatchLoop (s : Server σ) (hs : s.dispatching = none) (now : Time)
    (submit : WorkerClient → Job → Option String) :
    (server.exec s [.takeReady, .dispatch now submit]).engine =
      (s.engine.step none (.round (.dispatchLoop now submit))).1 := by
  show _ = s.engine.withScheduler (s.engine.scheduler.dispatchLoop false now submit).1
  rw [Scheduler.dispatchLoop_halves]
  simp only [Machine.exec_cons, Machine.exec_nil, server, step, hs]
  cases s.engine.scheduler.takeReady.2.2 with
  | none => rfl
  | some j => rfl

theorem exec_resultLoop (s : Server σ) (hs : s.reporting = none) (now : Time) (r : Result) :
    (server.exec s [.readResult r, .writeResult now]).engine = (s.engine.step none (.round (.resultLoop now r))).1 := by
  show _ = s.engine.withScheduler (s.engine.scheduler.resultLoop now r)
  rw [Scheduler.resultLoop_halves]
  simp only [Machine.exec_cons, Machine.exec_nil, server, step, hs]
  show _ = s.engine.withScheduler (match Store.get s.store r.jobID with
    | none => s.engine.scheduler
    | some j => s.engine.scheduler.applyResult now r j)
  cases Store.get s.store r.jobID with
  | none => rfl
  | some j => rfl

theorem exec_processDelayedJobs (s : Server σ) (hs : s.promoting = none) (now : Time) :
    (server.exec s [.readDelayed now, .writeDelayed]).engine =
      (s.engine.step none (.round (.processDelayedJobs now))).1 := by
  show _ = s.engine.withScheduler ((s.engine.scheduler.processDelayedJob now).getD s.engine.scheduler)
  rw [Scheduler.processDelayedJob_halves]
  simp only [Machine.exec_cons, Machine.exec_nil, server, step, hs]
  cases (s.engine.scheduler.readDelayed now).2 with
  | none => rfl
  | some p => rfl

/-! ## What an act does to the store -/

/-- The act adds the new job `j`. -/
inductive Adds (s : Server σ) : Act → Job → Prop
  | submitJob {jobType : String} {priority : Int} :
      Adds s (.submitJob jobType priority) (.newJob (s.engine.nextJobID + 1) jobType priority)
  | submitJobAt {jobType : String} {priority : Int} {runAt : Time} : Adds s (.submitJobAt jobType priority runAt)
      { Job.newJob (s.engine.nextJobID + 1) jobType priority with status := .scheduled, nextRunAt := runAt }
  | addKeyed {key jobType : String} {priority : Int} : s.submitting = some (key, jobType, priority) →
      Adds s .addKeyed { Job.newJob (s.engine.nextJobID + 1) jobType priority with idempotencyKey := key }

/-- The act writes its copy `c` of a job back as `j`. -/
inductive WritesBack (s : Server σ) : Act → Job → Job → Prop
  | completed {now : Time} {r : Result} {c : Job} : s.reporting = some (r, c) →
      WritesBack s (.writeResult now) c { c with status := .completed }
  | retried {now : Time} {r : Result} {c : Job} : s.reporting = some (r, c) →
      WritesBack s (.writeResult now) c (Scheduler.retryJob now (r.error.getD "") c)
  | failed {now : Time} {r : Result} {c : Job} : s.reporting = some (r, c) →
      WritesBack s (.writeResult now) c { c with status := .failed, lastError := r.error.getD "" }
  | promoted {id : Int} {c : Job} : s.promoting = some (id, c) →
      WritesBack s .writeDelayed c { c with status := .pending }
  | finished {n : Nat} {err : Option ExecError} {c : Job} : s.running[n]? = some c →
      WritesBack s (.finish n err) c (Runner.finish c err)

/-- What an act can do to the store. -/
inductive Writes (s : Server σ) : Act → σ → Prop
  | nothing {a : Act} : Writes s a s.store
  | added {a : Act} {j : Job} {st : σ} : s.Adds a j → Store.add s.store j = .ok st → Writes s a st
  | written {a : Act} {c j : Job} {st : σ} : s.WritesBack a c j → Store.update s.store j = .ok st → Writes s a st
  | buried {now : Time} {c j : Job} {st : σ} : s.WritesBack (.writeResult now) c j → Store.update s.store j = .ok st →
      Writes s (.writeResult now) (Store.addDLQ st j)
  | buriedOnly {now : Time} {c j : Job} : s.WritesBack (.writeResult now) c j →
      Writes s (.writeResult now) (Store.addDLQ s.store j)
  | cancelled {id : Int} {st : σ} : Store.cancel s.store id = .ok st → Writes s (.cancelJob id) st
  | deleted {id : Int} : Writes s (.deleteJob id) (Store.delete s.store id).2

theorem Writes.of_eq {s : Server σ} {a : Act} {st : σ} (h : st = s.store) : s.Writes a st := by
  rw [h]
  exact .nothing

theorem accept_writes {s : Server σ} {a : Act} {j : Job} (h : s.Adds a j) (what : String) (q : QueueRef) {e : Engine σ}
    (he : e.scheduler.store = s.store) : s.Writes a (e.accept none what q j).2.scheduler.store := by
  unfold Engine.accept
  dsimp only
  cases ha : Store.add e.scheduler.store j with
  | error err => dsimp only; rw [he]; exact .nothing
  | ok st =>
    rw [he] at ha
    cases q <;> exact .added h ha

/-- An update with its error ignored. -/
theorem tryUpdate_writes {s : Server σ} {a : Act} {c j : Job} (h : s.WritesBack a c j) :
    s.Writes a (Store.tryUpdate s.store j) := by
  unfold Store.tryUpdate
  cases hu : Store.update s.store j with
  | error err => exact .nothing
  | ok st => exact .written h hu

theorem applyResult_writes {s : Server σ} {now : Time} {r : Result} {c : Job} (h : s.reporting = some (r, c)) :
    s.Writes (.writeResult now) (s.engine.scheduler.applyResult now r c).store := by
  unfold Scheduler.applyResult
  dsimp only
  split
  · exact .nothing
  · split
    · exact tryUpdate_writes (.completed h)
    · split
      · exact tryUpdate_writes (.retried h)
      · -- the dead letter is written whether or not the update was accepted
        show s.Writes _
          (Store.addDLQ (Store.tryUpdate s.store { c with status := .failed, lastError := r.error.getD "" }) _)
        unfold Store.tryUpdate
        cases hu : Store.update s.store { c with status := .failed, lastError := r.error.getD "" } with
        | error err => exact .buriedOnly (.failed h)
        | ok st => exact .buried (.failed h) hu

theorem promote_writes {s : Server σ} {id : Int} {c : Job} (h : s.promoting = some (id, c)) :
    s.Writes .writeDelayed (s.engine.scheduler.promote id c).store := by
  unfold Scheduler.promote
  dsimp only
  rw [Scheduler.dropDelayed_store]
  cases hu : Store.update s.engine.scheduler.store { c with status := .pending } with
  | error err =>
    dsimp only
    rw [Scheduler.dropDelayed_store]; exact .nothing
  | ok st => exact .written (.promoted h) hu

theorem dispatch_store (now : Time) (submit : WorkerClient → Job → Option String) (s : Scheduler σ) (j : Job) :
    (s.dispatch false now submit j).sched.store = s.store := by
  unfold Scheduler.dispatch
  simp only [Bool.false_eq_true, if_false]
  split
  · rfl
  · split <;> rfl

/-! The halves of the loops that only read leave the store alone, and what they read is stored. -/

theorem takeReady_store (s : Scheduler σ) : s.takeReady.1.store = s.store := by
  unfold Scheduler.takeReady
  split <;> rfl

theorem takeReady_job {s : Scheduler σ} {c : Job} (h : s.takeReady.2.2 = some c) :
    c.status.isTerminal = false ∧ ∃ id, Store.get s.store id = some c := by
  unfold Scheduler.takeReady at h
  split at h
  · cases h
  · rename_i id q _
    rw [Option.filter_eq_some_iff] at h
    exact ⟨by simpa using h.2, id, h.1⟩

theorem readDelayed_store (s : Scheduler σ) (now : Time) : (s.readDelayed now).1.store = s.store := by
  unfold Scheduler.readDelayed
  split
  · rfl
  · split
    · exact Scheduler.dropDelayed_store s
    · rfl

theorem readDelayed_job {s : Scheduler σ} {now : Time} {id : Int} {c : Job} (h : (s.readDelayed now).2 = some (id, c)) :
    Store.get s.store id = some c := by
  unfold Scheduler.readDelayed at h
  split at h
  · cases h
  · split at h
    · cases h
    · rename_i j hj
      dsimp only at h
      split at h
      · cases h
      · cases h; exact hj

theorem requeueReleased_store (s : Scheduler σ) (id : Int) : (s.requeueReleased id).store = s.store := by
  unfold Scheduler.requeueReleased
  split
  · split <;> rfl
  · rfl

theorem boot_store {st : σ} (h : LawfulStore.WF st) (available : Chan WorkerClient) (broker : Option Broker)
    (ord ord₁ ord₂ ord₃ ord₄ : RangeOrder Int) :
    (Engine.boot st available broker ord ord₁ ord₂ ord₃ ord₄).scheduler.store = st := by
  have hfirst : ((Engine.new st available broker).restore ord ord₁ ord₂).1.scheduler.store = st :=
    (Scheduler.rebuildQueuesFromStore_board (s := (Engine.new st available broker).scheduler) h ord₁ ord₂).2.1
  have hwf : ((Engine.new st available broker).restore ord ord₁ ord₂).1.scheduler.WF := by
    unfold Scheduler.WF; rw [hfirst]; exact h
  exact (Scheduler.rebuildQueuesFromStore_board hwf ord₃ ord₄).2.1.trans hfirst

theorem step_store {s : Server σ} (h : LawfulStore.WF s.store) (a : Act) : s.Writes a (s.step a).1.store := by
  have hstep := s.step_outcome a
  generalize s.step a = p at hstep
  cases hstep with
  | idle | found | notFound | workers | readResult | releaseWorker => exact .nothing
  | submitJob => exact accept_writes .submitJob _ _ rfl
  | submitJobAt => exact accept_writes .submitJobAt _ _ rfl
  | addKeyed hsub => exact accept_writes (.addKeyed hsub) _ _ rfl
  | @cancelJob id =>
    show s.Writes _ (orUnchanged s.store (Store.cancel s.store id)).1
    cases hc : Store.cancel s.store id with
    | error err => exact .nothing
    | ok st => exact .cancelled hc
  | deleteJob => exact .deleted
  | takeReady => exact .of_eq (takeReady_store s.engine.scheduler)
  | dispatch => exact .of_eq (dispatch_store _ _ s.engine.scheduler _)
  | writeResult hj => exact applyResult_writes hj
  | readDelayed => exact .of_eq (readDelayed_store s.engine.scheduler _)
  | writeDelayed hj => exact promote_writes hj
  | requeueReleased => exact .of_eq (requeueReleased_store s.engine.scheduler _)
  | finish hj => exact tryUpdate_writes (.finished hj)
  | restart => exact .of_eq (boot_store h ..)

/-! ## What an act does to one job -/

omit [LawfulStore σ] in
theorem Adds.id_eq {s : Server σ} {a : Act} {j : Job} (h : s.Adds a j) : j.id = s.engine.nextJobID + 1 := by
  cases h <;> rfl

omit [LawfulStore σ] in
theorem WritesBack.id_eq {s : Server σ} {a : Act} {c j : Job} (h : s.WritesBack a c j) : j.id = c.id := by
  cases h with
  | completed _ | retried _ | failed _ | promoted _ => rfl
  | finished _ => exact Runner.finish_id _ _

/-- The job stored under `id` after the act. -/
inductive Changes (s : Server σ) (a : Act) (id : Int) : Option Job → Prop
  | same : Changes s a id (Store.get s.store id)
  | added {j : Job} : s.Adds a j → j.id = id → Changes s a id (some j)
  | written {c j old : Job} : s.WritesBack a c j → j.id = id → Store.get s.store id = some old →
      isValidTransition old.status j.status = true → Changes s a id (some j)
  | cancelled {old : Job} : a = .cancelJob id → Store.get s.store id = some old → old.status.isTerminal = false →
      Changes s a id (some { old with status := .cancelled })
  | deleted : a = .deleteJob id → Changes s a id none

theorem Changes.update {s : Server σ} {a : Act} {c j : Job} {st : σ} (h : s.WritesBack a c j)
    (hu : Store.update s.store j = .ok st) (id : Int) : s.Changes a id (Store.get st id) := by
  obtain ⟨old, hold, hv⟩ := LawfulStore.update_ok.1 ⟨st, hu⟩
  rw [LawfulStore.get_update hu]
  split
  · rename_i hid
    exact .written h hid.symm (hid ▸ hold) hv
  · exact .same

theorem Writes.job {s : Server σ} {a : Act} {st : σ} (h : s.Writes a st) (hs : LawfulStore.WF s.store) (id : Int) :
    s.Changes a id (Store.get st id) := by
  cases h with
  | nothing => exact .same
  | @added a j st hj hadd =>
    rw [LawfulStore.get_add hadd]
    split
    · rename_i hid; exact .added hj hid.symm
    · exact .same
  | written hw hu => exact .update hw hu id
  | buried hw hu =>
    rw [LawfulStore.get_addDLQ]
    exact .update hw hu id
  | buriedOnly _ =>
    rw [LawfulStore.get_addDLQ]
    exact .same
  | @cancelled k st hc =>
    obtain ⟨old, hold, ht, hget⟩ := LawfulStore.cancel_ok hc
    rw [hget (LawfulStore.get_id hs hold)]
    split
    · rename_i hid; subst hid; exact .cancelled rfl hold ht
    · exact .same
  | @deleted k =>
    rw [LawfulStore.get_delete]
    split
    · rename_i hid; subst hid; exact .deleted rfl
    · exact .same

theorem step_job {s : Server σ} (hs : LawfulStore.WF s.store) (a : Act) (id : Int) :
    s.Changes a id (Store.get (s.step a).1.store id) := (step_store hs a).job hs id

/-! ## Copies -/

omit [LawfulStore σ] in
theorem mem_held {s : Server σ} {c : Job} : c ∈ s.held ↔
    s.dispatching = some c ∨ (∃ r, s.reporting = some (r, c)) ∨ (∃ id, s.promoting = some (id, c)) ∨ c ∈ s.running := by
  simp [held]

omit [LawfulStore σ] in
theorem WritesBack.held {s : Server σ} {a : Act} {c j : Job} (h : s.WritesBack a c j) : c ∈ s.held := by
  rw [mem_held]
  cases h with
  | completed hr | retried hr | failed hr => exact .inr (.inl ⟨_, hr⟩)
  | promoted hp => exact .inr (.inr (.inl ⟨_, hp⟩))
  | finished hn => exact .inr (.inr (.inr (List.mem_of_getElem? hn)))

/-- A copy that is around after the act was so before it, or has just been read. -/
theorem held_step {s : Server σ} {a : Act} {c : Job} (hc : c ∈ (s.step a).1.held) :
    c ∈ s.held ∨ ∃ id, Store.get s.store id = some c := by
  have hstep := s.step_outcome a
  generalize s.step a = p at hstep hc
  cases hstep with
  | idle | submitJob | submitJobAt | found | notFound | addKeyed | cancelJob | deleteJob
  | workers | releaseWorker | requeueReleased => exact .inl hc
  | restart => cases hc
  | takeReady =>
    rw [mem_held] at hc ⊢
    rcases hc with hc | hc
    · exact .inr (takeReady_job hc).2
    · exact .inl (.inr hc)
  | @dispatch now submit j hj =>
    rw [mem_held] at hc ⊢
    rcases hc with hc | hc | hc | hc
    · cases hc
    · exact .inl (.inr (.inl hc))
    · exact .inl (.inr (.inr (.inl hc)))
    · -- a job that was submitted is the one the loop had
      dsimp only at hc
      split at hc
      · rcases List.mem_cons.1 hc with rfl | hc
        · exact .inl (.inl hj)
        · exact .inl (.inr (.inr (.inr hc)))
      · exact .inl (.inr (.inr (.inr hc)))
  | readResult =>
    rw [mem_held] at hc ⊢
    rcases hc with hc | ⟨r', hc⟩ | hc
    · exact .inl (.inl hc)
    · obtain ⟨j, hj, heq⟩ := Option.map_eq_some_iff.1 hc
      cases heq
      exact .inr ⟨_, hj⟩
    · exact .inl (.inr (.inr hc))
  | writeResult =>
    rw [mem_held] at hc ⊢
    rcases hc with hc | ⟨r', hc⟩ | hc
    · exact .inl (.inl hc)
    · cases hc
    · exact .inl (.inr (.inr hc))
  | readDelayed =>
    rw [mem_held] at hc ⊢
    rcases hc with hc | hc | ⟨id, hc⟩ | hc
    · exact .inl (.inl hc)
    · exact .inl (.inr (.inl hc))
    · exact .inr ⟨id, readDelayed_job hc⟩
    · exact .inl (.inr (.inr (.inr hc)))
  | writeDelayed =>
    rw [mem_held] at hc ⊢
    rcases hc with hc | hc | ⟨id, hc⟩ | hc
    · exact .inl (.inl hc)
    · exact .inl (.inr (.inl hc))
    · cases hc
    · exact .inl (.inr (.inr (.inr hc)))
  | finish =>
    rw [mem_held] at hc ⊢
    rcases hc with hc | hc | hc | hc
    · exact .inl (.inl hc)
    · exact .inl (.inr (.inl hc))
    · exact .inl (.inr (.inr (.inl hc)))
    · exact .inl (.inr (.inr (.inr (List.mem_of_mem_eraseIdx hc))))

/-! ## What every run keeps -/

/-- The store is coherent, and no stored job and no copy has an id above the counter. -/
structure Sound (s : Server σ) : Prop where
  wf : LawfulStore.WF s.store
  stored : ∀ id j, Store.get s.store id = some j → id ≤ s.engine.nextJobID
  held : ∀ c ∈ s.held, c.id ≤ s.engine.nextJobID

theorem start_sound {st : σ} (h : LawfulStore.WF st) (available : Chan WorkerClient) (broker : Option Broker)
    (ord ord₁ ord₂ ord₃ ord₄ : RangeOrder Int) : (start st available broker ord ord₁ ord₂ ord₃ ord₄).Sound := by
  have hs := (Engine.boot_starts h available broker ord ord₁ ord₂ ord₃ ord₄).sound
  refine ⟨hs.wf, fun id j hj => ?_, fun c hc => by cases hc⟩
  by_contra hlt
  change ¬ id ≤ (Engine.boot st available broker ord ord₁ ord₂ ord₃ ord₄).nextJobID at hlt
  have hnone := (hs.bounded id (by omega)).job
  cases hnone.symm.trans hj

theorem accept_nextJobID (what : String) (q : QueueRef) (j : Job) (e : Engine σ) :
    (e.accept none what q j).2.nextJobID = e.nextJobID := by
  unfold Engine.accept
  dsimp only
  split <;> rfl

theorem Adds.nextJobID {s : Server σ} {a : Act} {j : Job} (h : s.Adds a j) :
    (s.step a).1.engine.nextJobID = s.engine.nextJobID + 1 := by
  cases h with
  | submitJob => exact accept_nextJobID _ _ _ _
  | submitJobAt => exact accept_nextJobID _ _ _ _
  | addKeyed hsub =>
    simp only [step, hsub, Server.addKeyed, accept_nextJobID]
    rfl

/-- Only a restart can set the counter back. -/
theorem nextJobID_step {s : Server σ} {a : Act} (ha : a.isRestart = false) :
    s.engine.nextJobID ≤ (s.step a).1.engine.nextJobID := by
  have hadds : ∀ {j : Job}, s.Adds a j → s.engine.nextJobID ≤ (s.step a).1.engine.nextJobID :=
    fun h => by rw [h.nextJobID]; omega
  have hstep := s.step_outcome a
  generalize s.step a = p at hstep hadds
  cases hstep with
  | submitJob => exact hadds .submitJob
  | submitJobAt => exact hadds .submitJobAt
  | addKeyed hsub => exact hadds (.addKeyed hsub)
  | restart => cases ha
  | idle | found | notFound | cancelJob | deleteJob | workers | takeReady | dispatch | readResult
  | writeResult | readDelayed | writeDelayed | releaseWorker | requeueReleased | finish => exact Int.le_refl _

/-- A job that is added is new. -/
theorem Sound.fresh {s : Server σ} (h : s.Sound) {a : Act} {j : Job} (hj : s.Adds a j) :
    Store.get s.store j.id = none := by
  cases hget : Store.get s.store j.id with
  | none => rfl
  | some x =>
    have hle := h.stored _ x hget
    have hid := hj.id_eq
    omega

theorem Writes.wf {s : Server σ} (h : s.Sound) {a : Act} {st : σ} (hw : s.Writes a st) : LawfulStore.WF st := by
  cases hw with
  | nothing => exact h.wf
  | added hj hadd => exact LawfulStore.wf_add h.wf (h.fresh hj) hadd
  | written _ hu => exact LawfulStore.wf_update h.wf hu
  | buried _ hu => exact LawfulStore.wf_addDLQ _ (LawfulStore.wf_update h.wf hu)
  | buriedOnly _ => exact LawfulStore.wf_addDLQ _ h.wf
  | cancelled hc => exact LawfulStore.wf_cancel h.wf hc
  | deleted => exact LawfulStore.wf_delete _ h.wf

/-- A job that is stored after an act was stored before it, or is new. -/
theorem Changes.stored {s : Server σ} {a : Act} {id : Int} {x : Option Job} (h : s.Changes a id x) {j : Job}
    (hx : x = some j) : (∃ old, Store.get s.store id = some old) ∨ s.Adds a j ∧ j.id = id := by
  cases h with
  | same => exact .inl ⟨j, hx⟩
  | added hj hid => cases hx; exact .inr ⟨hj, hid⟩
  | written _ _ hold _ => exact .inl ⟨_, hold⟩
  | cancelled _ hold _ => exact .inl ⟨_, hold⟩
  | deleted _ => cases hx

theorem step_sound {s : Server σ} (h : s.Sound) (a : Act) : (s.step a).1.Sound := by
  cases ha : a.isRestart with
  | true =>
    cases a with
    | restart available broker ord ord₁ ord₂ ord₃ ord₄ =>
      exact start_sound h.wf available broker ord ord₁ ord₂ ord₃ ord₄
    | _ => cases ha
  | false =>
    have hn := nextJobID_step (s := s) ha
    refine ⟨(step_store h.wf a).wf h, fun id j hj => ?_, fun c hc => ?_⟩
    · rcases (step_job h.wf a id).stored hj with ⟨old, hold⟩ | ⟨hadd, hid⟩
      · exact Int.le_trans (h.stored id old hold) hn
      · have hnew := hadd.id_eq
        rw [hadd.nextJobID]; omega
    · rcases held_step hc with hc | ⟨id, hget⟩
      · exact Int.le_trans (h.held c hc) hn
      · rw [LawfulStore.get_id h.wf hget]
        exact Int.le_trans (h.stored id c hget) hn

theorem exec_sound {s : Server σ} (h : s.Sound) (as : List Act) : (server.exec s as).Sound :=
  Machine.exec_inv (M := server) h (fun _ a h => step_sound h a) as

/-- What holds between each copy and the job stored under its id: it holds when the copy is read, and the rewriting
of a stored job keeps it. -/
theorem copies_step {s : Server σ} (h : s.Sound) (a : Act) {R : Job → Job → Prop} (hrefl : ∀ j, R j j)
    (hR : ∀ c ∈ s.held, ∀ x, Store.get s.store c.id = some x → R c x)
    (hstep : ∀ c id x y, Store.get s.store id = some x → Store.get (s.step a).1.store id = some y → R c x → R c y) :
    ∀ c ∈ (s.step a).1.held, ∀ y, Store.get (s.step a).1.store c.id = some y → R c y := by
  intro c hc y hy
  -- the copy is of a job that was given out before the act
  have hle : c.id ≤ s.engine.nextJobID ∧ ∀ x, Store.get s.store c.id = some x → R c x := by
    rcases held_step hc with hc | ⟨id, hget⟩
    · exact ⟨h.held c hc, hR c hc⟩
    · have hid := LawfulStore.get_id h.wf hget
      subst hid
      refine ⟨h.stored _ c hget, fun x hx => ?_⟩
      cases hget.symm.trans hx
      exact hrefl c
  rcases (step_job h.wf a c.id).stored hy with ⟨x, hx⟩ | ⟨hadd, hid⟩
  · exact hstep c _ x y hx hy (hle.2 x hx)
  · have hnew := hadd.id_eq
    omega

/-- A failure of job 1, as a runner reports it. -/
def failure : Result := Runner.result (Job.newJob 1 "email" 1) (some ⟨"timeout", false⟩)

end Server

end Quorum
