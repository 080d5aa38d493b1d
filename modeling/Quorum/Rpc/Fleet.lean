/-
The control node and its remote workers (`internal/workermanager`, `internal/rpc/server`, and the loops of the
scheduler): which workers are registered and alive, which stand in `Available`, which deaths wait in `DeadWorkers`
and which results in `Results`, around the engine with its queues, leases and store. The calls of worker nodes come
in any order and as often as they like; a loop of the control node takes one step at a time.
-/
import Quorum.Engine.Basic
import Quorum.Scheduler.Dispatch

namespace Quorum

/-- `WorkerInfo` without the client, which is known by its id, and the address. -/
structure WorkerInfo where
  lastHeartbeat : Time
  alive : Bool
  topics : List String
  deriving DecidableEq, Repr

/-- The control node. `Available` and the broker are those of the scheduler; `recovering` is the id that `recoveryLoop`
has received and not processed yet. -/
structure Fleet (σ : Type) where
  engine : Engine σ
  workers : GoMap Int WorkerInfo
  deadWorkers : Chan Int
  results : Chan Result
  recovering : Option Int

namespace Fleet

/-- The calls and rounds that have to do with jobs only. -/
inductive JobCall where
  | submitJob (jobType : String) (priority : Int)
  | submitJobAt (jobType : String) (priority : Int) (runAt : Time)
  | submitJobIdempotent (key jobType : String) (priority : Int)
  | cancelJob (id : Int)
  | deleteJob (id : Int)
  | processDelayedJobs (now : Time)

def JobCall.input : JobCall → Engine.Input
  | .submitJob jobType priority => .submitJob jobType priority
  | .submitJobAt jobType priority runAt => .submitJobAt jobType priority runAt
  | .submitJobIdempotent key jobType priority => .submitJobIdempotent key jobType priority
  | .cancelJob id => .cancelJob id
  | .deleteJob id => .deleteJob id
  | .processDelayedJobs now => .round (.processDelayedJobs now)

section
variable {σ : Type} [Store σ]

abbrev scheduler (s : Fleet σ) : Scheduler σ := s.engine.scheduler

def withScheduler (s : Fleet σ) (sched : Scheduler σ) : Fleet σ := { s with engine := s.engine.withScheduler sched }

/-- The channel `Available`. -/
abbrev available (s : Fleet σ) : Chan WorkerClient := s.scheduler.available

abbrev leases (s : Fleet σ) : LeaseManager := s.scheduler.leases

/-- The worker is registered and alive. -/
def Live (s : Fleet σ) (id : Int) : Prop := ∃ info, s.workers.lookup id = some info ∧ info.alive = true

/-- The deaths that `recoveryLoop` has still to process, the one it has received first. -/
def signals (s : Fleet σ) : List Int := s.recovering.toList ++ s.deadWorkers.buf

/-! ## The manager -/

/-- `Manager.Register`. -/
def register (s : Fleet σ) (id : Int) (topics : List String) (now : Time) : Fleet σ :=
  { s.withScheduler { s.scheduler with broker := s.scheduler.broker.map fun b => b.registerWorker id topics } with
    workers := s.workers.insert id { lastHeartbeat := now, alive := true, topics := topics } }

/-- `Manager.MakeAvailable`. -/
def makeAvailable (s : Fleet σ) (id : Int) : Fleet σ :=
  s.withScheduler { s.scheduler with available := s.available.trySend ⟨id⟩ }

/-- `Manager.Remove`; `DeadWorkers` is not told. -/
def remove (s : Fleet σ) (id : Int) : Fleet σ :=
  { s.withScheduler { s.scheduler with broker := s.scheduler.broker.map fun b => b.unregisterWorker id } with
    workers := s.workers.erase id }

/-- `Manager.Heartbeat`. -/
def heartbeat (s : Fleet σ) (id : Int) (now : Time) : Fleet σ :=
  match s.workers.lookup id with
  | none => s
  | some info => { s with workers := s.workers.insert id { info with lastHeartbeat := now, alive := true } }

/-- The worker is alive and its last heartbeat is longer ago than the timeout. -/
def timesOut (timeout : Duration) (now : Time) (s : Fleet σ) (id : Int) : Bool :=
  (s.workers.lookup id).any fun info => info.alive && decide (now - info.lastHeartbeat > timeout)

/-- One worker in the loop of `Monitor`. -/
def monitorWorker (timeout : Duration) (now : Time) (s : Fleet σ) (id : Int) : Fleet σ :=
  match s.workers.lookup id with
  | none => s
  | some info =>
    if s.timesOut timeout now id then
      -- into a full channel the signal is dropped
      { s with workers := s.workers.insert id { info with alive := false }, deadWorkers := s.deadWorkers.trySend id }
    else s

/-- A tick of `Monitor`. -/
def monitor (timeout : Duration) (now : Time) (ord : RangeOrder Int) (s : Fleet σ) : Fleet σ :=
  (ord.order s.workers.keys).foldl (monitorWorker timeout now) s

/-! ## The worker server -/

/-- `WorkerServer.RegisterWorker`; without a connection to the worker nothing is registered. -/
def registerWorker (s : Fleet σ) (id : Int) (topics : List String) (dialed : Bool) (now : Time) : Fleet σ :=
  if dialed then (s.register id topics now).makeAvailable id else s

/-- `ReportResult` hands the result over: there is room for it and the context is not done. -/
def delivers (s : Fleet σ) (ctxDone : Bool) : Bool := !ctxDone && decide (s.results.buf.length < s.results.cap)

/-- `WorkerServer.ReportResult`; a call that can neither send nor give up is waiting. -/
def reportResult (s : Fleet σ) (workerID : Int) (r : Result) (ctxDone : Bool) : Fleet σ :=
  if s.delivers ctxDone then
    let s := { s with results := s.results.trySend r }
    if (s.workers.lookup workerID).isSome then s.makeAvailable workerID else s
  else s

/-! ## The steps -/

inductive Act where
  | registerWorker (id : Int) (topics : List String) (dialed : Bool) (now : Time)
  | remove (id : Int)
  | heartbeat (id : Int) (now : Time)
  | monitorWorker (id : Int) (now : Time)
  | dispatchLoop (now : Time) (submit : WorkerClient → Job → Option String)
  | reportResult (workerID : Int) (r : Result) (ctxDone : Bool)
  /-- An execution ends and is not reported: its result was dropped or its process has died. The control node sees
  nothing of it. -/
  | executionLost (workerID jobID : Int)
  | resultLoop (now : Time)
  /-- `recoveryLoop` receives an id. -/
  | receiveDead
  /-- `recoveryLoop` processes it. -/
  | recover (ord : RangeOrder Int)
  | jobCall (raft : Option RaftReply) (c : JobCall)

/-- A step, with the grants of a dispatch. -/
def step (timeout : Duration) (s : Fleet σ) : Act → Fleet σ × List Grant
  | .registerWorker id topics dialed now => (s.registerWorker id topics dialed now, [])
  | .remove id => (s.remove id, [])
  | .heartbeat id now => (s.heartbeat id now, [])
  | .monitorWorker id now => (s.monitorWorker timeout now id, [])
  | .dispatchLoop now submit =>
    (s.withScheduler (s.scheduler.dispatchLoop false now submit).1, (s.scheduler.dispatchLoop false now submit).2)
  | .reportResult workerID r ctxDone => (s.reportResult workerID r ctxDone, [])
  | .executionLost _ _ => (s, [])
  | .resultLoop now =>
    match s.results.tryRecv with
    | none => (s, [])
    | some (r, ch) => ({ s.withScheduler (s.scheduler.resultLoop now r) with results := ch }, [])
  | .receiveDead =>
    match s.recovering, s.deadWorkers.tryRecv with
    | none, some (id, ch) => ({ s with deadWorkers := ch, recovering := some id }, [])
    | _, _ => (s, [])
  | .recover ord =>
    match s.recovering with
    | none => (s, [])
    | some id => ({ s.withScheduler (s.scheduler.recoveryLoop ord id) with recovering := none }, [])
  | .jobCall raft c => ({ s with engine := (s.engine.step raft c.input).1 }, [])

end

/-- The capacity of `Available` and of `DeadWorkers`. -/
def deadWorkersBufSize : Nat := 100

/-- The control node on a store, before the first worker has registered. -/
def start {σ : Type} [Store σ] (st : σ) (resultBuffer : Nat) : Fleet σ :=
  { engine := Engine.new st (.make 100) (some .new), workers := ∅, deadWorkers := .make deadWorkersBufSize
    results := .make resultBuffer, recovering := none }

end Fleet

def fleet {σ : Type} [Store σ] (timeout : Duration) : Machine (Fleet σ) Fleet.Act Grant := ⟨Fleet.step timeout⟩

namespace Fleet

variable {σ : Type} [Store σ]

/-- A tick is the loop over the workers. -/
theorem monitor_steps (timeout : Duration) (now : Time) (ord : RangeOrder Int) (s : Fleet σ) :
    s.monitor timeout now ord = (fleet timeout).exec s
      ((ord.order s.workers.keys).map fun id => .monitorWorker id now) := by
  unfold monitor Machine.exec
  rw [List.foldl_map]
  rfl

/-! ## What a call leaves alone -/

omit [Store σ] in
theorem heartbeat_frame (s : Fleet σ) (id : Int) (now : Time) :
    (s.heartbeat id now).engine = s.engine ∧ (s.heartbeat id now).results = s.results ∧
      (s.heartbeat id now).signals = s.signals := by
  unfold heartbeat
  split <;> exact ⟨rfl, rfl, rfl⟩

omit [Store σ] in
theorem monitorWorker_frame (timeout : Duration) (now : Time) (s : Fleet σ) (id : Int) :
    (s.monitorWorker timeout now id).engine = s.engine ∧ (s.monitorWorker timeout now id).results = s.results := by
  unfold monitorWorker
  split
  · exact ⟨rfl, rfl⟩
  · split <;> exact ⟨rfl, rfl⟩

omit [Store σ] in
theorem reportResult_frame (s : Fleet σ) (workerID : Int) (r : Result) (ctxDone : Bool) :
    (∃ available, (s.reportResult workerID r ctxDone).engine =
        s.engine.withScheduler { s.scheduler with available := available }) ∧
      (s.reportResult workerID r ctxDone).workers = s.workers ∧
      (s.reportResult workerID r ctxDone).signals = s.signals := by
  simp only [reportResult]
  split
  · split
    · exact ⟨⟨_, rfl⟩, rfl, rfl⟩
    · exact ⟨⟨s.available, rfl⟩, rfl, rfl⟩
  · exact ⟨⟨s.available, rfl⟩, rfl, rfl⟩

theorem receiveDead_frame (timeout : Duration) (s : Fleet σ) :
    (s.step timeout .receiveDead).1.engine = s.engine ∧ (s.step timeout .receiveDead).1.results = s.results ∧
      (s.step timeout .receiveDead).1.workers = s.workers := by
  simp only [step]
  split <;> exact ⟨rfl, rfl, rfl⟩

/-- Only a dispatch grants anything. -/
theorem step_grants_nil {timeout : Duration} {s : Fleet σ} {a : Act} (ha : ∀ now submit, a ≠ .dispatchLoop now submit) :
    (s.step timeout a).2 = [] := by
  cases a with
  | dispatchLoop now submit => exact absurd rfl (ha now submit)
  | resultLoop now => simp only [step]; split <;> rfl
  | receiveDead => simp only [step]; split <;> rfl
  | recover ord => simp only [step]; split <;> rfl
  | registerWorker | remove | heartbeat | monitorWorker | reportResult | executionLost | jobCall => rfl

/-! ## Steps of the engine -/

/-- What a step does to the engine is a step of the engine: a call about jobs, a round of a loop, or a change of the
workers. A round of `resultLoop` receives the first result in `Results`. -/
theorem step_engine (timeout : Duration) (s : Fleet σ) (a : Act) :
    ∃ raft i, (s.step timeout a).1.engine = (s.engine.step raft i).1 ∧ (s.step timeout a).2 = (s.engine.step raft i).2 ∧
      ∀ now r, i = .round (.resultLoop now r) ↔ a = .resultLoop now ∧ ∃ ch, s.results.tryRecv = some (r, ch) := by
  -- a step that only touches the workers
  have hworkers : (∀ now, a ≠ .resultLoop now) → (∀ now submit, a ≠ .dispatchLoop now submit) → ∀ available broker,
      (s.step timeout a).1.engine =
        s.engine.withScheduler { s.scheduler with available := available, broker := broker } →
      ∃ raft i, (s.step timeout a).1.engine = (s.engine.step raft i).1 ∧
        (s.step timeout a).2 = (s.engine.step raft i).2 ∧
        ∀ now r, i = .round (.resultLoop now r) ↔ a = .resultLoop now ∧ ∃ ch, s.results.tryRecv = some (r, ch) :=
    fun ha hd available broker heng =>
      ⟨none, .round (.workers available broker), heng, step_grants_nil hd,
        fun now _ => iff_of_false nofun fun h => ha now h.1⟩
  have hsame := fun ha hd => hworkers ha hd s.available s.scheduler.broker
  cases a with
  | registerWorker id topics dialed now =>
    cases dialed with
    | false => exact hsame nofun nofun rfl
    | true => exact hworkers nofun nofun _ _ rfl
  | remove id => exact hworkers nofun nofun _ _ rfl
  | heartbeat id now => exact hsame nofun nofun (s.heartbeat_frame id now).1
  | monitorWorker id now => exact hsame nofun nofun (s.monitorWorker_frame timeout now id).1
  | dispatchLoop now submit =>
    exact ⟨none, .round (.dispatchLoop now submit), rfl, rfl, fun _ _ => iff_of_false nofun fun h => nomatch h.1⟩
  | reportResult workerID r ctxDone =>
    obtain ⟨⟨available, heng⟩, -⟩ := s.reportResult_frame workerID r ctxDone
    exact hworkers nofun nofun available s.scheduler.broker heng
  | executionLost workerID jobID => exact hsame nofun nofun rfl
  | resultLoop now =>
    cases hrecv : s.results.tryRecv with
    | none =>
      simp only [step, hrecv]
      refine ⟨none, .round (.workers s.available s.scheduler.broker), rfl, rfl, fun _ _ => iff_of_false nofun ?_⟩
      rintro ⟨-, ch, heq⟩
      cases heq
    | some p =>
      simp only [step, hrecv]
      refine ⟨none, .round (.resultLoop now p.1), rfl, rfl, fun now' r => ⟨fun heq => ?_, ?_⟩⟩
      · cases heq
        exact ⟨rfl, p.2, rfl⟩
      · rintro ⟨hnow, ch, heq⟩
        cases hnow
        cases heq
        rfl
  | receiveDead => exact hsame nofun nofun (s.receiveDead_frame timeout).1
  | recover ord =>
    cases hrec : s.recovering with
    | none => exact hsame nofun nofun (by simp only [step, hrec]; rfl)
    | some id =>
      simp only [step, hrec]
      exact ⟨none, .round (.recoveryLoop id ord), rfl, rfl, fun _ _ => iff_of_false nofun fun h => nomatch h.1⟩
  | jobCall raft c =>
    refine ⟨raft, c.input, rfl, ?_, fun _ _ => iff_of_false (fun heq => ?_) fun h => nomatch h.1⟩
    · cases c <;> rfl
    · cases c <;> cases heq

/-! ## What a round leaves alone -/

/-- The same workers wait, the routing is the same and so are the leases. -/
def SameWorkers (sched' sched : Scheduler σ) : Prop :=
  sched'.available = sched.available ∧ sched'.broker = sched.broker ∧ sched'.leases = sched.leases

theorem accept_frame (raft : Option RaftReply) (what : String) (q : QueueRef) (j : Job) (e : Engine σ) :
    SameWorkers (e.accept raft what q j).2.scheduler e.scheduler := by
  unfold Engine.accept
  split
  · split <;> exact ⟨rfl, rfl, rfl⟩
  · split
    · exact ⟨rfl, rfl, rfl⟩
    · cases q <;> exact ⟨rfl, rfl, rfl⟩

/-- A call about jobs leaves the workers and the leases alone. -/
theorem jobCall_frame (raft : Option RaftReply) (c : JobCall) (e : Engine σ) :
    SameWorkers (e.step raft c.input).1.scheduler e.scheduler := by
  cases c with
  | submitJob jobType priority => exact accept_frame raft _ _ _ e.takeID
  | submitJobAt jobType priority runAt => exact accept_frame raft _ _ _ e.takeID
  | submitJobIdempotent key jobType priority =>
    simp only [JobCall.input, Engine.step, Engine.submitJobIdempotent]
    split
    · exact accept_frame raft _ _ _ e.takeID
    · split
      · exact ⟨rfl, rfl, rfl⟩
      · exact accept_frame raft _ _ _ e.takeID
  | cancelJob id => cases raft <;> exact ⟨rfl, rfl, rfl⟩
  | deleteJob id => cases raft <;> exact ⟨rfl, rfl, rfl⟩
  | processDelayedJobs now =>
    have hdrop : SameWorkers e.scheduler.dropDelayed e.scheduler := by
      unfold Scheduler.dropDelayed
      split <;> exact ⟨rfl, rfl, rfl⟩
    show SameWorkers ((e.scheduler.processDelayedJob now).getD e.scheduler) e.scheduler
    unfold Scheduler.processDelayedJob
    split
    · exact ⟨rfl, rfl, rfl⟩
    · split
      · exact hdrop
      · split
        · exact ⟨rfl, rfl, rfl⟩
        · dsimp only
          split
          · exact hdrop
          · exact hdrop

/-- `resultLoop` leaves the workers alone and releases at most the lease of the result's job. -/
theorem resultLoop_frame (now : Time) (r : Result) (sched : Scheduler σ) :
    (sched.resultLoop now r).available = sched.available ∧ (sched.resultLoop now r).broker = sched.broker ∧
      ((sched.resultLoop now r).leases = sched.leases ∨
        (sched.resultLoop now r).leases = sched.leases.release r.jobID) := by
  unfold Scheduler.resultLoop
  split
  · exact ⟨rfl, rfl, .inl rfl⟩
  · dsimp only
    split
    · exact ⟨rfl, rfl, .inl rfl⟩
    · split
      · exact ⟨rfl, rfl, .inr rfl⟩
      · split
        · exact ⟨rfl, rfl, .inr rfl⟩
        · exact ⟨rfl, rfl, .inr rfl⟩

/-- `recoveryLoop` releases the leases of the worker. -/
theorem recoveryLoop_frame (ord : RangeOrder Int) (id : Int) (sched : Scheduler σ) :
    (sched.recoveryLoop ord id).available = sched.available ∧ (sched.recoveryLoop ord id).broker = sched.broker ∧
      (sched.recoveryLoop ord id).leases = (sched.leases.releaseByWorker ord id).2 := by
  have hfold : ∀ (ids : List Int) (t : Scheduler σ), SameWorkers (ids.foldl Scheduler.requeueReleased t) t := by
    intro ids
    induction ids with
    | nil => intro t; exact ⟨rfl, rfl, rfl⟩
    | cons k ids ih =>
      intro t
      have hone : SameWorkers (t.requeueReleased k) t := by
        unfold Scheduler.requeueReleased
        split
        · split <;> exact ⟨rfl, rfl, rfl⟩
        · exact ⟨rfl, rfl, rfl⟩
      obtain ⟨h1, h2, h3⟩ := ih (t.requeueReleased k)
      exact ⟨h1.trans hone.1, h2.trans hone.2.1, h3.trans hone.2.2⟩
  exact hfold _ _

/-! ## Grants and leases -/

section
variable {timeout : Duration} {s : Fleet σ} {a : Act}

theorem step_grants (hg : (s.step timeout a).2 ≠ []) : ∃ now submit, a = .dispatchLoop now submit := by
  by_contra hnot
  exact hg (step_grants_nil fun now submit ha => hnot ⟨now, submit, ha⟩)

theorem dispatch_round (timeout : Duration) (s : Fleet σ) (now : Time) (submit : WorkerClient → Job → Option String) :
    Scheduler.DispatchRound now submit s.scheduler (s.step timeout (.dispatchLoop now submit)).1.scheduler
      (s.step timeout (.dispatchLoop now submit)).2 :=
  Scheduler.dispatchLoop_round now submit s.scheduler

/-- A dispatch submits the next job to the first worker in `Available` that can take it. -/
theorem mem_dispatchLoop {now : Time} {submit : WorkerClient → Job → Option String} {g : Grant} :
    g ∈ (s.step timeout (.dispatchLoop now submit)).2 ↔
      ∃ j w, s.scheduler.nextJob = some j ∧ s.scheduler.firstWorker j.type = some w ∧
        g = { lease := s.scheduler.leaseFor j w, job := j, time := now, accepted := (submit w j).isNone } := by
  show g ∈ (s.scheduler.dispatchLoop false now submit).2 ↔ _
  rw [Scheduler.dispatchLoop_grants, Option.mem_toList, Option.bind_eq_some_iff]
  constructor
  · rintro ⟨j, hj, hg⟩
    obtain ⟨w, hw, rfl⟩ := Option.map_eq_some_iff.1 hg
    exact ⟨j, w, hj, hw, rfl⟩
  · rintro ⟨j, w, hj, hw, rfl⟩
    exact ⟨j, hj, Option.map_eq_some_iff.2 ⟨w, hw, rfl⟩⟩

/-- The lease of an accepted job is there after the step. -/
theorem lease_granted {g : Grant} (hg : g ∈ (s.step timeout a).2) (hacc : g.accepted = true) :
    (s.step timeout a).1.leases.get g.lease.jobID = some g.lease := by
  obtain ⟨now, submit, rfl⟩ := step_grants (List.ne_nil_of_mem hg)
  exact (dispatch_round timeout s now submit).lease_granted hg hacc

/-- A lease that is there after a step was there before and is not one that `recoveryLoop` released, or belongs to a job
that was accepted. -/
theorem step_lease {id : Int} {l : Lease} (hl : (s.step timeout a).1.leases.get id = some l) :
    s.leases.get id = some l ∧ (∀ ord, a = .recover ord → s.recovering ≠ some l.workerID) ∨
      ∃ g ∈ (s.step timeout a).2, g.accepted = true ∧ g.lease = l ∧ l.jobID = id := by
  -- a step that leaves the leases alone
  have hkeep : (∀ ord, a ≠ .recover ord) → (s.step timeout a).1.leases = s.leases →
      s.leases.get id = some l ∧ ∀ ord, a = .recover ord → s.recovering ≠ some l.workerID := by
    intro ha heq
    rw [heq] at hl
    exact ⟨hl, fun ord h => absurd h (ha ord)⟩
  cases a with
  | dispatchLoop now submit =>
    rcases (dispatch_round timeout s now submit).lease_of hl with hold | hnew
    · exact .inl ⟨hold, nofun⟩
    · exact .inr hnew
  | registerWorker k topics dialed now =>
    left
    cases dialed with
    | false => exact hkeep nofun rfl
    | true => exact hkeep nofun rfl
  | remove k => exact .inl (hkeep nofun rfl)
  | heartbeat k now => exact .inl (hkeep nofun (congrArg (fun e => e.scheduler.leases) (s.heartbeat_frame k now).1))
  | monitorWorker k now =>
    exact .inl (hkeep nofun (congrArg (fun e => e.scheduler.leases) (s.monitorWorker_frame timeout now k).1))
  | reportResult k r ctxDone =>
    obtain ⟨⟨available, heng⟩, -⟩ := s.reportResult_frame k r ctxDone
    exact .inl (hkeep nofun (congrArg (fun e => e.scheduler.leases) heng))
  | executionLost k jobID => exact .inl (hkeep nofun rfl)
  | receiveDead => exact .inl (hkeep nofun (congrArg (fun e => e.scheduler.leases) (s.receiveDead_frame timeout).1))
  | jobCall raft c => exact .inl (hkeep nofun (jobCall_frame raft c s.engine).2.2)
  | resultLoop now =>
    refine .inl ⟨?_, nofun⟩
    cases hrecv : s.results.tryRecv with
    | none => simpa only [step, hrecv] using hl
    | some p =>
      simp only [step, hrecv] at hl
      have hl' : (s.scheduler.resultLoop now p.1).leases.get id = some l := hl
      rcases (resultLoop_frame now p.1 s.scheduler).2.2 with hsame | hrel
      · rw [hsame] at hl'
        exact hl'
      · rw [hrel, LeaseManager.get_release] at hl'
        split at hl'
        · cases hl'
        · exact hl'
  | recover ord =>
    left
    cases hrec : s.recovering with
    | none =>
      simp only [step, hrec] at hl
      exact ⟨hl, nofun⟩
    | some w =>
      simp only [step, hrec] at hl
      have hl' : (s.scheduler.recoveryLoop ord w).leases.get id = some l := hl
      rw [(recoveryLoop_frame ord w s.scheduler).2.2, LeaseManager.get_releaseByWorker] at hl'
      split at hl'
      · cases hl'
      · rename_i hnot
        rw [LeaseManager.mem_releaseByWorker] at hnot
        refine ⟨hl', fun _ _ hw => hnot ⟨l, hl', ?_⟩⟩
        exact (Option.some.inj hw).symm

end

/-- `recoveryLoop` releases the leases of the worker it has received the id of and no others. -/
theorem recover_lease {timeout : Duration} {s : Fleet σ} {id : Int} {l : Lease} (hl : s.leases.get id = some l)
    (ord : RangeOrder Int) : (s.step timeout (.recover ord)).1.leases.get id =
      if s.recovering = some l.workerID then none else some l := by
  cases hrec : s.recovering with
  | none =>
    simp only [step, hrec]
    rw [if_neg nofun]
    exact hl
  | some w =>
    simp only [step, hrec]
    show (s.scheduler.recoveryLoop ord w).leases.get id = _
    rw [(recoveryLoop_frame ord w s.scheduler).2.2, LeaseManager.get_releaseByWorker]
    by_cases hw : w = l.workerID
    · rw [if_pos (LeaseManager.mem_releaseByWorker.2 ⟨l, hl, hw.symm⟩), if_pos (congrArg some hw)]
    · rw [if_neg, if_neg fun heq => hw (Option.some.inj heq)]
      · exact hl
      · intro hmem
        obtain ⟨l', hl', hw'⟩ := LeaseManager.mem_releaseByWorker.1 hmem
        cases hl.symm.trans hl'
        exact hw hw'.symm

/-! ## Registrations and deaths -/

section
variable (timeout : Duration) (s : Fleet σ)

/-- The steps that neither change a worker's entry nor add or process a death. -/
def Act.keepsMembers : Act → Bool
  | .dispatchLoop _ _ | .reportResult _ _ _ | .executionLost _ _ | .resultLoop _ | .receiveDead | .jobCall _ _ => true
  | .registerWorker _ _ _ _ | .remove _ | .heartbeat _ _ | .monitorWorker _ _ | .recover _ => false

theorem step_members {a : Act} (ha : a.keepsMembers = true) :
    (s.step timeout a).1.workers = s.workers ∧ (s.step timeout a).1.signals = s.signals := by
  cases a with
  | registerWorker | remove | heartbeat | monitorWorker | recover => cases ha
  | dispatchLoop | executionLost | jobCall => exact ⟨rfl, rfl⟩
  | reportResult workerID r ctxDone => exact (s.reportResult_frame workerID r ctxDone).2
  | resultLoop now =>
    simp only [step]
    split <;> exact ⟨rfl, rfl⟩
  | receiveDead =>
    simp only [step]
    split
    · rename_i id ch hnone hrecv
      refine ⟨rfl, ?_⟩
      unfold signals
      rw [hnone, Chan.tryRecv_eq_some hrecv]
      rfl
    · exact ⟨rfl, rfl⟩

/-- The loop takes the first death that waits. -/
theorem recovering_receiveDead {id : Int} {rest : List Int} (h : s.signals = id :: rest) :
    (s.step timeout .receiveDead).1.recovering = some id := by
  unfold signals at h
  simp only [step]
  cases hrec : s.recovering with
  | some k =>
    rw [hrec] at h
    cases h
    exact hrec
  | none =>
    rw [hrec] at h
    cases hrecv : s.deadWorkers.tryRecv with
    | none =>
      rw [Chan.tryRecv_eq_none.1 hrecv] at h
      cases h
    | some p =>
      rw [Chan.tryRecv_eq_some hrecv] at h
      cases h
      rfl

theorem signals_recover (ord : RangeOrder Int) : (s.step timeout (.recover ord)).1.signals = s.deadWorkers.buf := by
  simp only [step]
  split
  · rename_i hnone
    unfold signals
    rw [hnone]
    rfl
  · rfl

theorem workers_recover (ord : RangeOrder Int) : (s.step timeout (.recover ord)).1.workers = s.workers := by
  simp only [step]
  split <;> rfl

omit [Store σ]

/-- A worker that times out is reported unless the channel is full. -/
theorem signals_monitorWorker (now : Time) (id : Int) :
    (s.monitorWorker timeout now id).signals =
      if s.timesOut timeout now id = true ∧ s.deadWorkers.buf.length < s.deadWorkers.cap then s.signals ++ [id]
      else s.signals := by
  unfold monitorWorker
  split
  · rename_i hnone
    have hnot : s.timesOut timeout now id = false := by unfold timesOut; rw [hnone]; rfl
    rw [if_neg (by rw [hnot]; exact fun h => nomatch h.1)]
  · split
    · rename_i htime
      show s.recovering.toList ++ (s.deadWorkers.trySend id).buf = _
      rw [Chan.buf_trySend]
      by_cases hroom : s.deadWorkers.buf.length < s.deadWorkers.cap
      · rw [if_pos hroom, if_pos ⟨htime, hroom⟩, ← List.append_assoc]
        rfl
      · rw [if_neg hroom, if_neg fun h => hroom h.2]
        rfl
    · rename_i htime
      rw [if_neg fun h => htime h.1]

theorem live_registerWorker (id : Int) (topics : List String) (now : Time) (k : Int) :
    (s.registerWorker id topics true now).Live k ↔ k = id ∨ s.Live k := by
  have hworkers : (s.registerWorker id topics true now).workers =
      s.workers.insert id { lastHeartbeat := now, alive := true, topics := topics } := rfl
  unfold Live
  rw [hworkers, GoMap.lookup_insert_ite]
  split
  · rename_i hk
    exact iff_of_true ⟨_, rfl, rfl⟩ (.inl hk)
  · rename_i hk
    exact (or_iff_right hk).symm

theorem live_remove (id k : Int) : (s.remove id).Live k ↔ k ≠ id ∧ s.Live k := by
  have hworkers : (s.remove id).workers = s.workers.erase id := rfl
  unfold Live
  rw [hworkers, GoMap.lookup_erase_ite]
  split
  · rename_i hk
    exact iff_of_false (fun ⟨_, hnone, _⟩ => nomatch hnone) fun h => h.1 hk
  · rename_i hk
    exact (and_iff_right hk).symm

theorem live_heartbeat (id : Int) (now : Time) (k : Int) :
    (s.heartbeat id now).Live k ↔ k = id ∧ (s.workers.lookup id).isSome = true ∨ s.Live k := by
  unfold heartbeat
  split
  · rename_i hnone
    rw [hnone]
    exact (or_iff_right fun h => nomatch h.2).symm
  · rename_i info hid
    unfold Live
    rw [GoMap.lookup_insert_ite, hid]
    split
    · rename_i hk
      exact iff_of_true ⟨_, rfl, rfl⟩ (.inl ⟨hk, rfl⟩)
    · rename_i hk
      exact (or_iff_right fun h => hk h.1).symm

theorem live_monitorWorker (now : Time) (id k : Int) :
    (s.monitorWorker timeout now id).Live k ↔ ¬ (k = id ∧ s.timesOut timeout now id = true) ∧ s.Live k := by
  unfold monitorWorker
  split
  · rename_i hnone
    have hnot : s.timesOut timeout now id = false := by unfold timesOut; rw [hnone]; rfl
    exact (and_iff_right fun h => nomatch hnot.symm.trans h.2).symm
  · split
    · rename_i info _ htime
      unfold Live
      rw [GoMap.lookup_insert_ite]
      split
      · rename_i hk
        refine iff_of_false ?_ fun h => h.1 ⟨hk, htime⟩
        rintro ⟨_, heq, halive⟩
        cases heq
        cases halive
      · rename_i hk
        exact (and_iff_right fun h => hk h.1).symm
    · rename_i htime
      exact (and_iff_right fun h => htime h.2).symm

end

/-- A worker that is alive after a step was alive before, or the step registers it or is its heartbeat. -/
theorem live_of_step {timeout : Duration} {s : Fleet σ} {a : Act} {id : Int} (h : (s.step timeout a).1.Live id) :
    s.Live id ∨ (∃ topics now, a = .registerWorker id topics true now) ∨
      ∃ now, a = .heartbeat id now ∧ (s.workers.lookup id).isSome = true := by
  have hquiet : a.keepsMembers = true → s.Live id := by
    intro ha
    unfold Live at h ⊢
    rw [(step_members timeout s ha).1] at h
    exact h
  cases a with
  | registerWorker k topics dialed now =>
    cases dialed with
    | false => exact .inl h
    | true =>
      rcases (live_registerWorker s k topics now id).1 h with rfl | halive
      · exact .inr (.inl ⟨topics, now, rfl⟩)
      · exact .inl halive
  | remove k => exact .inl ((live_remove s k id).1 h).2
  | heartbeat k now =>
    rcases (live_heartbeat s k now id).1 h with ⟨rfl, hreg⟩ | halive
    · exact .inr (.inr ⟨now, rfl, hreg⟩)
    · exact .inl halive
  | monitorWorker k now => exact .inl ((live_monitorWorker timeout s now k id).1 h).2
  | recover ord =>
    unfold Live at h ⊢
    rw [workers_recover] at h
    exact .inl h
  | dispatchLoop | reportResult | executionLost | resultLoop | receiveDead | jobCall => exact .inl (hquiet rfl)

/-! ## Stamps -/

/-- A number for each worker, which a run advances, and for each job the number that its worker had when the lease was
acquired. -/
structure Stamps where
  worker : Int → Nat
  lease : Int → Nat

namespace Stamps

def zero : Stamps := ⟨fun _ => 0, fun _ => 0⟩

def advance (h : Stamps) : Option Int → Stamps
  | none => h
  | some id => { h with worker := Function.update h.worker id (h.worker id + 1) }

/-- The leases of the accepted jobs are stamped. -/
def grant (h : Stamps) (gs : List Grant) : Stamps :=
  { h with lease := fun id =>
      match gs.find? fun g => g.accepted && g.lease.jobID == id with
      | some g => h.worker g.lease.workerID
      | none => h.lease id }

@[simp] theorem lease_advance (h : Stamps) (next : Option Int) : (h.advance next).lease = h.lease := by
  cases next <;> rfl

theorem le_worker_advance (h : Stamps) (next : Option Int) (id : Int) : h.worker id ≤ (h.advance next).worker id := by
  cases next with
  | none => exact Nat.le_refl _
  | some k =>
    by_cases hk : id = k
    · subst hk
      show h.worker id ≤ Function.update h.worker id (h.worker id + 1) id
      rw [Function.update_self]
      omega
    · exact Nat.le_of_eq (Function.update_of_ne hk _ _).symm

end Stamps

/-- The history of a step in which `next` advances a worker's number. -/
def stamp (timeout : Duration) (next : Fleet σ → Act → Option Int) (h : Stamps) (s : Fleet σ) (a : Act) : Stamps :=
  (h.advance (next s a)).grant (s.step timeout a).2

theorem le_worker_stamp (timeout : Duration) (next : Fleet σ → Act → Option Int) (h : Stamps) (s : Fleet σ) (a : Act)
    (id : Int) : h.worker id ≤ (stamp timeout next h s a).worker id :=
  h.le_worker_advance (next s a) id

theorem lease_stamp_of_nil {timeout : Duration} (next : Fleet σ → Act → Option Int) (h : Stamps) {s : Fleet σ} {a : Act}
    (ha : (s.step timeout a).2 = []) : (stamp timeout next h s a).lease = h.lease := by
  unfold stamp Stamps.grant
  rw [ha]
  exact h.lease_advance (next s a)

/-- The lease of an accepted job has the number of its worker. -/
theorem lease_stamp_granted {timeout : Duration} (next : Fleet σ → Act → Option Int) (h : Stamps)
    {s : Fleet σ} {a : Act} {g : Grant} (hg : g ∈ (s.step timeout a).2) (hacc : g.accepted = true) :
    (stamp timeout next h s a).lease g.lease.jobID = (stamp timeout next h s a).worker g.lease.workerID := by
  cases hfind : (s.step timeout a).2.find? fun k => k.accepted && k.lease.jobID == g.lease.jobID with
  | some k =>
    obtain ⟨hacc', hjob⟩ := Bool.and_eq_true_iff.1 (List.find?_some hfind :)
    have hsame : k.lease = g.lease := by
      have hget := lease_granted (List.mem_of_find?_eq_some hfind) hacc'
      rw [beq_iff_eq.1 hjob, lease_granted hg hacc] at hget
      exact (Option.some.inj hget).symm
    simp only [stamp, Stamps.grant, hfind, hsame]
  | none =>
    have hnot := List.find?_eq_none.1 hfind g hg
    exact absurd (Bool.and_eq_true_iff.2 ⟨hacc, beq_iff_eq.2 rfl⟩) hnot

/-- A lease that is there after a step was there before, with its stamp, and is not one that `recoveryLoop` released;
or it belongs to a job that was accepted and has the number of the worker. -/
theorem lease_stamp {timeout : Duration} (next : Fleet σ → Act → Option Int) (h : Stamps) {s : Fleet σ}
    {a : Act} {id : Int} {l : Lease} (hl : (s.step timeout a).1.leases.get id = some l) :
    (s.leases.get id = some l ∧ (∀ ord, a = .recover ord → s.recovering ≠ some l.workerID) ∧
        (stamp timeout next h s a).lease id = h.lease id) ∨
      ∃ g ∈ (s.step timeout a).2, g.accepted = true ∧ g.lease = l ∧
        (stamp timeout next h s a).lease id = (stamp timeout next h s a).worker l.workerID := by
  cases hfind : (s.step timeout a).2.find? fun g => g.accepted && g.lease.jobID == id with
  | some g =>
    obtain ⟨hacc, hjob⟩ := Bool.and_eq_true_iff.1 (List.find?_some hfind :)
    have hg := List.mem_of_find?_eq_some hfind
    rw [← beq_iff_eq.1 hjob] at hl ⊢
    cases (lease_granted hg hacc).symm.trans hl
    exact .inr ⟨g, hg, hacc, rfl, lease_stamp_granted next h hg hacc⟩
  | none =>
    rcases step_lease hl with ⟨hold, hrec⟩ | ⟨g, hg, hacc, heq, hid⟩
    · refine .inl ⟨hold, hrec, ?_⟩
      simp only [stamp, Stamps.grant, hfind, Stamps.lease_advance]
    · subst heq
      have hnot := List.find?_eq_none.1 hfind g hg
      exact absurd (Bool.and_eq_true_iff.2 ⟨hacc, beq_iff_eq.2 hid⟩) hnot

end Fleet

end Quorum
