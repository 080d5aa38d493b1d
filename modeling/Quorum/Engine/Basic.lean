/-
The engine (`internal/engine/engine.go`): submissions, cancellation and deletion around one scheduler,
with or without Raft, and the machines whose inputs are the API calls, the rounds of the scheduler and the
changes of leadership. The `raft` argument of a call is `none` where `RaftNode` is nil, and else what raft
does with the call's proposal.
-/
import Quorum.Consensus.Fsm
import Quorum.Lib.Machine
import Quorum.Scheduler.Basic

namespace Quorum

structure Engine (σ : Type) where
  scheduler : Scheduler σ
  nextJobID : Int

namespace Engine

variable {σ : Type} [Store σ]

/-- `New` on the given store: nothing is queued and the id counter is at zero. -/
def new (store : σ) (available : Chan WorkerClient) (broker : Option Broker) : Engine σ :=
  { scheduler := .new store available broker, nextJobID := 0 }

def withStore (e : Engine σ) (st : σ) : Engine σ := { e with scheduler := { e.scheduler with store := st } }

/-- `e.PriorityQueue.Enqueue` or `e.DelayQueue.Enqueue`. -/
def enqueue (e : Engine σ) (jobID : Int) (q : QueueRef) : Engine σ :=
  { e with scheduler := e.scheduler.enqueueJob jobID q }

/-- `e.nextJobID.Add(1)`. -/
def takeID (e : Engine σ) : Engine σ := { e with nextJobID := e.nextJobID + 1 }

/-- The branch the three submissions share: with Raft the job is proposed, `what` naming the call in the
error; without, it is added to the store and pushed onto a queue. -/
def accept (raft : Option RaftReply) (what : String) (q : QueueRef) (j : Job) (e : Engine σ) :
    Except String Job × Engine σ :=
  match raft with
  | some reply =>
    match propose reply (.addJob j) e.scheduler.store with
    | (st, some err) => (.error s!"raft propose {what} failed: {err}", e.withStore st)
    -- no queue is told
    | (st, none) => (.ok j, e.withStore st)
  | none =>
    match Store.add e.scheduler.store j with
    | .error err => (.error err, e)
    | .ok st => (.ok j, (e.withStore st).enqueue j.id q)

def submitJob (raft : Option RaftReply) (jobType : String) (priority : Int) (e : Engine σ) :
    Except String Job × Engine σ :=
  let e := e.takeID
  e.accept raft "add_job" .priority (.newJob e.nextJobID jobType priority)

def submitJobAt (raft : Option RaftReply) (jobType : String) (priority : Int) (runAt : Time) (e : Engine σ) :
    Except String Job × Engine σ :=
  let e := e.takeID
  let j := { Job.newJob e.nextJobID jobType priority with status := .scheduled, nextRunAt := runAt }
  e.accept raft "add_job_at" .delay j

/-- `SubmitJobIdempotent`; the flag says that the job was there before. -/
def submitJobIdempotent (raft : Option RaftReply) (key jobType : String) (priority : Int) (e : Engine σ) :
    Except String (Job × Bool) × Engine σ :=
  if key = "" then
    let p := e.submitJob raft jobType priority
    (p.1.map fun j => (j, false), p.2)
  else
    match Store.findByIdempotencyKey e.scheduler.store key with
    | some existing => (.ok (existing, true), e)
    | none =>
      let e := e.takeID
      let j := { Job.newJob e.nextJobID jobType priority with idempotencyKey := key }
      let p := e.accept raft "add_job (idempotent)" .priority j
      (p.1.map fun j => (j, false), p.2)

/-- With Raft the answer is `true` whatever became of the proposal. -/
def deleteJob (raft : Option RaftReply) (id : Int) (e : Engine σ) : Bool × Engine σ :=
  match raft with
  | some reply => (true, e.withStore (propose reply (.deleteJob id) e.scheduler.store).1)
  | none => ((Store.delete e.scheduler.store id).1, e.withStore (Store.delete e.scheduler.store id).2)

def cancelJob (raft : Option RaftReply) (id : Int) (e : Engine σ) : Option String × Engine σ :=
  match raft with
  | some reply =>
    let p := propose reply (.cancelJob id) e.scheduler.store
    (p.2, e.withStore p.1)
  | none =>
    let p := orUnchanged e.scheduler.store (Store.cancel e.scheduler.store id)
    (p.2, e.withStore p.1)

def withScheduler (e : Engine σ) (s : Scheduler σ) : Engine σ := { e with scheduler := s }

/-- What `Start` does to the queues in standalone mode, and `watchLeadership` when it reads a claim: the
queues are rebuilt and an error is only logged. -/
def rebuild (ord₁ ord₂ : RangeOrder Int) (e : Engine σ) : Engine σ :=
  e.withScheduler (e.scheduler.rebuildQueuesFromStore ord₁ ord₂).1

/-- What `watchLeadership` does to the leases when it reads a loss. -/
def stepDown (e : Engine σ) : Engine σ := e.withScheduler e.scheduler.clearLeases

/-- `Restore`: the counter continues after the largest stored id, and the queues are rebuilt. -/
def restore (ord ord₁ ord₂ : RangeOrder Int) (e : Engine σ) : Engine σ × Option String :=
  let maxID := (Store.list ord e.scheduler.store).foldl (fun m j => if j.id > m then j.id else m) 0
  let p := e.scheduler.rebuildQueuesFromStore ord₁ ord₂
  ({ scheduler := p.1, nextJobID := maxID }, p.2)

/-- An API call or a round of the scheduler. -/
inductive Input where
  | submitJob (jobType : String) (priority : Int)
  | submitJobAt (jobType : String) (priority : Int) (runAt : Time)
  | submitJobIdempotent (key jobType : String) (priority : Int)
  | cancelJob (id : Int)
  | deleteJob (id : Int)
  | round (r : Scheduler.Round)

/-- One step, with the grants of a dispatch. -/
def step (raft : Option RaftReply) (e : Engine σ) : Input → Engine σ × List Grant
  | .submitJob jobType priority => ((e.submitJob raft jobType priority).2, [])
  | .submitJobAt jobType priority runAt => ((e.submitJobAt raft jobType priority runAt).2, [])
  | .submitJobIdempotent key jobType priority => ((e.submitJobIdempotent raft key jobType priority).2, [])
  | .cancelJob id => ((e.cancelJob raft id).2, [])
  | .deleteJob id => ((e.deleteJob raft id).2, [])
  | .round r => (e.withScheduler (e.scheduler.round r).1, (e.scheduler.round r).2)

/-- The standalone engine. -/
def standalone : Machine (Engine σ) Input Grant := ⟨fun e i => e.step none i⟩

/-- What happens on a node, with or without Raft: a step, or a change of leadership. -/
inductive Event where
  | input (raft : Option RaftReply) (i : Input)
  | claim (ord₁ ord₂ : RangeOrder Int)
  | stepDown

def event (e : Engine σ) : Event → Engine σ × List Grant
  | .input raft i => e.step raft i
  | .claim ord₁ ord₂ => (e.rebuild ord₁ ord₂, [])
  | .stepDown => (e.stepDown, [])

/-- The engine of a node through changes of leadership. -/
def node : Machine (Engine σ) Event Grant := ⟨event⟩

end Engine

end Quorum
