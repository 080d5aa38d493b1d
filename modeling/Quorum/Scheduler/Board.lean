/-
The scheduler's purpose, without its data structures: a board says which jobs are stored, which ids
are ready to be dispatched, which wait for their time, which are leased to a worker, and which jobs are
dead. The rounds of the scheduler's loops are the moves below; `Scheduler.Refine` shows that the code makes
no other.
-/
import Quorum.Scheduler.Basic
import Mathlib.Logic.Function.Basic

namespace Quorum

/-- `dead` is the dead-letter queue of the store, `dlq` the scheduler's own. -/
@[ext] structure Board where
  job : Int → Option Job
  ready : Multiset Int
  delayed : Multiset Int
  lease : Int → Option Lease
  dead : Int → Option Job
  dlq : Int → Option Job

namespace Board

/-- `j` is stored, under its own id. -/
def Stored (b : Board) (id : Int) (j : Job) : Prop := b.job id = some j ∧ j.id = id

def setJob (b : Board) (j : Job) : Board := { b with job := Function.update b.job j.id (some j) }

/-- A write of `j` over the stored job `old`: refused unless the transition is legal. -/
def write (b : Board) (old j : Job) : Board :=
  if isValidTransition old.status j.status = true then b.setJob j else b

def dropLease (b : Board) (id : Int) : Board := { b with lease := Function.update b.lease id none }

def setLease (b : Board) (l : Lease) : Board := { b with lease := Function.update b.lease l.jobID (some l) }

/-- Both dead-letter queues take `j`. -/
def bury (b : Board) (j : Job) : Board :=
  { b with dead := Function.update b.dead j.id (some j), dlq := Function.update b.dlq j.id (some j) }

def withReady (b : Board) (m : Multiset Int) : Board := { b with ready := m }

def withDelayed (b : Board) (m : Multiset Int) : Board := { b with delayed := m }

/-- The attempt number of the next lease of `id`. -/
def nextAttempt (b : Board) (id : Int) : Int := ((b.lease id).map fun l => l.attempt + 1).getD 1

/-- A result that is not discarded: the job has no lease, or the result names no attempt, or it names
the lease's. -/
def Fresh (b : Board) (r : Result) : Prop :=
  ∀ l, b.lease r.jobID = some l → r.attempt ≤ 0 ∨ r.attempt = l.attempt

/-! ## Moves -/

/-- A round of `dispatchLoop` at time `now`. -/
inductive Dispatches (now : Time) (b : Board) : List Grant → Board → Prop
  | idle : b.ready = 0 → Dispatches now b [] b
  | skip {id : Int} {rest : Multiset Int} : b.ready = id ::ₘ rest →
      (∀ j, b.job id = some j → j.status.isTerminal = true) → Dispatches now b [] (b.withReady rest)
  | requeue {id : Int} {rest : Multiset Int} : b.ready = id ::ₘ rest → Dispatches now b [] b
  | refuse {id : Int} {rest : Multiset Int} {j : Job} {w : Int} : b.ready = id ::ₘ rest → b.Stored id j →
      j.status.isTerminal = false →
      Dispatches now b [⟨⟨id, w, 1, b.nextAttempt id⟩, j, now, false⟩] (b.dropLease id)
  | grant {id : Int} {rest : Multiset Int} {j : Job} {w : Int} : b.ready = id ::ₘ rest → b.Stored id j →
      j.status.isTerminal = false →
      Dispatches now b [⟨⟨id, w, 1, b.nextAttempt id⟩, j, now, true⟩]
        ((b.withReady rest).setLease ⟨id, w, 1, b.nextAttempt id⟩)

/-- A round of `resultLoop` that receives `r` at time `now`. -/
inductive Reports (now : Time) (r : Result) (b : Board) : Board → Prop
  | missing : b.job r.jobID = none → Reports now r b b
  | stale {l : Lease} : b.lease r.jobID = some l → 0 < r.attempt → r.attempt ≠ l.attempt → Reports now r b b
  | completed {j : Job} : b.Stored r.jobID j → b.Fresh r → r.success = true →
      Reports now r b ((b.dropLease r.jobID).write j { j with status := .completed })
  | retried {j : Job} : b.Stored r.jobID j → b.Fresh r → r.success = false → shouldRetry j = true →
      Reports now r b (((b.dropLease r.jobID).write j (Scheduler.retryJob now (r.error.getD "") j)).withDelayed
        (r.jobID ::ₘ b.delayed))
  | buried {j : Job} : b.Stored r.jobID j → b.Fresh r → r.success = false → shouldRetry j = false →
      Reports now r b (((b.dropLease r.jobID).write j { j with status := .failed, lastError := r.error.getD "" }).bury
        { j with status := .failed, lastError := r.error.getD "" })

/-- A round of `ProcessDelayedJobs` at time `now`. -/
inductive Promotes (now : Time) (b : Board) : Board → Prop
  | wait : Promotes now b b
  | drop {id : Int} {rest : Multiset Int} : b.delayed = id ::ₘ rest → b.job id = none →
      Promotes now b (b.withDelayed rest)
  | refused {id : Int} {rest : Multiset Int} {j : Job} : b.delayed = id ::ₘ rest → b.Stored id j →
      j.nextRunAt ≤ now → isValidTransition j.status .pending = false → Promotes now b (b.withDelayed rest)
  | promoted {id : Int} {rest : Multiset Int} {j : Job} : b.delayed = id ::ₘ rest → b.Stored id j →
      j.nextRunAt ≤ now → isValidTransition j.status .pending = true →
      Promotes now b (((b.setJob { j with status := .pending }).withDelayed rest).withReady (id ::ₘ b.ready))

/-- `id` is leased to worker `w`. -/
def LeasedTo (b : Board) (w id : Int) : Prop := ∃ l, b.lease id = some l ∧ l.workerID = w

/-- A round of `recoveryLoop` for the dead worker `w`: its leases are gone, and each of its jobs that is
still pending is ready once more. -/
structure Recovers (w : Int) (b b' : Board) : Prop where
  job : b'.job = b.job
  delayed : b'.delayed = b.delayed
  dead : b'.dead = b.dead
  dlq : b'.dlq = b.dlq
  released : ∀ id, b.LeasedTo w id → b'.lease id = none
  kept : ∀ id, ¬ b.LeasedTo w id → b'.lease id = b.lease id ∧ b'.ready.count id = b.ready.count id
  requeued : ∀ id j, b.LeasedTo w id → b.job id = some j → j.status = .pending →
    b'.ready.count id = b.ready.count id + 1
  dropped : ∀ id, b.LeasedTo w id → (∀ j, b.job id = some j → j.status ≠ .pending) →
    b'.ready.count id = b.ready.count id

/-- A round of the scheduler. -/
inductive Rounds (b : Board) : Scheduler.Round → List Grant → Board → Prop
  | workers {available : Chan WorkerClient} {broker : Option Broker} : Rounds b (.workers available broker) [] b
  | dispatches {now : Time} {submit : WorkerClient → Job → Option String} {gs : List Grant} {b' : Board} :
      b.Dispatches now gs b' → Rounds b (.dispatchLoop now submit) gs b'
  | reports {now : Time} {r : Result} {b' : Board} : b.Reports now r b' → Rounds b (.resultLoop now r) [] b'
  | promotes {now : Time} {b' : Board} : b.Promotes now b' → Rounds b (.processDelayedJobs now) [] b'
  | recovers {w : Int} {ord : RangeOrder Int} {b' : Board} : b.Recovers w b' → Rounds b (.recoveryLoop w ord) [] b'

/-! ## The parts of a board after an update -/

section
variable (b : Board) (j old : Job) (l : Lease) (id k : Int) (m : Multiset Int)

@[simp] theorem withReady_job : (b.withReady m).job = b.job := rfl
@[simp] theorem withReady_ready : (b.withReady m).ready = m := rfl
@[simp] theorem withReady_delayed : (b.withReady m).delayed = b.delayed := rfl
@[simp] theorem withReady_lease : (b.withReady m).lease = b.lease := rfl

@[simp] theorem withDelayed_job : (b.withDelayed m).job = b.job := rfl
@[simp] theorem withDelayed_ready : (b.withDelayed m).ready = b.ready := rfl
@[simp] theorem withDelayed_delayed : (b.withDelayed m).delayed = m := rfl
@[simp] theorem withDelayed_lease : (b.withDelayed m).lease = b.lease := rfl

@[simp] theorem setJob_job : (b.setJob j).job k = if k = j.id then some j else b.job k := by
  simp [setJob, Function.update_apply]

@[simp] theorem setJob_ready : (b.setJob j).ready = b.ready := rfl
@[simp] theorem setJob_delayed : (b.setJob j).delayed = b.delayed := rfl
@[simp] theorem setJob_lease : (b.setJob j).lease = b.lease := rfl

@[simp] theorem dropLease_job : (b.dropLease id).job = b.job := rfl
@[simp] theorem dropLease_ready : (b.dropLease id).ready = b.ready := rfl
@[simp] theorem dropLease_delayed : (b.dropLease id).delayed = b.delayed := rfl

@[simp] theorem dropLease_lease : (b.dropLease id).lease k = if k = id then none else b.lease k := by
  simp [dropLease, Function.update_apply]

@[simp] theorem setLease_job : (b.setLease l).job = b.job := rfl
@[simp] theorem setLease_ready : (b.setLease l).ready = b.ready := rfl
@[simp] theorem setLease_delayed : (b.setLease l).delayed = b.delayed := rfl

@[simp] theorem setLease_lease : (b.setLease l).lease k = if k = l.jobID then some l else b.lease k := by
  simp [setLease, Function.update_apply]

@[simp] theorem write_job : (b.write old j).job k =
    if isValidTransition old.status j.status = true ∧ k = j.id then some j else b.job k := by
  unfold write
  split
  · rename_i h; simp [h]
  · rename_i h; simp [h]

@[simp] theorem bury_job : (b.bury j).job = b.job := rfl
@[simp] theorem bury_ready : (b.bury j).ready = b.ready := rfl
@[simp] theorem bury_delayed : (b.bury j).delayed = b.delayed := rfl
@[simp] theorem bury_lease : (b.bury j).lease = b.lease := rfl

@[simp] theorem bury_dead : (b.bury j).dead k = if k = j.id then some j else b.dead k := by
  simp [bury, Function.update_apply]

@[simp] theorem bury_dlq : (b.bury j).dlq k = if k = j.id then some j else b.dlq k := by
  simp [bury, Function.update_apply]

@[simp] theorem write_ready : (b.write old j).ready = b.ready := by unfold write; split <;> rfl
@[simp] theorem write_delayed : (b.write old j).delayed = b.delayed := by unfold write; split <;> rfl
@[simp] theorem write_lease : (b.write old j).lease = b.lease := by unfold write; split <;> rfl
@[simp] theorem write_dead : (b.write old j).dead = b.dead := by unfold write; split <;> rfl
@[simp] theorem write_dlq : (b.write old j).dlq = b.dlq := by unfold write; split <;> rfl

end

end Board

end Quorum
