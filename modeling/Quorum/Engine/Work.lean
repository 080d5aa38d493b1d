/-
The standalone engine at work, and what a step of it does to one job. Besides the API calls and the rounds of
the scheduler there are the ends of executions on in-process workers, whose runners write the job they were
given to the engine's store. `work_view` says once for all results about a single job how a step can change
that job's record, its occurrences in the queues, its lease and its dead letters.
-/
import Quorum.Engine.Moves
import Quorum.Worker.Runner

namespace Quorum

/-- What happens to a standalone engine: an API call or a round, or an in-process worker has executed `j` and
its runner writes the outcome to the store. -/
inductive Engine.Work where
  | input (i : Engine.Input)
  | finish (j : Job) (err : Option ExecError)

/-- What a step shows: the grants of a dispatch, the result a round of `resultLoop` received, the job a runner
wrote back. -/
inductive Engine.Seen where
  | granted (g : Grant)
  | received (r : Result)
  | finished (j : Job)

open Engine (Input Work Seen)

/-- The result a step receives, if it is a round of `resultLoop`. -/
def Engine.Input.received : Input → List Result
  | .round (.resultLoop _ r) => [r]
  | _ => []

namespace Engine

section
variable {σ : Type} [Store σ]

/-- The update of an in-process runner, with its error ignored. -/
def finish (e : Engine σ) (j : Job) (err : Option ExecError) : Engine σ :=
  e.withStore (Store.tryUpdate e.scheduler.store (Runner.finish j err))

def work (e : Engine σ) : Work → Engine σ × List Seen
  | .input i => ((e.step none i).1, (e.step none i).2.map .granted ++ i.received.map .received)
  | .finish j err => (e.finish j err, [.finished j])

/-- The standalone engine with workers of its own. -/
def working : Machine (Engine σ) Work Seen := ⟨work⟩

end

end Engine

/-! ## One job -/

/-- A job as the scheduler sees it: its record, how often its id is in each queue, its lease and its entries in
the two dead-letter queues. -/
@[ext] structure JobView where
  job : Option Job
  ready : Nat
  delayed : Nat
  lease : Option Lease
  dead : Option Job
  dlq : Option Job

def Board.view (b : Board) (id : Int) : JobView :=
  ⟨b.job id, b.ready.count id, b.delayed.count id, b.lease id, b.dead id, b.dlq id⟩

namespace JobView

/-- A write of `j` over the stored job `old`: refused unless the transition is legal. -/
def write (v : JobView) (old j : Job) : JobView :=
  if isValidTransition old.status j.status = true then { v with job := some j } else v

def unleased (v : JobView) : JobView := { v with lease := none }

def push (v : JobView) : QueueRef → JobView
  | .priority => { v with ready := v.ready + 1 }
  | .delay => { v with delayed := v.delayed + 1 }

def bury (v : JobView) (j : Job) : JobView := { v with dead := some j, dlq := some j }

/-- What an accepted result does to its job, which is stored as `j`. -/
def report (now : Time) (r : Result) (j : Job) (v : JobView) : JobView :=
  if r.success = true then v.unleased.write j { j with status := .completed }
  else if shouldRetry j = true then (v.unleased.write j (Scheduler.retryJob now (r.error.getD "") j)).push .delay
  else
    (v.unleased.write j { j with status := .failed, lastError := r.error.getD "" }).bury
      { j with status := .failed, lastError := r.error.getD "" }

def nextAttempt (v : JobView) : Int := (v.lease.map fun l => l.attempt + 1).getD 1

/-- The result is not discarded as stale. -/
def Fresh (v : JobView) (r : Result) : Prop := ∀ l, v.lease = some l → r.attempt ≤ 0 ∨ r.attempt = l.attempt

/-- How a step with the grants `gs` can change the view of the job `id`, `next` being the id counter before
it. -/
inductive Step (next id : Int) (v : JobView) : Work → List Grant → JobView → Prop
  | away {w : Work} {gs : List Grant} : (∀ g ∈ gs, g.lease.jobID ≠ id) → Step next id v w gs v
  | created {i : Input} {q : QueueRef} {j : Job} : i.newJob (next + 1) = some (q, j) → id = next + 1 →
      Step next id v (.input i) [] ({ v with job := some j }.push q)
  | cancelled {j : Job} : v.job = some j → j.id = id → j.status.isTerminal = false →
      Step next id v (.input (.cancelJob id)) [] { v with job := some { j with status := .cancelled } }
  | deleted : Step next id v (.input (.deleteJob id)) [] { v with job := none }
  | skipped {now : Time} {submit : WorkerClient → Job → Option String} {m : Nat} : v.ready = m + 1 →
      (∀ j, v.job = some j → j.status.isTerminal = true) →
      Step next id v (.input (.round (.dispatchLoop now submit))) [] { v with ready := m }
  | refused {now : Time} {submit : WorkerClient → Job → Option String} {m : Nat} {j : Job} {w : Int} :
      v.ready = m + 1 → v.job = some j → j.id = id → j.status.isTerminal = false →
      Step next id v (.input (.round (.dispatchLoop now submit)))
        [⟨⟨id, w, 1, v.nextAttempt⟩, j, now, false⟩] v.unleased
  | granted {now : Time} {submit : WorkerClient → Job → Option String} {m : Nat} {j : Job} {w : Int} :
      v.ready = m + 1 → v.job = some j → j.id = id → j.status.isTerminal = false →
      Step next id v (.input (.round (.dispatchLoop now submit))) [⟨⟨id, w, 1, v.nextAttempt⟩, j, now, true⟩]
        { v with ready := m, lease := some ⟨id, w, 1, v.nextAttempt⟩ }
  | completed {now : Time} {r : Result} {j : Job} : r.jobID = id → v.job = some j → j.id = id → v.Fresh r →
      r.success = true →
      Step next id v (.input (.round (.resultLoop now r))) [] (v.unleased.write j { j with status := .completed })
  | retried {now : Time} {r : Result} {j : Job} : r.jobID = id → v.job = some j → j.id = id → v.Fresh r →
      r.success = false → shouldRetry j = true →
      Step next id v (.input (.round (.resultLoop now r))) []
        ((v.unleased.write j (Scheduler.retryJob now (r.error.getD "") j)).push .delay)
  | buried {now : Time} {r : Result} {j : Job} : r.jobID = id → v.job = some j → j.id = id → v.Fresh r →
      r.success = false → shouldRetry j = false →
      Step next id v (.input (.round (.resultLoop now r))) []
        ((v.unleased.write j { j with status := .failed, lastError := r.error.getD "" }).bury
          { j with status := .failed, lastError := r.error.getD "" })
  | dropped {now : Time} {m : Nat} : v.delayed = m + 1 →
      (∀ j, v.job = some j → j.nextRunAt ≤ now ∧ isValidTransition j.status .pending = false) →
      Step next id v (.input (.round (.processDelayedJobs now))) [] { v with delayed := m }
  | promoted {now : Time} {m : Nat} {j : Job} : v.delayed = m + 1 → v.job = some j → j.id = id → j.nextRunAt ≤ now →
      isValidTransition j.status .pending = true →
      Step next id v (.input (.round (.processDelayedJobs now))) []
        ({ v with job := some { j with status := .pending }, delayed := m }.push .priority)
  | recovered {w : Int} {ord : RangeOrder Int} {l : Lease} : v.lease = some l → l.workerID = w →
      (∀ j, v.job = some j → j.status ≠ .pending) →
      Step next id v (.input (.round (.recoveryLoop w ord))) [] v.unleased
  | requeued {w : Int} {ord : RangeOrder Int} {l : Lease} {j : Job} : v.lease = some l → l.workerID = w →
      v.job = some j → j.status = .pending →
      Step next id v (.input (.round (.recoveryLoop w ord))) [] (v.unleased.push .priority)
  | finished {j old : Job} {err : Option ExecError} : j.id = id → v.job = some old →
      Step next id v (.finish j err) [] (v.write old (Runner.finish j err))

/-! The parts of a view after an update. -/

section
variable (v : JobView) (old j : Job)

theorem write_job (h : v.job = some old) :
    (v.write old j).job = some (if isValidTransition old.status j.status = true then j else old) := by
  unfold write
  split
  · rfl
  · exact h

@[simp] theorem write_ready : (v.write old j).ready = v.ready := by unfold write; split <;> rfl
@[simp] theorem write_delayed : (v.write old j).delayed = v.delayed := by unfold write; split <;> rfl
@[simp] theorem write_lease : (v.write old j).lease = v.lease := by unfold write; split <;> rfl
@[simp] theorem write_dead : (v.write old j).dead = v.dead := by unfold write; split <;> rfl
@[simp] theorem write_dlq : (v.write old j).dlq = v.dlq := by unfold write; split <;> rfl

end

end JobView

/-! ## A move of the board, seen from one job -/

namespace Board

variable {b b' : Board} {id next : Int}

theorem view_write {old j : Job} (hj : j.id = id) : (b.write old j).view id = (b.view id).write old j := by
  unfold write JobView.write
  split
  · refine JobView.ext ?_ rfl rfl rfl rfl rfl
    simp [view, hj]
  · rfl

theorem view_write_ne {old j : Job} (hj : id ≠ j.id) : (b.write old j).view id = b.view id := by
  refine JobView.ext ?_ ?_ ?_ ?_ ?_ ?_
  · simp [view, hj]
  · simp [view]
  · simp [view]
  · simp [view]
  · simp [view]
  · simp [view]

theorem view_dropLease : (b.dropLease id).view id = (b.view id).unleased := by
  refine JobView.ext rfl rfl rfl ?_ rfl rfl
  simp [view, JobView.unleased]

theorem view_dropLease_ne {k : Int} (hk : id ≠ k) : (b.dropLease k).view id = b.view id := by
  refine JobView.ext rfl rfl rfl ?_ rfl rfl
  simp [view, hk]

/-- What an accepted result does first: the lease is released and the job is written. -/
theorem view_accept {old : Job} (hst : b.Stored id old) (j : Job) (hj : j.id = old.id) :
    ((b.dropLease id).write old j).view id = (b.view id).unleased.write old j := by
  rw [view_write (hj.trans hst.2), view_dropLease]

theorem view_accept_ne {k : Int} {old : Job} (hst : b.Stored k old) (j : Job) (hj : j.id = old.id) (hk : id ≠ k) :
    ((b.dropLease k).write old j).view id = b.view id := by
  rw [view_write_ne fun h => hk (h.trans (hj.trans hst.2)), view_dropLease_ne hk]

theorem Dispatches.view {now : Time} {submit : WorkerClient → Job → Option String} {gs : List Grant}
    (hd : b.Dispatches now gs b') :
    JobView.Step next id (b.view id) (.input (.round (.dispatchLoop now submit))) gs (b'.view id) := by
  have hcount : ∀ {k : Int} {rest : Multiset Int}, b.ready = k ::ₘ rest → id = k →
      (b.view id).ready = rest.count id + 1 := by
    rintro k rest hids rfl
    show b.ready.count id = _
    rw [hids, Multiset.count_cons_self]
  have hother : ∀ {k : Int} {rest : Multiset Int}, b.ready = k ::ₘ rest → id ≠ k →
      rest.count id = b.ready.count id := by
    intro k rest hids hk
    rw [hids, Multiset.count_cons_of_ne hk]
  cases hd with
  | idle _ => exact .away fun g hg => by cases hg
  | requeue _ => exact .away fun g hg => by cases hg
  | @skip k rest hids hterm =>
    by_cases hk : id = k
    · subst hk
      exact .skipped (hcount hids rfl) hterm
    · have hsame : (b.withReady rest).view id = b.view id := JobView.ext rfl (hother hids hk) rfl rfl rfl rfl
      rw [hsame]
      exact .away fun g hg => by cases hg
  | @refuse k rest j w hids hst ht =>
    by_cases hk : id = k
    · subst hk
      rw [view_dropLease]
      exact .refused (hcount hids rfl) hst.1 hst.2 ht
    · rw [view_dropLease_ne hk]
      refine .away fun g hg => ?_
      cases List.mem_singleton.1 hg
      exact Ne.symm hk
  | @grant k rest j w hids hst ht =>
    by_cases hk : id = k
    · subst hk
      have hview : ((b.withReady rest).setLease ⟨id, w, 1, b.nextAttempt id⟩).view id =
          { b.view id with ready := rest.count id, lease := some ⟨id, w, 1, (b.view id).nextAttempt⟩ } := by
        refine JobView.ext rfl rfl rfl ?_ rfl rfl
        simp [Board.view, JobView.nextAttempt, nextAttempt]
      rw [hview]
      exact .granted (hcount hids rfl) hst.1 hst.2 ht
    · have hsame : ((b.withReady rest).setLease ⟨k, w, 1, b.nextAttempt k⟩).view id = b.view id := by
        refine JobView.ext rfl (hother hids hk) rfl ?_ rfl rfl
        simp [Board.view, hk]
      rw [hsame]
      refine .away fun g hg => ?_
      cases List.mem_singleton.1 hg
      exact Ne.symm hk

/-- A step that leaves the view of `id` as it is and grants nothing. -/
theorem view_away {w : Work} (h : b'.view id = b.view id) : JobView.Step next id (b.view id) w [] (b'.view id) := by
  rw [h]
  exact .away fun g hg => by cases hg

/-- What an accepted result does to its own job. -/
theorem Reports.view_own {now : Time} {r : Result} (hr : b.Reports now r b') {j : Job} (hst : b.Stored r.jobID j)
    (hf : b.Fresh r) : b'.view r.jobID = (b.view r.jobID).report now r j := by
  have hsame : ∀ {x : Job}, b.Stored r.jobID x → x = j := fun hx => Option.some.inj (hx.1.symm.trans hst.1)
  unfold JobView.report
  cases hr with
  | missing hnone => rw [hst.1] at hnone; cases hnone
  | stale hl hpos hne =>
    rcases hf _ hl with hle | heq
    · omega
    · exact absurd heq hne
  | @completed x hst' _ hok =>
    obtain rfl := hsame hst'
    rw [if_pos hok, view_accept hst' { x with status := .completed } rfl]
  | @retried x hst' _ hok hret =>
    obtain rfl := hsame hst'
    rw [if_neg (by simp [hok]), if_pos hret, ← view_accept hst' (Scheduler.retryJob now (r.error.getD "") x) rfl]
    refine JobView.ext rfl rfl ?_ rfl rfl rfl
    simp [Board.view, JobView.push]
  | @buried x hst' _ hok hret =>
    obtain rfl := hsame hst'
    rw [if_neg (by simp [hok]), if_neg (by simp [hret]),
      ← view_accept hst' { x with status := .failed, lastError := r.error.getD "" } rfl]
    refine JobView.ext rfl rfl rfl rfl ?_ ?_
    · simp [Board.view, JobView.bury, hst'.2]
    · simp [Board.view, JobView.bury, hst'.2]

/-- A result leaves the other jobs alone. -/
theorem Reports.view_other {now : Time} {r : Result} (hr : b.Reports now r b') (hid : id ≠ r.jobID) :
    b'.view id = b.view id := by
  cases hr with
  | missing _ => rfl
  | stale _ _ _ => rfl
  | @completed j hst _ _ => exact view_accept_ne hst { j with status := .completed } rfl hid
  | @retried j hst _ _ _ =>
    rw [← view_accept_ne hst (Scheduler.retryJob now (r.error.getD "") j) rfl hid]
    refine JobView.ext rfl rfl ?_ rfl rfl rfl
    simp [Board.view, hid]
  | @buried j hst _ _ _ =>
    have hne : id ≠ j.id := fun h => hid (h.trans hst.2)
    rw [← view_accept_ne hst { j with status := .failed, lastError := r.error.getD "" } rfl hid]
    refine JobView.ext rfl rfl rfl rfl ?_ ?_
    · simp [Board.view, hne]
    · simp [Board.view, hne]

theorem Reports.view {now : Time} {r : Result} (hr : b.Reports now r b') :
    JobView.Step next id (b.view id) (.input (.round (.resultLoop now r))) [] (b'.view id) := by
  by_cases hid : id = r.jobID
  · subst hid
    have hown : ∀ j, b.Stored r.jobID j → b.Fresh r → b'.view r.jobID = (b.view r.jobID).report now r j :=
      fun j hst hf => hr.view_own hst hf
    cases hr with
    | missing _ => exact view_away rfl
    | stale _ _ _ => exact view_away rfl
    | @completed j hst hf hok =>
      rw [hown j hst hf, JobView.report, if_pos hok]
      exact .completed rfl hst.1 hst.2 hf hok
    | @retried j hst hf hok hret =>
      rw [hown j hst hf, JobView.report, if_neg (by simp [hok]), if_pos hret]
      exact .retried rfl hst.1 hst.2 hf hok hret
    | @buried j hst hf hok hret =>
      rw [hown j hst hf, JobView.report, if_neg (by simp [hok]), if_neg (by simp [hret])]
      exact .buried rfl hst.1 hst.2 hf hok hret
  · exact view_away (hr.view_other hid)

theorem Promotes.view {now : Time} (hp : b.Promotes now b') :
    JobView.Step next id (b.view id) (.input (.round (.processDelayedJobs now))) [] (b'.view id) := by
  have hcount : ∀ {rest : Multiset Int}, b.delayed = id ::ₘ rest → (b.view id).delayed = rest.count id + 1 := by
    intro rest hids
    show b.delayed.count id = _
    rw [hids, Multiset.count_cons_self]
  have hother : ∀ {k : Int} {rest : Multiset Int}, b.delayed = k ::ₘ rest → id ≠ k →
      rest.count id = b.delayed.count id := by
    intro k rest hids hk
    rw [hids, Multiset.count_cons_of_ne hk]
  cases hp with
  | wait => exact view_away rfl
  | @drop k rest hids hnone =>
    by_cases hk : id = k
    · subst hk
      exact .dropped (hcount hids) fun j hj => by
        rw [show (b.view id).job = none from hnone] at hj; cases hj
    · exact view_away (JobView.ext rfl rfl (hother hids hk) rfl rfl rfl)
  | @refused k rest j hids hst hdue hv =>
    by_cases hk : id = k
    · subst hk
      exact .dropped (hcount hids) fun x hx => by
        rw [show (b.view id).job = some j from hst.1] at hx; cases hx
        exact ⟨hdue, hv⟩
    · exact view_away (JobView.ext rfl rfl (hother hids hk) rfl rfl rfl)
  | @promoted k rest j hids hst hdue hv =>
    by_cases hk : id = k
    · subst hk
      have hview : (((b.setJob { j with status := .pending }).withDelayed rest).withReady (id ::ₘ b.ready)).view id =
          ({ b.view id with job := some { j with status := .pending }, delayed := rest.count id } : JobView).push
            .priority := by
        refine JobView.ext ?_ ?_ rfl rfl rfl rfl
        · simp [Board.view, JobView.push, hst.2]
        · simp [Board.view, JobView.push]
      rw [hview]
      exact .promoted (hcount hids) hst.1 hst.2 hdue hv
    · refine view_away (JobView.ext ?_ ?_ (hother hids hk) rfl rfl rfl)
      · simp [Board.view, hst.2, hk]
      · simp [Board.view, hk]

theorem Recovers.view {w : Int} {ord : RangeOrder Int} (hr : b.Recovers w b') :
    JobView.Step next id (b.view id) (.input (.round (.recoveryLoop w ord))) [] (b'.view id) := by
  have hjob : b'.job id = b.job id := congrFun hr.job id
  have hdelayed : b'.delayed.count id = b.delayed.count id := by rw [hr.delayed]
  have hdead : b'.dead id = b.dead id := congrFun hr.dead id
  have hdlq : b'.dlq id = b.dlq id := congrFun hr.dlq id
  by_cases hl : b.LeasedTo w id
  · obtain ⟨l, hlease, hw⟩ := hl
    have hnone := hr.released id ⟨l, hlease, hw⟩
    by_cases hp : ∃ j, b.job id = some j ∧ j.status = .pending
    · obtain ⟨j, hj, hpend⟩ := hp
      have hview : b'.view id = (b.view id).unleased.push .priority :=
        JobView.ext hjob (hr.requeued id j ⟨l, hlease, hw⟩ hj hpend) hdelayed hnone hdead hdlq
      rw [hview]
      exact .requeued hlease hw hj hpend
    · have hnp : ∀ j, b.job id = some j → j.status ≠ .pending := fun j hj hpend => hp ⟨j, hj, hpend⟩
      have hview : b'.view id = (b.view id).unleased :=
        JobView.ext hjob (hr.dropped id ⟨l, hlease, hw⟩ hnp) hdelayed hnone hdead hdlq
      rw [hview]
      exact .recovered hlease hw hnp
  · obtain ⟨hlease, hcount⟩ := hr.kept id hl
    exact view_away (JobView.ext hjob hcount hdelayed hlease hdead hdlq)

theorem Step.view {n' : Int} {i : Input} {gs : List Grant} (hs : b.Step none next i gs n' b') :
    JobView.Step next id (b.view id) (.input i) gs (b'.view id) := by
  cases hs with
  | @submitted i q j _ hi =>
    have hj := newJob_id hi
    by_cases hid : id = next + 1
    · have hview : ((b.setJob j).push j.id q).view id = ({ b.view id with job := some j } : JobView).push q := by
        cases q with
        | priority =>
          refine JobView.ext ?_ ?_ rfl rfl rfl rfl
          · simp [Board.view, JobView.push, push, hid, hj]
          · simp [Board.view, JobView.push, push, hid, hj]
        | delay =>
          refine JobView.ext ?_ rfl ?_ rfl rfl rfl
          · simp [Board.view, JobView.push, push, hid, hj]
          · simp [Board.view, JobView.push, push, hid, hj]
      rw [hview]
      exact .created hi hid
    · have hne : id ≠ j.id := fun h => hid (h.trans hj)
      refine view_away ?_
      cases q with
      | priority =>
        refine JobView.ext ?_ ?_ rfl rfl rfl rfl
        · simp [Board.view, push, hne]
        · simp [Board.view, push, hne]
      | delay =>
        refine JobView.ext ?_ rfl ?_ rfl rfl rfl
        · simp [Board.view, push, hne]
        · simp [Board.view, push, hne]
  | committed ha _ => cases ha
  | rejected _ => exact view_away rfl
  | deduplicated _ => exact view_away rfl
  | @cancelled k j hst ht =>
    by_cases hk : id = k
    · subst hk
      have hview : (b.setJob { j with status := .cancelled }).view id =
          { b.view id with job := some { j with status := .cancelled } } := by
        refine JobView.ext ?_ rfl rfl rfl rfl rfl
        simp [Board.view, hst.2]
      rw [hview]
      exact .cancelled hst.1 hst.2 ht
    · refine view_away (JobView.ext ?_ rfl rfl rfl rfl rfl)
      simp [Board.view, hst.2, hk]
  | notCancelled => exact view_away rfl
  | @deleted k =>
    by_cases hk : id = k
    · subst hk
      have hview : (b.removeJob id).view id = { b.view id with job := none } := by
        refine JobView.ext ?_ rfl rfl rfl rfl rfl
        simp [Board.view]
      rw [hview]
      exact .deleted
    · refine view_away (JobView.ext ?_ rfl rfl rfl rfl rfl)
      simp [Board.view, hk]
  | notDeleted => exact view_away rfl
  | rounds hr =>
    cases hr with
    | workers => exact view_away rfl
    | dispatches hd => exact hd.view
    | reports hr => exact hr.view
    | promotes hp => exact hp.view
    | recovers hr => exact hr.view

theorem Step.next_le {raft : Option RaftReply} {n' : Int} {i : Input} {gs : List Grant}
    (hs : b.Step raft next i gs n' b') : next ≤ n' := by
  cases hs with
  | submitted _ _ | committed _ _ | rejected _ => omega
  | deduplicated _ | cancelled _ _ | notCancelled | deleted | notDeleted | rounds _ => exact Int.le_refl _

end Board

namespace Engine

variable {σ : Type} [LawfulStore σ]

/-! ## Every step, seen from one job -/

/-- The grants among what a step shows. -/
def grants (seen : List Seen) : List Grant := seen.filterMap fun s => match s with
  | .granted g => some g
  | _ => none

/-- The job a standalone engine has under `id`. -/
def view (e : Engine σ) (id : Int) : JobView := e.board.view id

/-- What the update of an in-process runner does to the board. -/
theorem finish_board {e : Engine σ} (h : e.Sound) (j : Job) (err : Option ExecError) :
    (e.board.job j.id = none ∧ (e.finish j err).board = e.board) ∨
      ∃ old, e.board.Stored j.id old ∧ (e.finish j err).board = e.board.write old (Runner.finish j err) := by
  cases hj : e.board.job j.id with
  | none =>
    refine .inl ⟨rfl, ?_⟩
    unfold finish
    rw [Store.tryUpdate_refused]
    · rfl
    · intro old hold
      rw [Runner.finish_id, show Store.get e.scheduler.store j.id = none from hj] at hold
      cases hold
  | some old =>
    have hst : e.scheduler.board.Stored j.id old := Scheduler.stored h.wf hj
    exact .inr ⟨old, hst, Scheduler.board_tryUpdate hst (Runner.finish j err) (Runner.finish_id j err)⟩

theorem finish_sound {e : Engine σ} (h : e.Sound) (j : Job) (err : Option ExecError) : (e.finish j err).Sound := by
  refine ⟨Scheduler.wf_tryUpdate h.wf _, fun id hid => ?_⟩
  have hun := h.bounded id hid
  rcases finish_board h j err with ⟨-, hb⟩ | ⟨old, hst, hb⟩
  · rw [hb]; exact hun
  · -- the job that is written is stored, so it is not the unused one
    have hne : id ≠ (Runner.finish j err).id := by
      intro hk
      rw [Runner.finish_id] at hk
      rw [← hk] at hst
      cases hun.job.symm.trans hst.1
    rw [hb]
    refine ⟨?_, by simpa using hun.ready, by simpa using hun.delayed, by simpa using hun.lease⟩
    simp [hne, hun.job]

theorem work_sound {e : Engine σ} (h : e.Sound) (w : Work) : (e.work w).1.Sound := by
  cases w with
  | input i => exact step_sound none h i
  | finish j err => exact finish_sound h j err

/-- The id counter never goes down. -/
theorem nextJobID_work {e : Engine σ} (h : e.Sound) (w : Work) : e.nextJobID ≤ (e.work w).1.nextJobID := by
  cases w with
  | input i => exact (step_board none h.wf i).next_le
  | finish j err => exact Int.le_refl _

theorem grants_input (e : Engine σ) (i : Input) : grants (e.work (.input i)).2 = (e.step none i).2 := by
  show ((e.step none i).2.map Seen.granted ++ i.received.map Seen.received).filterMap _ = _
  rw [List.filterMap_append, List.filterMap_map, List.filterMap_map]
  have hnone : List.filterMap (fun _ : Result => (none : Option Grant)) i.received = [] := by simp
  have hsome : List.filterMap some (e.step none i).2 = (e.step none i).2 := by simp
  exact (congrArg₂ (· ++ ·) hsome hnone).trans (List.append_nil _)

/-- The update of a runner and its job, which is stored as `old`. -/
theorem finish_view {e : Engine σ} (h : e.Sound) {j old : Job} (hold : Store.get e.scheduler.store j.id = some old)
    (err : Option ExecError) : (e.finish j err).view j.id = (e.view j.id).write old (Runner.finish j err) := by
  rcases finish_board h j err with ⟨hnone, -⟩ | ⟨x, hst, hb⟩
  · rw [show e.board.job j.id = some old from hold] at hnone; cases hnone
  · obtain rfl := Option.some.inj (hst.1.symm.trans hold)
    rw [view, hb, Board.view_write (Runner.finish_id j err)]
    rfl

/-- Every step changes the view of a job in one of the ways of `JobView.Step`. -/
theorem work_view {e : Engine σ} (h : e.Sound) (w : Work) (id : Int) :
    JobView.Step e.nextJobID id (e.view id) w (grants (e.work w).2) ((e.work w).1.view id) := by
  cases w with
  | input i =>
    rw [grants_input]
    exact (step_board none h.wf i).view
  | finish j err =>
    show JobView.Step e.nextJobID id (e.board.view id) _ [] ((e.finish j err).board.view id)
    rcases finish_board h j err with ⟨-, hb⟩ | ⟨old, hst, hb⟩
    · rw [hb]; exact Board.view_away rfl
    · rw [hb]
      by_cases hid : id = j.id
      · subst hid
        rw [Board.view_write (Runner.finish_id j err)]
        exact .finished rfl hst.1
      · exact Board.view_away (Board.view_write_ne fun hk => hid (hk.trans (Runner.finish_id j err)))

/-- An accepted result and its job. -/
theorem report_view {e : Engine σ} (h : e.Sound) (now : Time) {r : Result} {j : Job}
    (hj : Store.get e.scheduler.store r.jobID = some j) (hstale : e.scheduler.isStale r = false) :
    (e.step none (.round (.resultLoop now r))).1.view r.jobID = (e.view r.jobID).report now r j :=
  (Scheduler.resultLoop_board h.wf now r).view_own (Scheduler.stored h.wf hj)
    (Scheduler.fresh_of_not_stale (by simp [hstale]))

end Engine

end Quorum
