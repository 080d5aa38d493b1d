/-
What one step of the engine does to the board and to the id counter, once for all results about runs:
`step_board` says that every step is one of the moves of `Board.Step`, `step_wf` that it keeps the store
coherent.
-/
import Quorum.Engine.Basic
import Quorum.Scheduler.Refine

namespace Quorum

open Engine (Input)

/-- The queue and the job of a submission that takes the id `id`. -/
def Engine.Input.newJob (id : Int) : Input → Option (QueueRef × Job)
  | .submitJob jobType priority => some (.priority, .newJob id jobType priority)
  | .submitJobAt jobType priority runAt =>
    some (.delay, { Job.newJob id jobType priority with status := .scheduled, nextRunAt := runAt })
  | .submitJobIdempotent key jobType priority =>
    some (.priority, { Job.newJob id jobType priority with idempotencyKey := key })
  | _ => none

namespace Board

def push (b : Board) (id : Int) : QueueRef → Board
  | .priority => b.withReady (id ::ₘ b.ready)
  | .delay => b.withDelayed (id ::ₘ b.delayed)

def removeJob (b : Board) (id : Int) : Board := { b with job := Function.update b.job id none }

@[simp] theorem removeJob_job (b : Board) (id k : Int) :
    (b.removeJob id).job k = if k = id then none else b.job k := by
  simp [removeJob, Function.update_apply]

@[simp] theorem removeJob_ready (b : Board) (id : Int) : (b.removeJob id).ready = b.ready := rfl
@[simp] theorem removeJob_delayed (b : Board) (id : Int) : (b.removeJob id).delayed = b.delayed := rfl
@[simp] theorem removeJob_lease (b : Board) (id : Int) : (b.removeJob id).lease = b.lease := rfl

/-- A step of the engine: input, grants, id counter and board afterwards. A submission that gets past the
idempotency check takes an id; without Raft its job is stored and queued, with Raft it is stored if the
proposal was applied, and an error leaves the board alone. -/
inductive Step (raft : Option RaftReply) (next : Int) (b : Board) : Input → List Grant → Int → Board → Prop
  | submitted {i : Input} {q : QueueRef} {j : Job} : raft = none → i.newJob (next + 1) = some (q, j) →
      Step raft next b i [] (next + 1) ((b.setJob j).push j.id q)
  | committed {i : Input} {q : QueueRef} {j : Job} : raft = some .applied → i.newJob (next + 1) = some (q, j) →
      Step raft next b i [] (next + 1) (b.setJob j)
  | rejected {i : Input} {q : QueueRef} {j : Job} : i.newJob (next + 1) = some (q, j) →
      Step raft next b i [] (next + 1) b
  | deduplicated {key jobType : String} {priority : Int} : key ≠ "" →
      Step raft next b (.submitJobIdempotent key jobType priority) [] next b
  | cancelled {id : Int} {j : Job} : b.Stored id j → j.status.isTerminal = false →
      Step raft next b (.cancelJob id) [] next (b.setJob { j with status := .cancelled })
  | notCancelled {id : Int} : Step raft next b (.cancelJob id) [] next b
  | deleted {id : Int} : Step raft next b (.deleteJob id) [] next (b.removeJob id)
  | notDeleted {id : Int} : Step raft next b (.deleteJob id) [] next b
  | rounds {r : Scheduler.Round} {gs : List Grant} {b' : Board} : b.Rounds r gs b' →
      Step raft next b (.round r) gs next b'

/-! ## Fresh ids -/

/-- Nothing is known under `id`. -/
structure Unused (b : Board) (id : Int) : Prop where
  job : b.job id = none
  ready : id ∉ b.ready
  delayed : id ∉ b.delayed
  lease : b.lease id = none

/-- No id above `next` is in use. -/
def Bounded (b : Board) (next : Int) : Prop := ∀ id, next < id → b.Unused id

/-- A rebuild queues stored ids only. -/
theorem Unused.rebuilt {b b' : Board} {pend sched : List Int} {id : Int} (h : b.Unused id)
    (hr : Scheduler.Rebuilt b b' pend sched) : b'.Unused id := by
  have hunstored : ∀ status, ¬ ∃ j, b.job id = some j ∧ j.status = status := by
    rintro status ⟨j, hj, -⟩
    rw [h.job] at hj; cases hj
  rw [hr.board]
  refine ⟨h.job, ?_, ?_, h.lease⟩
  · rw [withDelayed_ready, withReady_ready, Multiset.mem_add, not_or]
    exact ⟨h.ready, fun hin => hunstored _ ((hr.memPending id).1 hin)⟩
  · rw [withDelayed_delayed, Multiset.mem_add, not_or]
    exact ⟨h.delayed, fun hin => hunstored _ ((hr.memScheduled id).1 hin)⟩

theorem newJob_id {i : Input} {id : Int} {q : QueueRef} {j : Job} (h : i.newJob id = some (q, j)) : j.id = id := by
  cases i <;> cases h <;> rfl

theorem Dispatches.bounded {now : Time} {b b' : Board} {gs : List Grant} {n : Int} (hd : b.Dispatches now gs b')
    (h : b.Bounded n) : b'.Bounded n := by
  intro k hk
  obtain ⟨hj, hr, hdl, hl⟩ := h k hk
  cases hd with
  | idle _ => exact ⟨hj, hr, hdl, hl⟩
  | skip hids _ =>
    rw [hids, Multiset.mem_cons, not_or] at hr
    exact ⟨hj, hr.2, hdl, hl⟩
  | requeue _ => exact ⟨hj, hr, hdl, hl⟩
  | refuse hids hst _ =>
    refine ⟨hj, hr, hdl, ?_⟩
    simp [hl]
  | grant hids hst _ =>
    rw [hids, Multiset.mem_cons, not_or] at hr
    refine ⟨hj, hr.2, hdl, ?_⟩
    simp [hr.1, hl]

theorem Reports.bounded {now : Time} {r : Result} {b b' : Board} {n : Int} (hr : b.Reports now r b')
    (h : b.Bounded n) : b'.Bounded n := by
  intro k hk
  obtain ⟨hj, hrd, hdl, hl⟩ := h k hk
  -- the id a result is accepted for is stored, so it is not `k`
  have hne : ∀ {j : Job}, b.Stored r.jobID j → k ≠ r.jobID := by
    rintro j hst rfl
    rw [hst.1] at hj; cases hj
  cases hr with
  | missing _ => exact ⟨hj, hrd, hdl, hl⟩
  | stale _ _ _ => exact ⟨hj, hrd, hdl, hl⟩
  | completed hst _ _ =>
    refine ⟨?_, by simpa using hrd, by simpa using hdl, by simp [hl]⟩
    simp [hst.2, hne hst, hj]
  | retried hst _ _ _ =>
    refine ⟨?_, by simpa using hrd, by simp [hdl, hne hst], by simp [hl]⟩
    simp [Scheduler.retryJob, hst.2, hne hst, hj]
  | buried hst _ _ _ =>
    refine ⟨?_, by simpa using hrd, by simpa using hdl, by simp [hl]⟩
    simp [hst.2, hne hst, hj]

theorem Promotes.bounded {now : Time} {b b' : Board} {n : Int} (hp : b.Promotes now b') (h : b.Bounded n) :
    b'.Bounded n := by
  intro k hk
  obtain ⟨hj, hr, hdl, hl⟩ := h k hk
  cases hp with
  | wait => exact ⟨hj, hr, hdl, hl⟩
  | drop hids _ =>
    rw [hids, Multiset.mem_cons, not_or] at hdl
    exact ⟨hj, hr, hdl.2, hl⟩
  | refused hids _ _ _ =>
    rw [hids, Multiset.mem_cons, not_or] at hdl
    exact ⟨hj, hr, hdl.2, hl⟩
  | promoted hids hst _ _ =>
    rw [hids, Multiset.mem_cons, not_or] at hdl
    refine ⟨?_, by simp [hr, hdl.1], hdl.2, hl⟩
    simp [hst.2, hdl.1, hj]

theorem Recovers.bounded {w : Int} {b b' : Board} {n : Int} (hr : b.Recovers w b') (h : b.Bounded n) :
    b'.Bounded n := by
  intro k hk
  obtain ⟨hj, hrd, hdl, hl⟩ := h k hk
  -- an unused id has no lease that could be released
  have hnl : ¬ b.LeasedTo w k := by
    rintro ⟨l, hl', -⟩
    rw [hl] at hl'; cases hl'
  obtain ⟨hlease, hcount⟩ := hr.kept k hnl
  refine ⟨by rw [hr.job]; exact hj, ?_, by rw [hr.delayed]; exact hdl, by rw [hlease]; exact hl⟩
  rw [← Multiset.count_eq_zero, hcount, Multiset.count_eq_zero]
  exact hrd

theorem Rounds.bounded {r : Scheduler.Round} {b b' : Board} {gs : List Grant} {n : Int} (hr : b.Rounds r gs b')
    (h : b.Bounded n) : b'.Bounded n := by
  cases hr with
  | workers => exact h
  | dispatches hd => exact hd.bounded h
  | reports hr => exact hr.bounded h
  | promotes hp => exact hp.bounded h
  | recovers hr => exact hr.bounded h

theorem Bounded.mono {b : Board} {n m : Int} (h : b.Bounded n) (hnm : n ≤ m) : b.Bounded m :=
  fun id hid => h id (by omega)

theorem Bounded.setJob {b : Board} {n : Int} (h : b.Bounded n) {j : Job} (hj : j.id ≤ n) : (b.setJob j).Bounded n := by
  intro k hk
  obtain ⟨hkj, hr, hd, hl⟩ := h k hk
  have hne : k ≠ j.id := by omega
  exact ⟨by simp [hne, hkj], hr, hd, hl⟩

theorem Bounded.push {b : Board} {n : Int} (h : b.Bounded n) {id : Int} (hid : id ≤ n) (q : QueueRef) :
    (b.push id q).Bounded n := by
  intro k hk
  obtain ⟨hj, hr, hd, hl⟩ := h k hk
  have hne : k ≠ id := by omega
  cases q with
  | priority => exact ⟨hj, by simp [Board.push, hne, hr], hd, hl⟩
  | delay => exact ⟨hj, hr, by simp [Board.push, hne, hd], hl⟩

theorem Step.bounded {raft : Option RaftReply} {n n' : Int} {b b' : Board} {i : Input} {gs : List Grant}
    (hs : b.Step raft n i gs n' b') (h : b.Bounded n) : b'.Bounded n' := by
  cases hs with
  | submitted _ hi =>
    have hid := newJob_id hi
    exact ((h.mono (by omega)).setJob (by omega)).push (by omega) _
  | committed _ hi =>
    have hid := newJob_id hi
    exact (h.mono (by omega)).setJob (by omega)
  | rejected _ => exact h.mono (by omega)
  | @cancelled id j hst _ =>
    -- the job is stored, so its id is not above the counter
    refine h.setJob ?_
    by_contra hlt
    have hn := (h id (by have := hst.2; simp at hlt; omega)).job
    rw [hst.1] at hn; cases hn
  | deleted =>
    intro k hk
    obtain ⟨hj, hr, hd, hl⟩ := h k hk
    exact ⟨by simp [hj], hr, hd, hl⟩
  | deduplicated _ | notCancelled | notDeleted => exact h
  | rounds hr => exact hr.bounded h

end Board

namespace Engine

variable {σ : Type} [LawfulStore σ]

def board (e : Engine σ) : Board := e.scheduler.board

/-! ## Store calls -/

theorem board_add {s : Scheduler σ} {j : Job} {st : σ} (h : Store.add s.store j = .ok st) :
    Scheduler.board { s with store := st } = s.board.setJob j := by
  refine Board.ext (funext fun k => ?_) rfl rfl rfl (LawfulStore.dead_add h) rfl
  simp [LawfulStore.get_add h]

theorem board_delete (s : Scheduler σ) (id : Int) :
    Scheduler.board { s with store := (Store.delete s.store id).2 } = s.board.removeJob id := by
  refine Board.ext (funext fun k => ?_) rfl rfl rfl (LawfulStore.dead_delete s.store id) rfl
  simp [LawfulStore.get_delete]

theorem board_cancel {s : Scheduler σ} (hs : s.WF) {id : Int} {st : σ} (h : Store.cancel s.store id = .ok st) :
    ∃ j, s.board.Stored id j ∧ j.status.isTerminal = false ∧
      Scheduler.board { s with store := st } = s.board.setJob { j with status := .cancelled } := by
  obtain ⟨j, hj, ht, hget⟩ := LawfulStore.cancel_ok h
  have hst := Scheduler.stored hs hj
  refine ⟨j, hst, ht, Board.ext (funext fun k => ?_) rfl rfl rfl (LawfulStore.dead_cancel h) rfl⟩
  simp [hget hst.2, hst.2]

theorem board_enqueue (e : Engine σ) (id : Int) (q : QueueRef) : (e.enqueue id q).board = e.board.push id q := by
  cases q with
  | priority => exact Scheduler.board_priority e.scheduler id
  | delay => exact Scheduler.board_delay e.scheduler id

/-! ## Submissions -/

theorem accept_board (raft : Option RaftReply) (what : String) (e : Engine σ) {i : Input} {q : QueueRef} {j : Job}
    (hi : i.newJob e.nextJobID = some (q, j)) {next : Int} (hn : e.nextJobID = next + 1) :
    e.board.Step raft next i [] (e.accept raft what q j).2.nextJobID (e.accept raft what q j).2.board := by
  rw [hn] at hi
  cases raft with
  | none =>
    unfold accept
    cases ha : Store.add e.scheduler.store j with
    | error err =>
      show e.board.Step _ next i [] e.nextJobID e.board
      rw [hn]; exact .rejected hi
    | ok st =>
      show e.board.Step _ next i [] e.nextJobID ((e.withStore st).enqueue j.id q).board
      have hb : (e.withStore st).board = e.board.setJob j := board_add ha
      rw [hn, board_enqueue, hb]; exact .submitted rfl hi
  | some reply =>
    cases reply with
    | notLeader addr =>
      show e.board.Step _ next i [] e.nextJobID e.board
      rw [hn]; exact .rejected hi
    | failed err =>
      show e.board.Step _ next i [] e.nextJobID e.board
      rw [hn]; exact .rejected hi
    | applied =>
      unfold accept
      simp only [propose_addJob]
      cases ha : Store.add e.scheduler.store j with
      | error err =>
        show e.board.Step _ next i [] e.nextJobID e.board
        rw [hn]; exact .rejected hi
      | ok st =>
        show e.board.Step _ next i [] e.nextJobID (e.withStore st).board
        have hb : (e.withStore st).board = e.board.setJob j := board_add ha
        rw [hn, hb]; exact .committed rfl hi

theorem submitJobIdempotent_board (raft : Option RaftReply) (e : Engine σ) (key jobType : String) (priority : Int) :
    e.board.Step raft e.nextJobID (.submitJobIdempotent key jobType priority) []
      (e.submitJobIdempotent raft key jobType priority).2.nextJobID
      (e.submitJobIdempotent raft key jobType priority).2.board := by
  unfold submitJobIdempotent
  split
  · -- without a key this is `SubmitJob`
    rename_i hk
    subst hk
    exact accept_board raft "add_job" e.takeID rfl rfl
  · rename_i hk
    split
    · exact .deduplicated hk
    · exact accept_board raft "add_job (idempotent)" e.takeID rfl rfl

/-! ## Every step is a move -/

theorem cancelJob_board (raft : Option RaftReply) {e : Engine σ} (h : e.scheduler.WF) (id : Int) :
    e.board.Step raft e.nextJobID (.cancelJob id) [] (e.cancelJob raft id).2.nextJobID
      (e.cancelJob raft id).2.board := by
  have horElse : ∀ raft : Option RaftReply, e.board.Step raft e.nextJobID (.cancelJob id) [] e.nextJobID
      (e.withStore (orUnchanged e.scheduler.store (Store.cancel e.scheduler.store id)).1).board := by
    intro raft
    cases hc : Store.cancel e.scheduler.store id with
    | error err => exact .notCancelled
    | ok st =>
      obtain ⟨j, hj, ht, hb⟩ := board_cancel h hc
      have hb' : (e.withStore (orUnchanged e.scheduler.store (.ok st)).1).board =
          e.board.setJob { j with status := .cancelled } := hb
      rw [hb']; exact .cancelled hj ht
  cases raft with
  | none => exact horElse none
  | some reply =>
    cases reply with
    | notLeader addr => exact .notCancelled
    | failed err => exact .notCancelled
    | applied => exact horElse (some .applied)

theorem deleteJob_board (raft : Option RaftReply) (e : Engine σ) (id : Int) :
    e.board.Step raft e.nextJobID (.deleteJob id) [] (e.deleteJob raft id).2.nextJobID
      (e.deleteJob raft id).2.board := by
  have hdel : (e.withStore (Store.delete e.scheduler.store id).2).board = e.board.removeJob id :=
    board_delete e.scheduler id
  cases raft with
  | none =>
    show e.board.Step none e.nextJobID _ [] e.nextJobID (e.withStore (Store.delete e.scheduler.store id).2).board
    rw [hdel]; exact .deleted
  | some reply =>
    cases reply with
    | notLeader addr => exact .notDeleted
    | failed err => exact .notDeleted
    | applied =>
      show e.board.Step _ e.nextJobID _ [] e.nextJobID (e.withStore (Store.delete e.scheduler.store id).2).board
      rw [hdel]; exact .deleted

theorem step_board (raft : Option RaftReply) {e : Engine σ} (h : e.scheduler.WF) (i : Input) :
    e.board.Step raft e.nextJobID i (e.step raft i).2 (e.step raft i).1.nextJobID (e.step raft i).1.board := by
  cases i with
  | submitJob jobType priority => exact accept_board raft "add_job" e.takeID rfl rfl
  | submitJobAt jobType priority runAt => exact accept_board raft "add_job_at" e.takeID rfl rfl
  | submitJobIdempotent key jobType priority => exact submitJobIdempotent_board raft e key jobType priority
  | cancelJob id => exact cancelJob_board raft h id
  | deleteJob id => exact deleteJob_board raft e id
  | round r => exact .rounds (Scheduler.round_board h r)

/-! ## The store stays coherent -/

theorem orUnchanged_add_wf {s : Scheduler σ} (h : s.WF) {j : Job} (hf : Store.get s.store j.id = none) :
    LawfulStore.WF (orUnchanged s.store (Store.add s.store j)).1 := by
  cases ha : Store.add s.store j with
  | error err => exact h
  | ok st => exact LawfulStore.wf_add h hf ha

theorem orUnchanged_cancel_wf {s : Scheduler σ} (h : s.WF) (id : Int) :
    LawfulStore.WF (orUnchanged s.store (Store.cancel s.store id)).1 := by
  cases hc : Store.cancel s.store id with
  | error err => exact h
  | ok st => exact LawfulStore.wf_cancel h hc

/-- The proposal or the store call of a submission is carried out. -/
def Adds (raft : Option RaftReply) : Prop := raft = none ∨ raft = some .applied

theorem accept_wf {raft : Option RaftReply} (what : String) (q : QueueRef) {e : Engine σ} (h : e.scheduler.WF)
    {j : Job} (hf : Adds raft → Store.get e.scheduler.store j.id = none) :
    (e.accept raft what q j).2.scheduler.WF := by
  cases raft with
  | none =>
    unfold accept
    cases ha : Store.add e.scheduler.store j with
    | error err => exact h
    | ok st =>
      have hwf : LawfulStore.WF st := LawfulStore.wf_add h (hf (.inl rfl)) ha
      exact Scheduler.wf_enqueueJob.2 hwf
  | some reply =>
    cases reply with
    | notLeader addr => exact h
    | failed err => exact h
    | applied =>
      have hwf := orUnchanged_add_wf h (hf (.inr rfl))
      unfold accept
      simp only [propose_addJob]
      split
      · rename_i st err heq; rw [heq] at hwf; exact hwf
      · rename_i st heq; rw [heq] at hwf; exact hwf

theorem step_wf {raft : Option RaftReply} {e : Engine σ} (h : e.scheduler.WF) (i : Input)
    (hf : Adds raft → i.newJob (e.nextJobID + 1) ≠ none → Store.get e.scheduler.store (e.nextJobID + 1) = none) :
    (e.step raft i).1.scheduler.WF := by
  cases i with
  | submitJob jobType priority => exact accept_wf (e := e.takeID) _ _ h fun ha => hf ha nofun
  | submitJobAt jobType priority runAt => exact accept_wf (e := e.takeID) _ _ h fun ha => hf ha nofun
  | submitJobIdempotent key jobType priority =>
    show (e.submitJobIdempotent raft key jobType priority).2.scheduler.WF
    unfold submitJobIdempotent
    split
    · exact accept_wf (e := e.takeID) _ _ h fun ha => hf ha nofun
    · split
      · exact h
      · exact accept_wf (e := e.takeID) _ _ h fun ha => hf ha nofun
  | cancelJob id =>
    have hc := orUnchanged_cancel_wf h id
    cases raft with
    | none => exact hc
    | some reply => cases reply with
      | notLeader addr => exact h
      | failed err => exact h
      | applied => exact hc
  | deleteJob id =>
    have hd : LawfulStore.WF (Store.delete e.scheduler.store id).2 := LawfulStore.wf_delete id h
    cases raft with
    | none => exact hd
    | some reply => cases reply with
      | notLeader addr => exact h
      | failed err => exact h
      | applied => exact hd
  | round r => exact Scheduler.round_wf h r

/-- What every step keeps: the store is coherent and no id above the counter is in use. -/
structure Sound (e : Engine σ) : Prop where
  wf : e.scheduler.WF
  bounded : e.board.Bounded e.nextJobID

theorem step_sound (raft : Option RaftReply) {e : Engine σ} (h : e.Sound) (i : Input) : (e.step raft i).1.Sound := by
  refine ⟨step_wf h.wf i fun _ _ => ?_, (step_board raft h.wf i).bounded h.bounded⟩
  exact (h.bounded (e.nextJobID + 1) (by omega)).job

theorem sound_new (available : Chan WorkerClient) (broker : Option Broker) :
    (new (Store.empty : σ) available broker).Sound :=
  ⟨LawfulStore.wf_empty, fun id _ => ⟨LawfulStore.get_empty id, Multiset.notMem_zero id, Multiset.notMem_zero id, rfl⟩⟩

/-! ## Changes of leadership -/

theorem rebuild_wf {e : Engine σ} (h : e.scheduler.WF) (ord₁ ord₂ : RangeOrder Int) :
    (e.rebuild ord₁ ord₂).scheduler.WF := by
  unfold Scheduler.WF
  rw [show (e.rebuild ord₁ ord₂).scheduler = (e.scheduler.rebuildQueuesFromStore ord₁ ord₂).1 from rfl,
    (Scheduler.rebuildQueuesFromStore_board h ord₁ ord₂).2.1]
  exact h

theorem rebuild_lease {e : Engine σ} (h : e.scheduler.WF) (ord₁ ord₂ : RangeOrder Int) :
    (e.rebuild ord₁ ord₂).board.lease = e.board.lease := by
  obtain ⟨-, -, pend, sched, hr⟩ := Scheduler.rebuildQueuesFromStore_board h ord₁ ord₂
  rw [show (e.rebuild ord₁ ord₂).board = _ from hr.board]
  rfl

theorem rebuild_sound {e : Engine σ} (h : e.Sound) (ord₁ ord₂ : RangeOrder Int) : (e.rebuild ord₁ ord₂).Sound := by
  obtain ⟨-, -, pend, sched, hr⟩ := Scheduler.rebuildQueuesFromStore_board h.wf ord₁ ord₂
  exact ⟨rebuild_wf h.wf ord₁ ord₂, fun id hid => (h.bounded id hid).rebuilt hr⟩

theorem event_sound {e : Engine σ} (h : e.Sound) (ev : Event) : (e.event ev).1.Sound := by
  cases ev with
  | input raft i => exact step_sound raft h i
  | claim ord₁ ord₂ => exact rebuild_sound h ord₁ ord₂
  | stepDown =>
    refine ⟨h.wf, fun id hid => ?_⟩
    obtain ⟨hj, hr, hd, -⟩ := h.bounded id hid
    exact ⟨hj, hr, hd, LeaseManager.get_clear e.scheduler.leases id⟩

end Engine

end Quorum
