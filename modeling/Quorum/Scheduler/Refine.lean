/-
The scheduler refines the board: on a coherent store, each round of each loop is a move of the board,
and leaves the store coherent.
-/
import Quorum.Scheduler.Board

namespace Quorum.Scheduler

variable {σ : Type} [LawfulStore σ]

/-- What the scheduler's state says about jobs, queues, leases and dead letters. -/
def board (s : Scheduler σ) : Board :=
  { job := Store.get s.store, ready := s.priorityQueue.ids, delayed := s.delayQueue.ids, lease := s.leases.get
    dead := LawfulStore.dead s.store, dlq := s.dlq.lookup }

/-- The store is coherent. -/
def WF (s : Scheduler σ) : Prop := LawfulStore.WF s.store

theorem stored {s : Scheduler σ} (h : s.WF) {id : Int} {j : Job} (hj : Store.get s.store id = some j) :
    s.board.Stored id j :=
  ⟨hj, LawfulStore.get_id h hj⟩

section
variable (s : Scheduler σ)

@[simp] theorem board_job : s.board.job = Store.get s.store := rfl
@[simp] theorem board_ready : s.board.ready = s.priorityQueue.ids := rfl
@[simp] theorem board_delayed : s.board.delayed = s.delayQueue.ids := rfl
@[simp] theorem board_lease : s.board.lease = s.leases.get := rfl

end

/-! ## The primitive operations -/

theorem board_priority (s : Scheduler σ) (id : Int) :
    (s.enqueueJob id .priority).board = s.board.withReady (id ::ₘ s.board.ready) :=
  Board.ext rfl (JobQueue.ids_enqueue _ _ _ _) rfl rfl rfl rfl

theorem board_delay (s : Scheduler σ) (id : Int) :
    (s.enqueueJob id .delay).board = s.board.withDelayed (id ::ₘ s.board.delayed) :=
  Board.ext rfl rfl (JobQueue.ids_enqueue _ _ _ _) rfl rfl rfl

theorem board_release (s : Scheduler σ) (id : Int) : (s.release id).board = s.board.dropLease id := by
  refine Board.ext rfl rfl rfl (funext fun k => ?_) rfl rfl
  simp [release, LeaseManager.get_release]

theorem board_bury (s : Scheduler σ) (j : Job) : (s.bury j).board = s.board.bury j := by
  refine Board.ext (funext fun k => ?_) rfl rfl rfl (funext fun k => ?_) (funext fun k => ?_)
  · exact LawfulStore.get_addDLQ s.store j k
  · rw [Board.bury_dead]; exact LawfulStore.dead_addDLQ s.store j k
  · rw [Board.bury_dlq]; exact GoMap.lookup_insert_ite s.dlq j.id k j

/-- A write the store accepts. -/
theorem board_update {s : Scheduler σ} {j : Job} {st : σ} (h : Store.update s.store j = .ok st) :
    board { s with store := st } = s.board.setJob j := by
  refine Board.ext (funext fun k => ?_) rfl rfl rfl (LawfulStore.dead_update h) rfl
  simp [LawfulStore.get_update h]

theorem board_tryUpdate {s : Scheduler σ} {id : Int} {old : Job} (h : s.board.Stored id old) (j : Job)
    (hid : j.id = id) : (s.tryUpdate j).board = s.board.write old j := by
  subst hid
  unfold tryUpdate Board.write
  by_cases hv : isValidTransition old.status j.status = true
  · obtain ⟨st, hst⟩ := LawfulStore.update_ok.2 ⟨old, h.1, hv⟩
    rw [Store.tryUpdate, hst, if_pos hv]
    exact board_update hst
  · rw [Store.tryUpdate_refused, if_neg hv]
    intro e he
    rw [show Store.get s.store j.id = some old from h.1] at he; cases he
    exact hv

theorem dropDelayed_store (s : Scheduler σ) : s.dropDelayed.store = s.store := by
  unfold dropDelayed; split <;> rfl

theorem board_dropDelayed {s : Scheduler σ} {id : Int} (h : s.delayQueue.peek = some id) :
    ∃ rest, s.board.delayed = id ::ₘ rest ∧ s.dropDelayed.board = s.board.withDelayed rest := by
  obtain ⟨q, hq, hids⟩ := JobQueue.dequeue_of_peek delayComparator s.store h
  refine ⟨q.ids, hids, ?_⟩
  simp only [dropDelayed, hq]
  rfl

@[simp] theorem wf_enqueueJob {s : Scheduler σ} {id : Int} {q : QueueRef} : (s.enqueueJob id q).WF ↔ s.WF := by
  cases q <;> rfl

@[simp] theorem wf_release {s : Scheduler σ} {id : Int} : (s.release id).WF ↔ s.WF := Iff.rfl

theorem wf_tryUpdate {s : Scheduler σ} (h : s.WF) (j : Job) : (s.tryUpdate j).WF := by
  show LawfulStore.WF (Store.tryUpdate s.store j)
  unfold Store.tryUpdate
  cases hu : Store.update s.store j with
  | error e => exact h
  | ok st => exact LawfulStore.wf_update h hu

theorem wf_bury {s : Scheduler σ} (h : s.WF) (j : Job) : (s.bury j).WF := LawfulStore.wf_addDLQ j h

/-! ## Dispatching -/

theorem board_nextAttempt (s : Scheduler σ) (id : Int) : s.board.nextAttempt id = s.nextAttempt id := by
  unfold Board.nextAttempt nextAttempt
  rw [show s.board.lease id = s.leases.get id from rfl]
  cases s.leases.get id <;> rfl

theorem dispatchLoop_board {s : Scheduler σ} (h : s.WF) (now : Time)
    (submit : WorkerClient → Job → Option String) :
    s.board.Dispatches now (s.dispatchLoop false now submit).2 (s.dispatchLoop false now submit).1.board := by
  unfold dispatchLoop
  cases hd : s.priorityQueue.dequeue priorityComparator s.store with
  | none => exact .idle ((JobQueue.dequeue_none priorityComparator s.store).1 hd)
  | some p =>
    obtain ⟨id, q⟩ := p
    have hids : s.board.ready = id ::ₘ q.ids := (JobQueue.dequeue_some _ _ hd).2
    dsimp only
    cases hj : Store.get s.store id with
    | none => exact .skip hids (fun j hj' => by rw [show s.board.job id = none from hj] at hj'; cases hj')
    | some j =>
      have hst := stored h hj
      dsimp only
      split
      · rename_i ht
        exact .skip hids (fun k hk => by rw [hst.1] at hk; cases hk; exact ht)
      · rename_i ht
        simp only [Bool.not_eq_true] at ht
        have hid : j.id = id := hst.2
        -- the popped id is pushed again unless a worker accepts the job
        unfold dispatch
        simp only [Bool.false_eq_true, if_false]
        split
        · have hb : s.board.Dispatches now [] s.board := .requeue hids
          rw [board_priority, hid]
          convert hb using 1
          exact Board.ext rfl hids.symm rfl rfl rfl rfl
        · rename_i w ch _
          have hatt : nextAttempt { s with priorityQueue := q } j.id = s.board.nextAttempt id := by
            rw [hid, board_nextAttempt]; rfl
          rw [hatt, hid]
          split
          · have hb : s.board.Dispatches now [⟨⟨id, w.id, 1, s.board.nextAttempt id⟩, j, now, false⟩]
                (s.board.dropLease id) := .refuse hids hst ht
            rw [board_priority, board_release]
            convert hb using 1
            refine Board.ext rfl hids.symm rfl (funext fun k => ?_) rfl rfl
            simp only [Board.withReady_lease, Board.dropLease_lease, board_lease, LeaseManager.get_acquire]
            split <;> rfl
          · have hb : s.board.Dispatches now [⟨⟨id, w.id, 1, s.board.nextAttempt id⟩, j, now, true⟩]
                ((s.board.withReady q.ids).setLease ⟨id, w.id, 1, s.board.nextAttempt id⟩) := .grant hids hst ht
            convert hb using 1
            refine Board.ext rfl rfl rfl (funext fun k => ?_) rfl rfl
            simp [LeaseManager.get_acquire]

theorem dispatchLoop_store (s : Scheduler σ) (ctxDone : Bool) (now : Time)
    (submit : WorkerClient → Job → Option String) : (s.dispatchLoop ctxDone now submit).1.store = s.store := by
  unfold dispatchLoop
  split
  · rfl
  · dsimp only
    split
    · rfl
    · split
      · rfl
      · unfold dispatch
        split
        · rfl
        · split
          · rfl
          · dsimp only
            split <;> rfl

/-! ## Results -/

theorem isStale_iff {s : Scheduler σ} {r : Result} :
    s.isStale r = true ↔ ∃ l, s.board.lease r.jobID = some l ∧ 0 < r.attempt ∧ r.attempt ≠ l.attempt := by
  unfold isStale
  rw [show s.board.lease r.jobID = s.leases.get r.jobID from rfl]
  cases s.leases.get r.jobID with
  | none => simp
  | some l => simp

theorem fresh_of_not_stale {s : Scheduler σ} {r : Result} (h : ¬ s.isStale r = true) : s.board.Fresh r := by
  intro l hl
  by_contra hn
  rw [not_or] at hn
  exact h (isStale_iff.2 ⟨l, hl, Int.not_le.1 hn.1, hn.2⟩)

theorem resultLoop_board {s : Scheduler σ} (h : s.WF) (now : Time) (r : Result) :
    s.board.Reports now r (s.resultLoop now r).board := by
  unfold resultLoop
  cases hj : Store.get s.store r.jobID with
  | none => exact .missing hj
  | some j =>
    have hst := stored h hj
    have hrel : (s.release r.jobID).board.Stored r.jobID j := hst
    dsimp only
    split
    · rename_i hs
      obtain ⟨l, hl, hpos, hne⟩ := isStale_iff.1 hs
      exact .stale hl hpos hne
    · -- accepted: success, retry, last failure
      rename_i hs
      have hf := fresh_of_not_stale hs
      split
      · rename_i hok
        rw [board_tryUpdate hrel { j with status := .completed } hst.2, board_release]
        exact .completed hst hf hok
      · rename_i hok
        simp only [Bool.not_eq_true] at hok
        split
        · rename_i hr
          have hid : (retryJob now (r.error.getD "") j).id = r.jobID := hst.2
          rw [board_delay, board_tryUpdate hrel _ hid, board_release, hid, Board.write_delayed]
          exact .retried hst hf hok hr
        · rename_i hr
          simp only [Bool.not_eq_true] at hr
          rw [board_bury, board_tryUpdate hrel { j with status := .failed, lastError := r.error.getD "" } hst.2,
            board_release]
          exact .buried hst hf hok hr

theorem resultLoop_wf {s : Scheduler σ} (h : s.WF) (now : Time) (r : Result) : (s.resultLoop now r).WF := by
  unfold resultLoop
  split
  · exact h
  · split
    · exact h
    · dsimp only
      split
      · exact wf_tryUpdate (wf_release.2 h) _
      · split
        · exact wf_enqueueJob.2 (wf_tryUpdate (wf_release.2 h) _)
        · exact wf_bury (wf_tryUpdate (wf_release.2 h) _) _

/-! ## Delayed jobs -/

theorem processDelayedJob_board {s : Scheduler σ} (h : s.WF) (now : Time) :
    s.board.Promotes now ((s.processDelayedJob now).getD s).board := by
  unfold processDelayedJob
  cases hp : s.delayQueue.peek with
  | none => exact .wait
  | some id =>
    obtain ⟨rest, hdel, hboard⟩ := board_dropDelayed hp
    dsimp only
    cases hj : Store.get s.store id with
    | none =>
      rw [Option.getD_some, hboard]
      exact .drop hdel hj
    | some j =>
      have hst := stored h hj
      dsimp only
      split
      · exact .wait
      · rename_i hdue
        have hdue' : j.nextRunAt ≤ now := Int.not_lt.1 hdue
        have hid : ({ j with status := .pending } : Job).id = id := hst.2
        -- the update finds the job that was read: dequeuing does not touch the store
        have hex : ∀ e, Store.get s.dropDelayed.store ({ j with status := .pending } : Job).id = some e → e = j := by
          intro e he
          rw [hid, dropDelayed_store, hj] at he; cases he; rfl
        cases hu : Store.update s.dropDelayed.store { j with status := .pending } with
        | error e =>
          rw [Option.getD_some, hboard]
          refine .refused hdel hst hdue' ?_
          by_contra hv
          rw [Bool.not_eq_false] at hv
          obtain ⟨st, hok⟩ := (LawfulStore.update_ok (s := s.dropDelayed.store)
            (j := { j with status := .pending })).2 ⟨j, by rw [hid, dropDelayed_store]; exact hj, hv⟩
          rw [hu] at hok; cases hok
        | ok st =>
          obtain ⟨e, he, hv⟩ := LawfulStore.update_ok.1 ⟨st, hu⟩
          rw [hex e he] at hv
          rw [Option.getD_some, board_priority, board_update hu, hboard]
          exact .promoted hdel hst hdue' hv

theorem processDelayedJob_wf {s : Scheduler σ} (h : s.WF) (now : Time) : ((s.processDelayedJob now).getD s).WF := by
  have hdrop : s.dropDelayed.WF := by unfold WF; rw [dropDelayed_store]; exact h
  unfold processDelayedJob
  split
  · exact h
  · split
    · exact hdrop
    · split
      · exact h
      · dsimp only
        split
        · exact hdrop
        · rename_i st hst
          have hwf : LawfulStore.WF st := LawfulStore.wf_update (s := s.dropDelayed.store) hdrop hst
          exact hwf

/-! ## Dead workers -/

/-- `id` is stored as pending. -/
def pending (b : Board) (id : Int) : Bool := (b.job id).any fun j => j.status = .pending

theorem requeueReleased_board (s : Scheduler σ) (id : Int) :
    (s.requeueReleased id).board =
      if pending s.board id then s.board.withReady (id ::ₘ s.board.ready) else s.board := by
  unfold requeueReleased pending
  cases hj : Store.get s.store id with
  | none => simp [hj]
  | some j =>
    by_cases hp : j.status = .pending
    · simp only [hp, if_true, board_job, hj, Option.any_some, decide_true]
      exact board_priority s id
    · simp [hp, hj]

/-- The loop over the released ids pushes each pending one as often as it is listed. -/
theorem foldl_requeueReleased_board : ∀ (ids : List Int) (s : Scheduler σ),
    (ids.foldl requeueReleased s).board =
      s.board.withReady (s.board.ready + (ids.filter (pending s.board) : Multiset Int))
  | [], s => by
    refine Board.ext rfl ?_ rfl rfl rfl rfl
    simp
  | k :: ids, s => by
    rw [List.foldl_cons, foldl_requeueReleased_board ids, requeueReleased_board]
    have hpend : ∀ b : Board, b.job = s.board.job → pending b = pending s.board := by
      intro b hb; funext id; unfold pending; rw [hb]
    by_cases hk : pending s.board k = true
    · rw [if_pos hk, hpend _ (Board.withReady_job _ _), List.filter_cons_of_pos hk]
      refine Board.ext rfl ?_ rfl rfl rfl rfl
      simp only [Board.withReady_ready, Multiset.cons_add, ← Multiset.cons_coe, Multiset.add_cons]
    · rw [if_neg hk, List.filter_cons_of_neg hk]

theorem recoveryLoop_board (s : Scheduler σ) (ord : RangeOrder Int) (w : Int) :
    s.board.Recovers w (s.recoveryLoop ord w).board := by
  unfold recoveryLoop
  dsimp only
  rw [foldl_requeueReleased_board]
  have hmem : ∀ id, id ∈ (s.leases.releaseByWorker ord w).1 ↔ s.board.LeasedTo w id :=
    fun id => LeaseManager.mem_releaseByWorker
  have hget := LeaseManager.get_releaseByWorker ord s.leases w
  have hnd := LeaseManager.nodup_releaseByWorker ord s.leases w
  generalize s.leases.releaseByWorker ord w = p at hmem hget hnd
  rw [show pending (board { s with leases := p.2 }) = pending s.board from rfl]
  -- a released id is listed once, so it is pushed once if it is pending
  have hcount : ∀ id, ((board { s with leases := p.2 }).withReady ((board { s with leases := p.2 }).ready +
      (p.1.filter (pending s.board) : Multiset Int))).ready.count id =
      s.board.ready.count id + if id ∈ p.1 ∧ pending s.board id = true then 1 else 0 := by
    intro id
    simp only [Board.withReady_ready, Multiset.count_add, Multiset.coe_count]
    congr 1
    by_cases hin : id ∈ p.1 ∧ pending s.board id = true
    · rw [if_pos hin, List.count_eq_one_of_mem (hnd.filter _) (List.mem_filter.2 hin)]
    · rw [if_neg hin, List.count_eq_zero_of_not_mem]
      exact fun h => hin (List.mem_filter.1 h)
  refine ⟨rfl, rfl, rfl, rfl, fun id hid => ?_, fun id hid => ⟨?_, ?_⟩, fun id j hid hj hp => ?_, fun id hid hn => ?_⟩
  · simp [hget, (hmem id).2 hid]
  · have hni : id ∉ p.1 := fun h => hid ((hmem id).1 h)
    simp [hget, hni]
  · rw [hcount, if_neg (fun h => hid ((hmem id).1 h.1)), Nat.add_zero]
  · have hpj : pending s.board id = true := by unfold pending; rw [hj]; simp [hp]
    rw [hcount, if_pos ⟨(hmem id).2 hid, hpj⟩]
  · rw [hcount, if_neg, Nat.add_zero]
    rintro ⟨-, hpj⟩
    unfold pending at hpj
    cases hj : s.board.job id with
    | none => rw [hj] at hpj; cases hpj
    | some j => rw [hj] at hpj; exact hn j hj (by simpa using hpj)

theorem foldl_requeueReleased_store : ∀ (ids : List Int) (s : Scheduler σ),
    (ids.foldl requeueReleased s).store = s.store
  | [], _ => rfl
  | k :: ids, s => by
    rw [List.foldl_cons, foldl_requeueReleased_store ids]
    unfold requeueReleased
    split
    · split <;> rfl
    · rfl

theorem recoveryLoop_store (s : Scheduler σ) (ord : RangeOrder Int) (w : Int) :
    (s.recoveryLoop ord w).store = s.store := foldl_requeueReleased_store _ _

/-! ## Every round is a move -/

theorem round_board {s : Scheduler σ} (h : s.WF) (r : Round) :
    s.board.Rounds r (s.round r).2 (s.round r).1.board := by
  cases r with
  | workers available broker => exact .workers
  | dispatchLoop now submit => exact .dispatches (dispatchLoop_board h now submit)
  | resultLoop now r => exact .reports (resultLoop_board h now r)
  | processDelayedJobs now => exact .promotes (processDelayedJob_board h now)
  | recoveryLoop workerID ord => exact .recovers (recoveryLoop_board s ord workerID)

theorem round_wf {s : Scheduler σ} (h : s.WF) (r : Round) : (s.round r).1.WF := by
  cases r with
  | workers available broker => exact h
  | dispatchLoop now submit =>
    show LawfulStore.WF (s.dispatchLoop false now submit).1.store
    rw [dispatchLoop_store]; exact h
  | resultLoop now r => exact resultLoop_wf h now r
  | processDelayedJobs now => exact processDelayedJob_wf h now
  | recoveryLoop workerID ord =>
    show LawfulStore.WF (s.recoveryLoop ord workerID).store
    rw [recoveryLoop_store]; exact h

/-! ## Rebuilding the queues -/

theorem foldl_enqueue_priority : ∀ (l : List Job) (s : Scheduler σ),
    (l.foldl (fun s j => s.enqueueJob j.id .priority) s).board =
        s.board.withReady (s.board.ready + (l.map Job.id : Multiset Int)) ∧
      (l.foldl (fun s j => s.enqueueJob j.id .priority) s).store = s.store
  | [], s => ⟨Board.ext rfl (by simp) rfl rfl rfl rfl, rfl⟩
  | j :: l, s => by
    obtain ⟨hb, hs⟩ := foldl_enqueue_priority l (s.enqueueJob j.id .priority)
    rw [List.foldl_cons, hb, board_priority]
    refine ⟨Board.ext rfl ?_ rfl rfl rfl rfl, hs⟩
    simp only [Board.withReady_ready, List.map_cons, Multiset.cons_add, ← Multiset.cons_coe, Multiset.add_cons]

theorem foldl_enqueue_delay : ∀ (l : List Job) (s : Scheduler σ),
    (l.foldl (fun s j => s.enqueueJob j.id .delay) s).board =
        s.board.withDelayed (s.board.delayed + (l.map Job.id : Multiset Int)) ∧
      (l.foldl (fun s j => s.enqueueJob j.id .delay) s).store = s.store
  | [], s => ⟨Board.ext rfl rfl (by simp) rfl rfl rfl, rfl⟩
  | j :: l, s => by
    obtain ⟨hb, hs⟩ := foldl_enqueue_delay l (s.enqueueJob j.id .delay)
    rw [List.foldl_cons, hb, board_delay]
    refine ⟨Board.ext rfl rfl ?_ rfl rfl rfl, hs⟩
    simp only [Board.withDelayed_delayed, List.map_cons, Multiset.cons_add, ← Multiset.cons_coe, Multiset.add_cons]

/-- What a rebuild adds to the queues: the stored pending ids once each to the one, the stored scheduled
ids once each to the other, whatever the queues held. -/
structure Rebuilt (b b' : Board) (pend sched : List Int) : Prop where
  nodupPending : pend.Nodup
  nodupScheduled : sched.Nodup
  memPending : ∀ id, id ∈ pend ↔ ∃ j, b.job id = some j ∧ j.status = .pending
  memScheduled : ∀ id, id ∈ sched ↔ ∃ j, b.job id = some j ∧ j.status = .scheduled
  board : b' = (b.withReady (b.ready + (pend : Multiset Int))).withDelayed (b.delayed + (sched : Multiset Int))

theorem mem_map_id {s : Scheduler σ} (h : s.WF) {l : List Job} {st : Status}
    (hl : ∀ j, j ∈ l ↔ Store.get s.store j.id = some j ∧ j.status = st) (id : Int) :
    id ∈ l.map Job.id ↔ ∃ j, s.board.job id = some j ∧ j.status = st := by
  rw [List.mem_map]
  constructor
  · rintro ⟨j, hj, rfl⟩
    exact ⟨j, (hl j).1 hj⟩
  · rintro ⟨j, hj, hst⟩
    have hid : j.id = id := (stored h hj).2
    subst hid
    exact ⟨j, (hl j).2 ⟨hj, hst⟩, rfl⟩

/-- On a coherent store `RebuildQueuesFromStore` succeeds. -/
theorem rebuildQueuesFromStore_board {s : Scheduler σ} (h : s.WF) (ord₁ ord₂ : RangeOrder Int) :
    (s.rebuildQueuesFromStore ord₁ ord₂).2 = none ∧
      (s.rebuildQueuesFromStore ord₁ ord₂).1.store = s.store ∧
      ∃ pend sched, Rebuilt s.board (s.rebuildQueuesFromStore ord₁ ord₂).1.board pend sched := by
  obtain ⟨lp, hlp, hndp, hmp⟩ := LawfulStore.listByStatus_ok ord₁ .pending (by decide) h
  obtain ⟨ls, hls, hnds, hms⟩ := LawfulStore.listByStatus_ok ord₂ .scheduled (by decide) h
  obtain ⟨hb₁, hs₁⟩ := foldl_enqueue_priority lp s
  obtain ⟨hb₂, hs₂⟩ := foldl_enqueue_delay ls (lp.foldl (fun s j => s.enqueueJob j.id .priority) s)
  have heq : s.rebuildQueuesFromStore ord₁ ord₂ = (ls.foldl (fun s j => s.enqueueJob j.id .delay)
      (lp.foldl (fun s j => s.enqueueJob j.id .priority) s), none) := by
    simp only [rebuildQueuesFromStore, hlp, hs₁, hls]
  rw [heq]
  refine ⟨rfl, hs₂.trans hs₁, lp.map Job.id, ls.map Job.id, hndp, hnds, mem_map_id h hmp, mem_map_id h hms, ?_⟩
  rw [hb₂, hb₁]
  rfl

end Quorum.Scheduler
