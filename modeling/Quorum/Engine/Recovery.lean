/-
Recovery after a crash. A server with a `BoltStore` may stop between any two transactions; what is left is the file. A
new engine reads it once with `Restore`: the queues from the status buckets, the id counter from the jobs. Both are
right because every transaction of every history leaves a coherent store.
-/
import Quorum.Engine.Sessions

namespace Quorum

namespace Engine

variable {σ : Type} [LawfulStore σ]

/-- The queues hold the waiting jobs of the store, each once, and nothing else. -/
structure QueuesMatch (e : Engine σ) (st : σ) : Prop where
  readyOnce : e.scheduler.priorityQueue.items.toList.Nodup
  ready : ∀ id, id ∈ e.scheduler.priorityQueue.items ↔ ∃ j, Store.get st id = some j ∧ j.status = .pending
  delayedOnce : e.scheduler.delayQueue.items.toList.Nodup
  delayed : ∀ id, id ∈ e.scheduler.delayQueue.items ↔ ∃ j, Store.get st id = some j ∧ j.status = .scheduled

theorem restore_queues {st : σ} (hst : LawfulStore.WF st) (available : Chan WorkerClient) (broker : Option Broker)
    (ord ord₁ ord₂ : RangeOrder Int) : ((new st available broker).restore ord ord₁ ord₂).1.QueuesMatch st := by
  obtain ⟨-, -, pend, sched, h⟩ :=
    Scheduler.rebuildQueuesFromStore_board (s := (new st available broker).scheduler) hst ord₁ ord₂
  -- the queues of a new engine are empty
  have hready :
      (((new st available broker).restore ord ord₁ ord₂).1.scheduler.priorityQueue.items.toList : Multiset Int) =
      (pend : Multiset Int) := by
    have hboard := congrArg Board.ready h.board
    rw [Board.withDelayed_ready, Board.withReady_ready] at hboard
    exact hboard.trans (Multiset.zero_add _)
  have hdelayed :
      (((new st available broker).restore ord ord₁ ord₂).1.scheduler.delayQueue.items.toList : Multiset Int) =
      (sched : Multiset Int) := by
    have hboard := congrArg Board.delayed h.board
    rw [Board.withDelayed_delayed] at hboard
    exact hboard.trans (Multiset.zero_add _)
  have hpready := Multiset.coe_eq_coe.1 hready
  have hpdelayed := Multiset.coe_eq_coe.1 hdelayed
  refine ⟨hpready.nodup_iff.2 h.nodupPending, fun id => ?_, hpdelayed.nodup_iff.2 h.nodupScheduled, fun id => ?_⟩
  · rw [← Array.mem_toList_iff, hpready.mem_iff]
    exact h.memPending id
  · rw [← Array.mem_toList_iff, hpdelayed.mem_iff]
    exact h.memScheduled id

/-- No stored id is above the counter. -/
theorem restore_counter {st : σ} (hst : LawfulStore.WF st) (available : Chan WorkerClient) (broker : Option Broker)
    (ord ord₁ ord₂ : RangeOrder Int) {id : Int} {j : Job} (hj : Store.get st id = some j) :
    id ≤ ((new st available broker).restore ord ord₁ ord₂).1.nextJobID := by
  have hid := LawfulStore.get_id hst hj
  subst hid
  exact (le_foldl_maxID (Store.list ord st) 0).2 j ((LawfulStore.mem_list hst).2 hj)

end Engine

namespace Server

variable {σ : Type} [LawfulStore σ]

/-- Between two writes of one act: `resultLoop` has updated a job that failed for good and has not yet written its
dead letter. -/
def betweenWrites (s : Server σ) : Act → Option σ
  | .writeResult _ =>
    match s.reporting with
    | none => none
    | some (r, j) =>
      if s.engine.scheduler.isStale r || r.success || shouldRetry j then none
      else some (Store.tryUpdate s.store { j with status := .failed, lastError := r.error.getD "" })
  | _ => none

/-- The contents of the file while the server takes an act: before it, after it, and between its writes. -/
def files (s : Server σ) (a : Act) : List σ := s.store :: (s.betweenWrites a).toList ++ [(s.step a).1.store]

/-- The dead letter is the only thing that is missing between the two writes. -/
theorem betweenWrites_step {s : Server σ} {a : Act} {st : σ} (h : s.betweenWrites a = some st) :
    ∃ j, (s.step a).1.store = Store.addDLQ st j := by
  cases a with
  | writeResult now =>
    simp only [betweenWrites] at h
    split at h
    · cases h
    · rename_i r j hrep
      split at h
      · cases h
      · rename_i hlast
        cases h
        simp only [Bool.or_eq_true, not_or, Bool.not_eq_true] at hlast
        refine ⟨{ j with status := .failed, lastError := r.error.getD "" }, ?_⟩
        simp only [step, hrep]
        show (s.engine.scheduler.applyResult now r j).store = _
        unfold Scheduler.applyResult
        simp only [hlast.1.1, hlast.1.2, hlast.2, Bool.false_eq_true, if_false]
        rfl
  | _ => cases h

/-- Every content of the file is coherent. -/
theorem files_wf {s : Server σ} (h : s.Sound) {a : Act} {st : σ} (hst : st ∈ s.files a) : LawfulStore.WF st := by
  simp only [files, List.cons_append, List.mem_cons, List.mem_append, Option.mem_toList, List.not_mem_nil,
    or_false] at hst
  rcases hst with rfl | hbetween | rfl
  · exact h.wf
  · cases a with
    | writeResult now =>
      simp only [betweenWrites] at hbetween
      split at hbetween
      · cases hbetween
      · split at hbetween
        · cases hbetween
        · cases hbetween
          unfold Store.tryUpdate
          cases hu : Store.update s.store _ with
          | error e => exact h.wf
          | ok st' => exact LawfulStore.wf_update h.wf hu
    | _ => cases hbetween
  · exact (step_sound h a).wf

/-- Without a restart a run gives out only ids above its first counter. -/
theorem issued_above (s : Server σ) (later : List Act) (hl : ∀ a ∈ later, a.isRestart = false) :
    ∀ id ∈ issued (server.trace s later), s.engine.nextJobID < id := by
  have hsession : server.EveryStep (fun _ _ a => a.isRestart = false) s later := by
    intro pre a post heq
    exact hl a (by rw [heq]; simp)
  have hrun := Machine.EveryStep.inv
    (P := fun tr t => s.engine.nextJobID ≤ t.engine.nextJobID ∧ ∀ id ∈ issued tr, s.engine.nextJobID < id)
    ⟨Int.le_refl _, fun id hid => by cases hid⟩ (fun tr t a ht ha => ?_) hsession
  · exact hrun.2
  · refine ⟨Int.le_trans ht.1 (nextJobID_step ha), fun id hid => ?_⟩
    rw [issued_append, List.mem_append] at hid
    rcases hid with hid | hid
    · exact ht.2 id hid
    · have hle := ht.1
      rcases issued_step t a with hnone | ⟨hone, -, -⟩
      · rw [show (server.step t a).2 = (t.step a).2 from rfl, hnone] at hid
        cases hid
      · rw [show (server.step t a).2 = (t.step a).2 from rfl, hone] at hid
        cases List.mem_singleton.1 hid
        omega

/-- Whatever a server has done since it started on an empty store, and wherever it stops between two transactions: a
new engine on the file that calls `Restore` once has each stored pending id once in its priority queue and each stored
scheduled id once in its delay queue, and nothing else there, and the ids that later submissions are given are greater
than all stored ids. -/
theorem crash_recovery (available : Chan WorkerClient) (broker : Option Broker)
    (ord ord₁ ord₂ ord₃ ord₄ : RangeOrder Int) (acts : List Act) (a : Act) (st : σ)
    (hst : st ∈ (server.exec (start Store.empty available broker ord ord₁ ord₂ ord₃ ord₄) acts).files a)
    (available' : Chan WorkerClient) (broker' : Option Broker) (o o₁ o₂ : RangeOrder Int) :
    let e := ((Engine.new st available' broker').restore o o₁ o₂).1
    e.QueuesMatch st ∧
      ∀ (s : Server σ) (later : List Act), s.engine.nextJobID = e.nextJobID → (∀ x ∈ later, x.isRestart = false) →
        ∀ id ∈ issued (server.trace s later), ∀ k j, Store.get st k = some j → k < id := by
  intro e
  have hwf := files_wf (exec_sound (start_sound LawfulStore.wf_empty available broker ord ord₁ ord₂ ord₃ ord₄) acts) hst
  refine ⟨Engine.restore_queues hwf available' broker' o o₁ o₂, fun s later hs hl id hid k j hj => ?_⟩
  have hle := Engine.restore_counter hwf available' broker' o o₁ o₂ hj
  have hlt := issued_above s later hl id hid
  rw [hs] at hlt
  exact Int.lt_of_le_of_lt hle hlt

/-- Job 1 has used up its retries and has failed again; job 2 is pending and job 3 scheduled. -/
def lastFailure : List Act :=
  [.submitJob "email" 1, .submitJob "sms" 2, .submitJobAt "report" 1 900000000000, .readResult failure, .writeResult 0,
    .readResult failure, .writeResult 0, .readResult failure, .writeResult 0, .readDelayed 100000000000, .writeDelayed,
    .readResult failure]

/-- The process stops when job 1 is stored as failed and its dead letter is not written yet. -/
theorem crash_recovery_unburied :
    let s : Server BoltStore :=
      server.exec (start Store.empty (Chan.make 1) none .stored .stored .stored .stored .stored) lastFailure
    ∃ st, s.betweenWrites (.writeResult 0) = some st ∧ (Store.get st 1).map Job.status = some .failed ∧
      ((Engine.new st (Chan.make 1) none).restore .stored .stored .stored).1.QueuesMatch st := by
  intro s
  have hsome : (s.betweenWrites (.writeResult 0)).isSome = true := by decide +kernel
  have hfailed : ((s.betweenWrites (.writeResult 0)).bind fun st => Store.get st 1).map Job.status = some .failed := by
    decide +kernel
  obtain ⟨st, hst⟩ := Option.isSome_iff_exists.1 hsome
  rw [hst] at hfailed
  have hfile : st ∈ s.files (.writeResult 0) := by simp [files, hst]
  exact ⟨st, hst, hfailed, (crash_recovery (Chan.make 1) none .stored .stored .stored .stored .stored lastFailure
    (.writeResult 0) st hfile (Chan.make 1) none .stored .stored .stored).1⟩

end Server

end Quorum
