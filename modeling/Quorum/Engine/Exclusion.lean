/-
Mutual exclusion of executions. An active job has one place: in one of the queues, in the lease table, in the hands
of a goroutine that is about to put it into one of them, or with the submission that has made it. Every operation
of the standalone scheduler keeps this, except three. A failing result accepted for a job without a lease puts the
job into the delay queue while it is elsewhere. A `Submit` that fails after the lease is gone, because the worker was
declared dead or its result was read while the call was under way, puts it into the priority queue once more.
And a promotion that removes another id from the delay queue than the one it has looked at leaves that one there.
After any of them the job can be dispatched while it is leased.
-/
import Quorum.Engine.Floor
import Quorum.Store.Memory

namespace Quorum

/-! ## Places -/

/-! The ids a goroutine has taken out of the queues and the lease table and is to put back. -/

def Dispatching.carried : Dispatching → List Int
  | .dequeued id => [id]
  | .entered j => [j.id]
  | .selected j _ => [j.id]
  | .counted j _ _ => [j.id]
  | .requeueing id => [id]
  | .idle | .leased _ _ _ | .submitting _ _ _ | .refused _ => []

def Reporting.carried : Reporting → List Int
  | .released r j => if r.success = false ∧ shouldRetry j = true then [j.id] else []
  | .retrying id => [id]
  | .idle | .read _ _ | .accepted _ _ | .burying _ => []

def Promoting.carried : Promoting → List Int
  | .dequeued id _ => [id]
  | .promoted id => [id]
  | .idle | .peeked _ | .missing | .due _ _ => []

/-- A stored job that is not terminal. -/
def Board.IsActive (b : Board) (id : Int) : Prop := ∃ j, b.job id = some j ∧ j.status.isTerminal = false

theorem Board.Stored.isActive {b : Board} {id : Int} {j : Job} (h : b.Stored id j) (ht : j.status.isTerminal = false) :
    b.IsActive id := ⟨j, h.1, ht⟩

namespace Floor

open Loops (Act Shown)

variable {f f' : Floor} {head : Option Int} {a : Act} {sh : List Shown}

/-- How many places `id` occupies. -/
def places (f : Floor) (id : Int) : Nat :=
  f.board.ready.count id + f.board.delayed.count id + (f.board.lease id).isSome.toNat + f.dispatcher.carried.count id +
    f.reporter.carried.count id + f.promoter.carried.count id + f.recoverer.ids.count id +
    (f.calls.map fun c => c.job.id).count id

/-- Every active job has at most one place. -/
def Exclusive (f : Floor) : Prop := ∀ id, f.board.IsActive id → f.places id ≤ 1

/-- From `SelectWorker` to `Submit`, the lease table holds no lease of the job `Dispatch` works on but the one it
has acquired itself. -/
def SubmitsAlone (f : Floor) : Prop :=
  match f.dispatcher with
  | .entered j => f.board.lease j.id = none
  | .selected j _ => f.board.lease j.id = none
  | .counted j _ _ => f.board.lease j.id = none
  | .leased j w attempt => ∀ l, f.board.lease j.id = some l → l = ⟨j.id, w.id, 1, attempt⟩
  | _ => True

/-- What a step must find to keep the places: the release of a job that is to be retried finds the job leased if it is
active, and so does the release after a `Submit` that failed; and the job that is promoted is still first in the
delay queue, whose first id is `head`. -/
def Orderly (f : Floor) (head : Option Int) : Act → Prop
  | .resultLoop _ _ =>
    match f.reporter with
    | .accepted r j => r.success = false → shouldRetry j = true → f.board.IsActive r.jobID →
      f.board.lease r.jobID ≠ none
    | _ => True
  | .dispatchLoop _ _ =>
    match f.dispatcher with
    | .refused j => f.board.IsActive j.id → f.board.lease j.id ≠ none
    | _ => True
  | .delayLoop _ =>
    match f.promoter with
    | .due id _ => f.board.IsActive id → head = some id
    | _ => True
  | _ => True

/-! ## Active jobs -/

/-- A write leaves no job active that was not. -/
theorem active_of_setJob {j : Job} {id : Int} (hacc : f.board.Accepts j) (h : (f.board.setJob j).IsActive id) :
    f.board.IsActive id := by
  obtain ⟨x, hx, hxt⟩ := h
  rw [Board.setJob_job] at hx
  split at hx
  · rename_i hid
    cases hx
    obtain ⟨old, hold, hv⟩ := hacc
    refine ⟨old, hid ▸ hold, ?_⟩
    cases ht : old.status.isTerminal with
    | false => rfl
    | true =>
      -- a terminal status only allows itself
      rw [(isValidTransition_terminal ht).1 hv, ht] at hxt
      cases hxt
  · exact ⟨x, hx, hxt⟩

theorem active_of_update {j : Job} {id : Int} (h : (f.board.update j).IsActive id) : f.board.IsActive id := by
  rcases Board.update_eq (b := f.board) (j := j) with ⟨hu, hacc⟩ | ⟨hu, -⟩
  · rw [hu] at h
    exact active_of_setJob hacc h
  · rw [hu] at h; exact h

/-- A job becomes active only when its submission stores it. -/
theorem Moves.active (hm : f.Moves head a sh f') {id : Int} (h : f'.board.IsActive id) :
    f.board.IsActive id ∨ ∃ (n : Nat) (j : Job) (q : QueueRef), f.calls[n]? = some (.made j q) ∧ j.id = id ∧
      f' = { f with board := f.board.setJob j, calls := f.calls.set n (.stored j q) } := by
  cases hm with
  | @added n j q hn =>
    obtain ⟨x, hx, hxt⟩ := h
    rw [Board.setJob_job] at hx
    split at hx
    · rename_i hid
      exact .inr ⟨n, j, q, hn, hid.symm, rfl⟩
    · exact .inl ⟨x, hx, hxt⟩
  | @queued n j q _ => cases q <;> exact .inl h
  | @cancelled k j hst ht =>
    obtain ⟨x, hx, hxt⟩ := h
    rw [Board.setJob_job] at hx
    split at hx
    · cases hx; cases hxt
    · exact .inl ⟨x, hx, hxt⟩
  | deleted =>
    obtain ⟨x, hx, hxt⟩ := h
    rw [Board.removeJob_job] at hx
    split at hx
    · cases hx
    · exact .inl ⟨x, hx, hxt⟩
  | completed | failed | finished => exact .inl (active_of_update h)
  | retried _ _ _ hacc | promoted _ hacc => exact .inl (active_of_setJob hacc h)
  | _ => exact .inl h

/-! ## What a step does to the places -/

/-- One more or not, for both kinds of count. -/
def same (id k : Int) : Nat := if id = k then 1 else 0

theorem count_ready (k id : Int) (m : Multiset Int) : (k ::ₘ m).count id = m.count id + same id k := by
  rw [Multiset.count_cons, same]

theorem count_carried (k id : Int) (ids : List Int) : (k :: ids).count id = ids.count id + same id k := by
  unfold same
  by_cases hk : id = k
  · simp [hk]
  · simp [hk, Ne.symm hk]

/-- The id of a submission that has not stored its job has no other place. -/
theorem Sound.made_places (h : f.Sound) {j : Job} {q : QueueRef} (hc : Submitting.made j q ∈ f.calls) :
    f.places j.id ≤ 1 := by
  have hfree := h.made j q hc
  have hd : f.dispatcher.carried.count j.id = 0 := by
    have hid := hfree.dispatcher
    cases hd : f.dispatcher <;> rw [hd] at hid <;> simp_all [Dispatching.carried, Dispatching.ids, List.count_eq_zero]
  have hr : f.reporter.carried.count j.id = 0 := by
    have hid := hfree.reporter
    cases hr : f.reporter <;> rw [hr] at hid <;> simp_all [Reporting.carried, Reporting.ids, List.count_eq_zero]
  have hp : f.promoter.carried.count j.id = 0 := by
    have hid := hfree.promoter
    cases hp : f.promoter <;> rw [hp] at hid <;> simp_all [Promoting.carried, Promoting.ids, List.count_eq_zero]
  have hone : (f.calls.map fun c => c.job.id).count j.id ≤ 1 := List.nodup_iff_count_le_one.1 h.distinct j.id
  unfold places
  rw [Multiset.count_eq_zero.2 hfree.ready, Multiset.count_eq_zero.2 hfree.delayed, hfree.lease, hd, hr, hp,
    List.count_eq_zero.2 hfree.recoverer]
  simpa using hone

/-- One submission goes away. -/
theorem count_calls_erase {calls : List Submitting} {n : Nat} {c : Submitting} (hn : calls[n]? = some c) (id : Int) :
    (calls.map fun c => c.job.id).count id =
      ((calls.eraseIdx n).map fun c => c.job.id).count id + same id c.job.id := by
  obtain ⟨hlt, hc⟩ := List.getElem?_eq_some_iff.1 hn
  have hperm := ((List.getElem_cons_eraseIdx_perm hlt).map fun c => c.job.id).count_eq id
  rw [hc, List.map_cons, count_carried] at hperm
  exact hperm.symm

/-- The id of an active job is not new. -/
theorem Sound.active_le (hs : f.Sound) {id : Int} (h : f.board.IsActive id) : id ≤ f.next := by
  obtain ⟨j, hj, -⟩ := h
  exact (hs.stored_known hj).1

theorem Moves.places_le (hm : f.Moves head a sh f') (hs : f.Sound) (ho : f.Orderly head a) {id : Int}
    (h : f.board.IsActive id) : f'.places id ≤ f.places id := by
  cases hm with
  | idle | cancelled | deleted => exact Nat.le_refl _
  | @made i q j hi =>
    have hnew : same id j.id = 0 := by
      have hle := hs.active_le h
      have hid := Board.newJob_id hi
      exact if_neg (by omega)
    simp [places, Submitting.job, count_carried, hnew]
  | notAdded hn =>
    have herase := count_calls_erase hn id
    simp only [places]
    omega
  | added hn => simp [places, map_id_set hn]
  | @queued n j q hn =>
    have herase := count_calls_erase hn id
    rw [show (Submitting.stored j q).job.id = j.id from rfl] at herase
    cases q with
    | priority => simp [places, Board.push, count_ready]; omega
    | delay => simp [places, Board.push, count_ready]; omega
  | dequeued hd hids => simp [places, hd, hids, Dispatching.carried, count_ready, count_carried]; omega
  | entered hd hst ht => simp [places, hd, Dispatching.carried, hst.2]
  | skipped hd | unplaced hd | selected hd | counted hd | submitted hd | taken hd | refused hd | placed hd =>
    simp [places, hd, Dispatching.carried]
  | @leased _ _ j w attempt hd =>
    by_cases hk : id = j.id <;> simp [places, hd, Dispatching.carried, hk]
  | @released now answer j hd =>
    by_cases hk : id = j.id
    · -- the lease becomes the id that is to be pushed
      have hlease : f.board.lease j.id ≠ none := by
        simp only [Orderly, hd] at ho
        exact ho (hk ▸ h)
      obtain ⟨l, hl⟩ := Option.ne_none_iff_exists'.1 hlease
      simp [places, hd, Dispatching.carried, hk, hl]
    · simp [places, hd, Dispatching.carried, hk, Ne.symm hk]
  | requeued hd => simp [places, hd, Dispatching.carried, count_ready, count_carried]; omega
  | received hr _ | discarded hr | accepted hr _ | completed hr _ | failed hr _ _ | buried hr =>
    simp [places, hr, Reporting.carried]
  | @freed now r r' j hr =>
    have hid : j.id = r.jobID := by
      have hkeyed := hs.reporter
      rw [hr] at hkeyed
      exact hkeyed
    by_cases hretry : r.success = false ∧ shouldRetry j = true
    · by_cases hk : id = r.jobID
      · -- the lease becomes the id that is to be pushed
        have hlease : f.board.lease r.jobID ≠ none := by
          simp only [Orderly, hr] at ho
          exact ho hretry.1 hretry.2 (hk ▸ h)
        obtain ⟨l, hl⟩ := Option.ne_none_iff_exists'.1 hlease
        simp only [places, hk, hr, hl, hid, hretry, Reporting.carried, Board.dropLease_ready, Board.dropLease_delayed,
          Board.dropLease_lease, and_self, if_true, Option.isSome_none, Option.isSome_some, Bool.toNat_false,
          Bool.toNat_true, List.count_singleton_self, List.count_nil]
        omega
      · simp [places, hr, Reporting.carried, hretry, hk, hid, Ne.symm hk]
    · by_cases hk : id = r.jobID <;> simp [places, hr, Reporting.carried, hretry, hk]
  | retried hr hok hretry _ | notRetried hr hok hretry => simp [places, hr, Reporting.carried, hok, hretry]
  | delayed hr => simp [places, hr, Reporting.carried, count_ready, count_carried]; omega
  | peeked hp _ | vanished hp | waits hp | due hp _ _ | notPromoted hp | promoted hp _ =>
    simp [places, hp, Promoting.carried]
  | dropped hp hle =>
    have hcount := Multiset.count_le_of_le id hle
    simp only [places, hp, Promoting.carried, Board.withDelayed_ready, Board.withDelayed_delayed,
      Board.withDelayed_lease]
    omega
  | @unqueued now k j rest hp hle hhead =>
    by_cases hk : id = k
    · -- the entry of the delay queue becomes the id that is to be pushed
      have hfirst : head = some k := by
        simp only [Orderly, hp] at ho
        exact ho (hk ▸ h)
      have hids := hhead hfirst
      simp only [places, hk, hids, hp, Promoting.carried, Board.withDelayed_ready, Board.withDelayed_delayed,
        Board.withDelayed_lease, Multiset.count_cons_self, List.count_singleton_self, List.count_nil]
      omega
    · have hcount := Multiset.count_le_of_le id hle
      simp only [places, hp, Promoting.carried, Board.withDelayed_ready, Board.withDelayed_delayed,
        Board.withDelayed_lease, List.count_cons_of_ne (Ne.symm hk), List.count_nil]
      omega
  | readied hp => simp [places, hp, Promoting.carried, count_ready, count_carried]; omega
  | @lost w ord ids hv hnodup hids =>
    by_cases hk : id ∈ ids
    · -- a lease that is gone makes room for one visit
      obtain ⟨l, hl, -⟩ := (hids id).1 hk
      simp only [places, hv, hl, Recovering.ids, Board.dropLeases_ready, Board.dropLeases_delayed,
        Board.dropLeases_lease, hk, if_true, Option.isSome_none, Option.isSome_some, Bool.toNat_false, Bool.toNat_true,
        List.count_eq_one_of_mem hnodup hk, List.count_nil]
      omega
    · simp [places, hv, Recovering.ids, hk, List.count_eq_zero.2 hk]
  | passed hv => simp [places, hv, Recovering.ids, count_carried]
  | found hv _ _ => simp [places, hv, Recovering.ids]
  | recovered hv => simp [places, hv, Recovering.ids, count_ready, count_carried]; omega
  | finished _ => simp [places]

theorem Moves.exclusive (hm : f.Moves head a sh f') (hs : f.Sound) (ho : f.Orderly head a) (h : f.Exclusive) :
    f'.Exclusive := by
  intro id hact'
  rcases hm.active hact' with hact | ⟨n, j, q, hn, rfl, rfl⟩
  · exact Nat.le_trans (hm.places_le hs ho hact) (h id hact)
  · have hone := hs.made_places (List.mem_of_getElem? hn)
    simpa [places, map_id_set hn] using hone

/-! ## What a step does to the lease of the job in `Dispatch` -/

/-- Leases have only gone away. -/
theorem SubmitsAlone.mono (h : f.SubmitsAlone) (hd : f'.dispatcher = f.dispatcher)
    (hl : ∀ id l, f'.board.lease id = some l → f.board.lease id = some l) : f'.SubmitsAlone := by
  have hnone : ∀ {id : Int}, f.board.lease id = none → f'.board.lease id = none := by
    intro id hid
    cases hid' : f'.board.lease id with
    | none => rfl
    | some l => cases hid.symm.trans (hl id l hid')
  unfold SubmitsAlone at h ⊢
  rw [hd]
  cases hf : f.dispatcher with
  | entered j => rw [hf] at h; exact hnone h
  | selected j w => rw [hf] at h; exact hnone h
  | counted j w attempt => rw [hf] at h; exact hnone h
  | leased j w attempt => rw [hf] at h; exact fun l hl' => h l (hl _ l hl')
  | idle | dequeued | submitting | refused | requeueing => trivial

/-- A job that `dispatchLoop` has taken from the queue is not leased. -/
theorem Exclusive.not_leased (h : f.Exclusive) {id : Int} (hd : f.dispatcher = .dequeued id)
    (hact : f.board.IsActive id) : f.board.lease id = none := by
  have hone := h id hact
  cases hl : f.board.lease id with
  | none => rfl
  | some l =>
    simp only [places, hd, Dispatching.carried, hl, List.count_singleton_self, Option.isSome_some,
      Bool.toNat_true] at hone
    omega

theorem Moves.submitsAlone (hm : f.Moves head a sh f') (hx : f.Exclusive) (h : f.SubmitsAlone) : f'.SubmitsAlone := by
  cases hm with
  | entered hd hst ht =>
    show f.board.lease _ = none
    rw [hst.2]
    exact hx.not_leased hd (hst.isActive ht)
  | selected hd | counted hd =>
    unfold SubmitsAlone at h
    rw [hd] at h
    exact h
  | leased _ =>
    intro l hl
    rw [Board.setLease_lease, if_pos rfl] at hl
    exact (Option.some.inj hl).symm
  | dequeued | skipped | unplaced | submitted | taken | refused | placed | released | requeued => trivial
  | @queued n j q _ => cases q <;> exact h.mono rfl fun _ _ hl => hl
  | freed _ =>
    refine h.mono rfl fun id l hl => ?_
    rw [Board.dropLease_lease] at hl
    split at hl
    · cases hl
    · exact hl
  | lost _ _ _ =>
    refine h.mono rfl fun id l hl => ?_
    rw [Board.dropLeases_lease] at hl
    split at hl
    · cases hl
    · exact hl
  | completed | failed | finished => exact h.mono rfl fun _ _ hl => by rw [Board.update_lease] at hl; exact hl
  | _ => exact h.mono rfl fun _ _ hl => hl

end Floor

/-! ## Runs -/

namespace Loops

variable {σ : Type} [LawfulStore σ]

/-- Mutual exclusion: from queues in which no id occurs twice, `Dispatch` submits no job of which the lease table holds
a lease already, in every run whose steps are orderly. -/
theorem dispatch_exclusive (e : Engine σ) (he : e.Starts)
    (hq : ∀ id, e.scheduler.priorityQueue.ids.count id + e.scheduler.delayQueue.ids.count id ≤ 1) (acts : List Act)
    (h : loops.EveryStep (fun _ s a => s.floor.Orderly s.head a) (start e) acts) :
    ∀ pre, pre <+: acts → (loops.exec (start e) pre).floor.SubmitsAlone := by
  rintro pre ⟨post, rfl⟩
  have hstart : (start e).floor.Exclusive := by
    intro id _
    simp only [Floor.places, floor, start, Dispatching.carried, Reporting.carried, Promoting.carried, Recovering.ids,
      Scheduler.board_lease, Scheduler.board_ready, Scheduler.board_delayed, scheduler, he.leases]
    simpa using hq id
  have hrun := h.init.inv (P := fun _ s => s.Sound ∧ s.floor.Exclusive ∧ s.floor.SubmitsAlone)
    ⟨start_sound he.sound, hstart, trivial⟩ ?_
  · exact hrun.2.2
  · rintro tr s a ⟨hs, hx, ha⟩ ho
    have hm := step_moves hs.wf a
    exact ⟨step_sound hs a, hm.exclusive hs.floor ho hx, hm.submitsAlone hx ha⟩

/-- The operations of `dispatchLoop` for one job that its worker takes. -/
def dispatchRound (now : Time) : List Act :=
  List.replicate 6 (.dispatchLoop now none) ++ [.take, .dispatchLoop now none]

/-- The operations of a submission. -/
def submission : List Act := [.submit (.submitJob "email" 1), .call 0, .call 0]

end Loops

namespace Engine

/-- An engine with an empty store and workers 7, 8 and 9 waiting. -/
def threeWorkers : Engine MemoryStore := new Store.empty ⟨3, [⟨7⟩, ⟨8⟩, ⟨9⟩], by decide⟩ none

/-- A failing result of attempt one of job 1. -/
def failure : Result := { jobID := 1, success := false, error := some "timeout", attempt := 1, carries := fun _ => rfl }

end Engine

namespace Loops

open Engine (threeWorkers failure)

/-- Submit a job and dispatch it; its worker fails it in time, and it is retried after the backoff. -/
theorem dispatch_exclusive_retry :
    let acts := submission ++ dispatchRound 5 ++ List.replicate 5 (.resultLoop 9 failure) ++
      List.replicate 5 (.delayLoop (60 * second)) ++ dispatchRound (61 * second)
    ∀ pre, pre <+: acts → (loops.exec (start threeWorkers) pre).floor.SubmitsAlone := by
  refine dispatch_exclusive threeWorkers (Engine.starts_new _ _)
    (fun id => by simp [threeWorkers, Engine.new, Scheduler.new]) _ ?_
  simp only [submission, dispatchRound, List.replicate, List.cons_append, List.nil_append, Machine.everyStep_cons,
    Machine.everyStep_nil, and_true]
  refine ⟨trivial, trivial, trivial, trivial, trivial, trivial, trivial, trivial, trivial, trivial, trivial, trivial,
    trivial, ?_, trivial, trivial, trivial, trivial, ?_, trivial, trivial, trivial, trivial, trivial, trivial, trivial,
      trivial, trivial, trivial⟩
  · exact fun _ _ _ h => by cases h
  · exact fun _ => rfl

/-- The job is about to be leased to worker 9 and submitted to it while worker 8 holds its lease: worker 7 was declared
dead and its failing result arrived late (`late`), or worker 7 was declared dead while `Submit` was under way, and then
`Submit` failed (`hanging`). -/
theorem dispatched_while_leased :
    let late := submission ++ dispatchRound 5 ++ List.replicate 3 (.recoveryLoop 7 .stored) ++
      List.replicate 5 (.resultLoop 9 failure) ++ dispatchRound 10 ++ List.replicate 5 (.delayLoop (60 * second))
    let hanging := submission ++ List.replicate 6 (.dispatchLoop 5 none) ++
      List.replicate 3 (.recoveryLoop 7 .stored) ++ List.replicate 3 (.dispatchLoop 9 (some "deadline exceeded")) ++
        dispatchRound 10
    ∀ acts ∈ [late, hanging],
      let s := loops.exec (start threeWorkers) (acts ++ List.replicate 4 (.dispatchLoop (61 * second) none))
      s.scheduler.leases.get 1 = some ⟨1, 8, 1, 1⟩ ∧ ¬ s.floor.SubmitsAlone ∧
        ∃ j, j.id = 1 ∧ loops.trace s (List.replicate 2 (.dispatchLoop (61 * second) none)) =
          [.submitted j ⟨9⟩ (61 * second)] := by
  intro late hanging acts hacts
  simp only [List.mem_cons, List.not_mem_nil, or_false] at hacts
  rcases hacts with rfl | rfl
  · refine ⟨by decide +kernel, fun h => ?_, _, ?_, rfl⟩
    · cases h
    · rfl
  · refine ⟨by decide +kernel, fun h => ?_, _, ?_, rfl⟩
    · cases h
    · rfl

end Loops

end Quorum
