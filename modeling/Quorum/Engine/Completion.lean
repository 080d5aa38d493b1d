/-
No execution after an accepted success. `resultLoop` writes the completion through `Store.Update` and only logs a
refusal: a job that is pending then is completed, but a job that is scheduled when its success is written stays
scheduled, is promoted when its backoff is over, and runs again. And `dispatchLoop` looks at the status of a job only
when it reads it: one that it has read before the success is written, it submits afterwards.
-/
import Quorum.Engine.Timing

namespace Quorum

namespace Floor

open Loops (Act Shown)

variable {f f' : Floor} {head : Option Int} {a : Act} {sh : List Shown} {id : Int}

/-- The job is terminal or gone, `dispatchLoop` does not have it in hand, and its id is not given out again. -/
structure Retired (f : Floor) (id : Int) : Prop where
  job : ∀ j, f.board.job id = some j → j.status.isTerminal = true
  held : id ∉ f.dispatcher.held
  next : id ≤ f.next
  made : ∀ j q, Submitting.made j q ∈ f.calls → j.id ≠ id

/-- A terminal status only allows itself. -/
theorem Retired.accepts (h : f.Retired id) {j : Job} (hacc : f.board.Accepts j) {x : Job}
    (hx : (f.board.setJob j).job id = some x) : x.status.isTerminal = true := by
  rcases Board.job_of_setJob hx with ⟨rfl, rfl⟩ | ⟨-, hx⟩
  · obtain ⟨old, hold, hv⟩ := hacc
    have ht := h.job old hold
    rw [(isValidTransition_terminal ht).1 hv]
    exact ht
  · exact h.job x hx

theorem Retired.update (h : f.Retired id) {j x : Job} (hx : (f.board.update j).job id = some x) :
    x.status.isTerminal = true := by
  rcases Board.update_eq (b := f.board) (j := j) with ⟨hu, hacc⟩ | ⟨hu, -⟩
  · rw [hu] at hx; exact h.accepts hacc hx
  · rw [hu] at hx; exact h.job x hx

/-- What `dispatchLoop` reads is not retired. -/
theorem Retired.ne_of_active (h : f.Retired id) {k : Int} {j : Job} (hst : f.board.Stored k j)
    (ht : j.status.isTerminal = false) : id ≠ j.id := by
  rintro rfl
  rw [hst.2] at h
  rw [h.job j hst.1] at ht
  cases ht

/-- A retired job stays retired. -/
theorem Moves.retired (hm : f.Moves head a sh f') (h : f.Retired id) : f'.Retired id := by
  have hnil : id ∉ ([] : List Int) := List.not_mem_nil
  cases hm with
  | made hi =>
    refine { h with next := Int.le_trans h.next (Int.le_add_one (Int.le_refl _)), made := fun j q hc => ?_ }
    rcases List.mem_append.1 hc with hc | hc
    · exact h.made j q hc
    · cases List.mem_singleton.1 hc
      have hid := Board.newJob_id hi
      have hle := h.next
      omega
  | notAdded _ => exact { h with made := fun j q hc => h.made j q (List.mem_of_mem_eraseIdx hc) }
  | @added n j q hn =>
    refine { h with job := fun x hx => ?_, made := fun k r hk => ?_ }
    · rcases Board.job_of_setJob hx with ⟨hid, -⟩ | ⟨-, hx⟩
      · exact absurd hid.symm (h.made j q (List.mem_of_getElem? hn))
      · exact h.job x hx
    · rcases List.mem_or_eq_of_mem_set hk with hk | hk
      · exact h.made k r hk
      · cases hk
  | @queued n j q hn =>
    have hmade : ∀ k r, Submitting.made k r ∈ f.calls.eraseIdx n → k.id ≠ id :=
      fun k r hk => h.made k r (List.mem_of_mem_eraseIdx hk)
    cases q <;> exact { h with made := hmade }
  | cancelled _ _ =>
    refine { h with job := fun x hx => ?_ }
    rcases Board.job_of_setJob hx with ⟨-, rfl⟩ | ⟨-, hx⟩
    · rfl
    · exact h.job x hx
  | deleted =>
    refine { h with job := fun x hx => ?_ }
    rw [Board.removeJob_job] at hx
    split at hx
    · cases hx
    · exact h.job x hx
  | dequeued | skipped | unplaced | submitted | taken | refused | placed | released | requeued =>
    exact { h with held := hnil }
  | entered _ hst ht => exact { h with held := by simpa [Dispatching.held] using h.ne_of_active hst ht }
  | selected hd | counted hd | leased hd => exact { h with held := fun hin => h.held (by rw [hd]; exact hin) }
  | completed | failed | finished => exact { h with job := fun x hx => h.update hx }
  | retried _ _ _ hacc | promoted _ hacc => exact { h with job := fun x hx => h.accepts hacc hx }
  | _ => exact { h with }

/-- A retired job is not submitted. -/
theorem Moves.not_submitted (hm : f.Moves head a sh f') (h : f.Retired id) {j : Job} {w : WorkerClient} {now : Time}
    (hj : Shown.submitted j w now ∈ sh) : j.id ≠ id := by
  cases hm with
  | submitted hd =>
    cases List.mem_singleton.1 hj
    rintro rfl
    exact h.held (by rw [hd]; exact List.mem_singleton_self _)
  | @added n k q _ => cases q <;> simp [Loops.setTime] at hj
  | retried _ _ _ _ => simp at hj
  | _ => cases hj

end Floor

namespace Engine

variable {σ : Type} [LawfulStore σ]

/-- The id of a stored job is not above the counter. -/
theorem Sound.stored_le {e : Engine σ} (h : e.Sound) {id : Int} {j : Job}
    (hj : Store.get e.scheduler.store id = some j) : id ≤ e.nextJobID := by
  by_contra hlt
  have hnone : Store.get e.scheduler.store id = none := (h.bounded id (by omega)).job
  rw [hj] at hnone; cases hnone

/-- A success of job 1, as a runner reports it. -/
def success : Result := Runner.result (Job.newJob 1 "email" 1) none

end Engine

namespace Loops

variable {σ : Type} [LawfulStore σ]

/-- Along every run, a retired job is never submitted. -/
theorem retired_not_submitted {s : Loops σ} (hs : s.Sound) {id : Int} (h : s.floor.Retired id) (acts : List Act) :
    ∀ j w now, Shown.submitted j w now ∈ loops.trace s acts → j.id ≠ id := by
  have hrun : ((loops.exec s acts).Sound ∧ (loops.exec s acts).floor.Retired id) ∧
      ∀ j w now, Shown.submitted j w now ∈ loops.trace s acts → j.id ≠ id := by
    refine Machine.EveryStep.inv (M := loops) (C := fun _ _ _ => True)
      (P := fun tr s => (s.Sound ∧ s.floor.Retired id) ∧ ∀ j w now, Shown.submitted j w now ∈ tr → j.id ≠ id)
      ⟨⟨hs, h⟩, fun j w now hj => by cases hj⟩ ?_ (fun _ _ _ _ => trivial)
    rintro tr s a ⟨⟨hs, hret⟩, htr⟩ -
    have hm := step_moves hs.wf a
    refine ⟨⟨step_sound hs a, hm.retired hret⟩, fun j w now hj => ?_⟩
    rcases List.mem_append.1 hj with hj | hj
    · exact htr j w now hj
    · exact hm.not_submitted hret hj
  exact hrun.2

/-- What `dispatchLoop` has in hand it submits, if it goes on and finds a worker. -/
theorem held_submitted {s : Loops σ} {id : Int} (h : id ∈ s.dispatcher.held) :
    ∃ acts j w now, Shown.submitted j w now ∈ loops.trace s acts ∧ j.id = id := by
  let op : Act := .dispatchLoop 0 none
  cases hd : s.dispatcher with
  | entered j =>
    rw [hd] at h
    refine ⟨[.workers ⟨1, [⟨0⟩], by decide⟩ none, op, op, op, op], j, ⟨0⟩, 0, ?_, (List.mem_singleton.1 h).symm⟩
    simp [op, loops, step, dispatch, hd, withScheduler, Engine.withScheduler, scheduler, Scheduler.selectWorker,
      Chan.tryRecv]
  | selected j w =>
    rw [hd] at h
    refine ⟨[op, op, op], j, w, 0, ?_, (List.mem_singleton.1 h).symm⟩
    simp [op, loops, step, dispatch, hd]
  | counted j w attempt =>
    rw [hd] at h
    refine ⟨[op, op], j, w, 0, ?_, (List.mem_singleton.1 h).symm⟩
    simp [op, loops, step, dispatch, hd]
  | leased j w attempt =>
    rw [hd] at h
    refine ⟨[op], j, w, 0, ?_, (List.mem_singleton.1 h).symm⟩
    simp [op, loops, step, dispatch, hd]
  | idle | dequeued | submitting | refused | requeueing => rw [hd] at h; cases h

/-- The step that writes an accepted success. -/
theorem step_success {s : Loops σ} {r : Result} {j : Job} (hr : s.reporter = .released r j) (hok : r.success = true)
    (now : Time) (r' : Result) : (s.step (.resultLoop now r')).1 =
      { s.withScheduler (s.scheduler.tryUpdate { j with status := .completed }) with reporter := .idle } := by
  simp [step, report, hr, hok]

/-- What it leaves behind: the job is completed exactly if it was pending, or completed already. -/
theorem success_completed {s : Loops σ} (hs : s.Sound) {r : Result} {j : Job} (hr : s.reporter = .released r j)
    (hok : r.success = true) (now : Time) (r' : Result) :
    (Store.get (s.step (.resultLoop now r')).1.store r.jobID).map Job.status = some .completed ↔
      ∃ x, Store.get s.store r.jobID = some x ∧ (x.status = .pending ∨ x.status = .completed) := by
  have hid : j.id = r.jobID := by
    have hkeyed := hs.floor.reporter
    rw [show s.floor.reporter = .released r j from hr] at hkeyed
    exact hkeyed
  have hafter : Store.get (s.step (.resultLoop now r')).1.store r.jobID =
      (s.scheduler.board.update { j with status := .completed }).job r.jobID := by
    rw [step_success hr hok, ← Scheduler.board_tryUpdate_any]
    rfl
  rw [hafter]
  rcases Board.update_eq (b := s.scheduler.board) (j := { j with status := .completed }) with
    ⟨hu, old, hold, hv⟩ | ⟨hu, hnot⟩
  · rw [hu, Board.setJob_job, if_pos hid.symm]
    refine ⟨fun _ => ⟨old, ?_, isValidTransition_to_completed.1 hv⟩, fun _ => rfl⟩
    rw [← hid]
    exact hold
  · rw [hu]
    constructor
    · intro hdone
      obtain ⟨x, hx, hxs⟩ := Option.map_eq_some_iff.1 hdone
      exact ⟨x, hx, .inr hxs⟩
    · rintro ⟨x, hx, hxs⟩
      refine absurd ⟨x, ?_, isValidTransition_to_completed.2 hxs⟩ hnot
      show s.scheduler.board.job j.id = some x
      rw [hid]
      exact hx

/-- After a run, `resultLoop` writes a success it has accepted. The job is completed and never submitted again, whatever
follows, exactly if it is pending at that moment, or completed already, and `dispatchLoop` does not have it in
hand. -/
theorem success_final_iff (e : Engine σ) (he : e.Sound) (acts : List Act) (now : Time) (r r' : Result) (j : Job)
    (hr : (loops.exec (start e) acts).reporter = .released r j) (hok : r.success = true) :
    ((Store.get (loops.exec (start e) (acts ++ [.resultLoop now r'])).store r.jobID).map Job.status =
          some .completed ∧
        ∀ acts' k w t,
          Shown.submitted k w t ∈ loops.trace (loops.exec (start e) (acts ++ [.resultLoop now r'])) acts' →
            k.id ≠ r.jobID) ↔
      (∃ x, Store.get (loops.exec (start e) acts).store r.jobID = some x ∧
          (x.status = .pending ∨ x.status = .completed)) ∧
        r.jobID ∉ (loops.exec (start e) acts).dispatcher.held := by
  have hs := exec_sound he acts
  rw [Machine.exec_append]
  generalize loops.exec (start e) acts = s at hr hs
  have hdone := success_completed hs hr hok now r'
  have hs' := step_sound hs (.resultLoop now r')
  rw [Machine.exec_cons, Machine.exec_nil]
  show (Store.get (s.step (.resultLoop now r')).1.store r.jobID).map Job.status = _ ∧
    (∀ acts' k w t, _ ∈ loops.trace (s.step (.resultLoop now r')).1 acts' → _) ↔ _
  have hheld : (s.step (.resultLoop now r')).1.dispatcher = s.dispatcher := by
    rw [step_success hr hok]
    rfl
  rw [hdone, ← hheld]
  refine and_congr_right fun hx => ⟨fun hnever hin => ?_, fun hnot acts' => ?_⟩
  · obtain ⟨acts', k, w, t, hk, hkid⟩ := held_submitted hin
    exact hnever acts' k w t hk hkid
  · obtain ⟨x, hstored, hstatus⟩ := Option.map_eq_some_iff.1 (hdone.2 hx)
    obtain ⟨hle, hmade⟩ := hs'.floor.stored_known hstored
    refine retired_not_submitted hs' ⟨fun y hy => ?_, hnot, hle, hmade⟩ acts'
    cases hstored.symm.trans hy
    rw [hstatus]
    rfl

open Engine (threeWorkers failure success)

/-- Submit a job, dispatch it, and read its success: the job is completed and not submitted again, whatever follows. -/
theorem success_final_pending :
    let acts := submission ++ dispatchRound 5 ++ List.replicate 3 (.resultLoop 9 success)
    let s := loops.exec (start threeWorkers) (acts ++ [.resultLoop 9 success])
    (Store.get s.store 1).map Job.status = some .completed ∧
      ∀ acts' k w t, Shown.submitted k w t ∈ loops.trace s acts' → k.id ≠ 1 := by
  intro acts
  have hread : (loops.exec (start threeWorkers) acts).reporter = .released success (Job.newJob 1 "email" 1) := rfl
  have hstored : Store.get (loops.exec (start threeWorkers) acts).store 1 = some (Job.newJob 1 "email" 1) := rfl
  have hidle : (loops.exec (start threeWorkers) acts).dispatcher = .idle := rfl
  refine (success_final_iff threeWorkers (Engine.sound_new _ _) acts 9 success success _ hread rfl).2
    ⟨⟨_, hstored, .inl rfl⟩, ?_⟩
  rw [hidle]
  exact List.not_mem_nil

/-- What `resultLoop` is about to write for an accepted success: the status of the job it has read. -/
def accepted (s : Loops σ) : Option Status :=
  match s.reporter with
  | .released r j => if r.success then some j.status else none
  | _ => none

/-- The jobs submitted, each with its worker. -/
def submissions (tr : List Shown) : List (Int × Int) :=
  tr.filterMap fun
    | .submitted j w _ => some (j.id, w.id)
    | .scheduled _ _ => none

/-- A job is executed after its accepted success. Worker 7 is declared dead and its failure arrives late, so that the
job is scheduled when worker 8 executes it: the success of worker 8 leaves it scheduled, and after the backoff it is
submitted to worker 9 (`scheduled`). Or the success of worker 7 arrives late while `dispatchLoop` has the job in hand,
and the completed job is submitted to worker 8 (`held`). -/
theorem executed_after_success :
    let scheduled := submission ++ dispatchRound 5 ++ List.replicate 3 (.recoveryLoop 7 .stored) ++
      List.replicate 5 (.resultLoop 9 failure) ++ dispatchRound 10 ++ List.replicate 3 (.resultLoop 11 success)
    let held := submission ++ dispatchRound 5 ++ List.replicate 3 (.recoveryLoop 7 .stored) ++
      List.replicate 2 (.dispatchLoop 9 none) ++ List.replicate 3 (.resultLoop 11 success)
    let s := loops.exec (start threeWorkers) scheduled
    let s' := (s.step (.resultLoop 12 success)).1
    let t := loops.exec (start threeWorkers) held
    let t' := (t.step (.resultLoop 12 success)).1
    (s.accepted = some .scheduled ∧ (Store.get s'.store 1).map Job.status = some .scheduled ∧
        submissions (loops.trace s' (List.replicate 5 (.delayLoop (60 * second)) ++
          List.replicate 6 (.dispatchLoop (61 * second) none))) = [(1, 9)]) ∧
      t.accepted = some .pending ∧ (Store.get t'.store 1).map Job.status = some .completed ∧
        submissions (loops.trace t' (List.replicate 4 (.dispatchLoop 13 none))) = [(1, 8)] := by
  decide +kernel

end Loops

end Quorum
