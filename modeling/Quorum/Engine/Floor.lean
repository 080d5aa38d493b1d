/-
What the steps of the goroutines do to the board. The floor is the board together with what each goroutine has in
hand; `Floor.Moves` says once what a step can do to it, and `step_moves` that the code does nothing else. The
ids in use are those up to the counter, and the id of a submission that has not stored its job is known to no one
else (`Floor.Sound`).
-/
import Quorum.Engine.Loops

namespace Quorum

/-! The ids a goroutine has in hand. -/

def Dispatching.ids : Dispatching → List Int
  | .idle => []
  | .dequeued id => [id]
  | .entered j => [j.id]
  | .selected j _ => [j.id]
  | .counted j _ _ => [j.id]
  | .leased j _ _ => [j.id]
  | .submitting j _ _ => [j.id]
  | .refused j => [j.id]
  | .requeueing id => [id]

def Reporting.ids : Reporting → List Int
  | .idle => []
  | .read _ j => [j.id]
  | .accepted _ j => [j.id]
  | .released _ j => [j.id]
  | .retrying id => [id]
  | .burying j => [j.id]

def Promoting.ids : Promoting → List Int
  | .idle => []
  | .peeked id => [id]
  | .missing => []
  | .due id _ => [id]
  | .dequeued id _ => [id]
  | .promoted id => [id]

def Recovering.ids : Recovering → List Int
  | .visiting ids => ids
  | .found id rest => id :: rest

/-- The job `dispatchLoop` has read and has not yet submitted. -/
def Dispatching.held : Dispatching → List Int
  | .entered j => [j.id]
  | .selected j _ => [j.id]
  | .counted j _ _ => [j.id]
  | .leased j _ _ => [j.id]
  | .idle | .dequeued _ | .submitting _ _ _ | .refused _ | .requeueing _ => []

/-- The job `resultLoop` has read is the one its result names. -/
def Reporting.Keyed : Reporting → Prop
  | .read r j => j.id = r.jobID
  | .accepted r j => j.id = r.jobID
  | .released r j => j.id = r.jobID
  | _ => True

/-- The job `ProcessDelayedJobs` has read is the one it peeked. -/
def Promoting.Keyed : Promoting → Prop
  | .due id j => j.id = id
  | .dequeued id j => j.id = id
  | _ => True

/-! ## The floor: the board and what each goroutine has in hand -/

namespace Board

/-- `Update` with its error ignored. -/
def update (b : Board) (j : Job) : Board :=
  match b.job j.id with
  | none => b
  | some old => b.write old j

/-- The leases of the listed jobs are gone. -/
def dropLeases (b : Board) (ids : List Int) : Board :=
  { b with lease := fun id => if id ∈ ids then none else b.lease id }

/-- `Update` of `j` finds a job that may become `j`. -/
def Accepts (b : Board) (j : Job) : Prop := ∃ old, b.job j.id = some old ∧ isValidTransition old.status j.status = true

section
variable (b : Board) (j : Job) (ids : List Int)

theorem update_eq {b : Board} {j : Job} : b.update j = b.setJob j ∧ b.Accepts j ∨ b.update j = b ∧ ¬ b.Accepts j := by
  unfold update Accepts write
  cases hj : b.job j.id with
  | none => exact .inr ⟨rfl, by rintro ⟨old, hold, -⟩; cases hold⟩
  | some old =>
    dsimp only
    split
    · rename_i hv
      exact .inl ⟨rfl, old, rfl, hv⟩
    · rename_i hv
      refine .inr ⟨rfl, ?_⟩
      rintro ⟨old', hold, hv'⟩
      cases hold
      exact hv hv'

@[simp] theorem update_ready : (b.update j).ready = b.ready := by unfold update; split <;> simp
@[simp] theorem update_delayed : (b.update j).delayed = b.delayed := by unfold update; split <;> simp
@[simp] theorem update_lease : (b.update j).lease = b.lease := by unfold update; split <;> simp

@[simp] theorem dropLeases_job : (b.dropLeases ids).job = b.job := rfl
@[simp] theorem dropLeases_ready : (b.dropLeases ids).ready = b.ready := rfl
@[simp] theorem dropLeases_delayed : (b.dropLeases ids).delayed = b.delayed := rfl
@[simp] theorem dropLeases_lease (id : Int) :
    (b.dropLeases ids).lease id = if id ∈ ids then none else b.lease id := rfl

end

end Board

structure Floor where
  board : Board
  next : Int
  dispatcher : Dispatching
  reporter : Reporting
  promoter : Promoting
  recoverer : Recovering
  calls : List Submitting
  running : List Job

namespace Floor

open Loops (Act Shown setTime)

/-- What a step can do, when `head` is first in the delay queue. -/
inductive Moves (f : Floor) (head : Option Int) : Act → List Shown → Floor → Prop
  | idle {a : Act} : Moves f head a [] f
  | made {i : Engine.Input} {q : QueueRef} {j : Job} : i.newJob (f.next + 1) = some (q, j) →
      Moves f head (.submit i) [] { f with next := f.next + 1, calls := f.calls ++ [.made j q] }
  | notAdded {n : Nat} {j : Job} {q : QueueRef} : f.calls[n]? = some (.made j q) →
      Moves f head (.call n) [] { f with calls := f.calls.eraseIdx n }
  | added {n : Nat} {j : Job} {q : QueueRef} : f.calls[n]? = some (.made j q) →
      Moves f head (.call n) (setTime j q) { f with board := f.board.setJob j, calls := f.calls.set n (.stored j q) }
  | queued {n : Nat} {j : Job} {q : QueueRef} : f.calls[n]? = some (.stored j q) →
      Moves f head (.call n) [] { f with board := f.board.push j.id q, calls := f.calls.eraseIdx n }
  | cancelled {id : Int} {j : Job} : f.board.Stored id j → j.status.isTerminal = false →
      Moves f head (.cancelJob id) [] { f with board := f.board.setJob { j with status := .cancelled } }
  | deleted {id : Int} : Moves f head (.deleteJob id) [] { f with board := f.board.removeJob id }
  -- dispatchLoop
  | dequeued {now : Time} {answer : Option String} {id : Int} {rest : Multiset Int} : f.dispatcher = .idle →
      f.board.ready = id ::ₘ rest →
      Moves f head (.dispatchLoop now answer) [] { f with board := f.board.withReady rest, dispatcher := .dequeued id }
  | skipped {now : Time} {answer : Option String} {id : Int} : f.dispatcher = .dequeued id →
      Moves f head (.dispatchLoop now answer) [] { f with dispatcher := .idle }
  | entered {now : Time} {answer : Option String} {id : Int} {j : Job} : f.dispatcher = .dequeued id →
      f.board.Stored id j → j.status.isTerminal = false →
      Moves f head (.dispatchLoop now answer) [] { f with dispatcher := .entered j }
  | unplaced {now : Time} {answer : Option String} {j : Job} : f.dispatcher = .entered j →
      Moves f head (.dispatchLoop now answer) [] { f with dispatcher := .requeueing j.id }
  | selected {now : Time} {answer : Option String} {j : Job} {w : WorkerClient} : f.dispatcher = .entered j →
      Moves f head (.dispatchLoop now answer) [] { f with dispatcher := .selected j w }
  | counted {now : Time} {answer : Option String} {j : Job} {w : WorkerClient} : f.dispatcher = .selected j w →
      Moves f head (.dispatchLoop now answer) []
        { f with dispatcher := .counted j w (f.board.nextAttempt j.id) }
  | leased {now : Time} {answer : Option String} {j : Job} {w : WorkerClient} {attempt : Int} :
      f.dispatcher = .counted j w attempt → Moves f head (.dispatchLoop now answer) []
        { f with board := f.board.setLease ⟨j.id, w.id, 1, attempt⟩, dispatcher := .leased j w attempt }
  | submitted {now : Time} {answer : Option String} {j : Job} {w : WorkerClient} {attempt : Int} :
      f.dispatcher = .leased j w attempt → Moves f head (.dispatchLoop now answer) [.submitted j w now]
        { f with dispatcher := .submitting j w false }
  | taken {j : Job} {w : WorkerClient} : f.dispatcher = .submitting j w false →
      Moves f head .take [] { f with dispatcher := .submitting j w true, running := j :: f.running }
  | refused {now : Time} {err : String} {j : Job} {w : WorkerClient} {b : Bool} : f.dispatcher = .submitting j w b →
      Moves f head (.dispatchLoop now (some err)) [] { f with dispatcher := .refused j }
  | placed {now : Time} {answer : Option String} {j : Job} {w : WorkerClient} : f.dispatcher = .submitting j w true →
      Moves f head (.dispatchLoop now answer) [] { f with dispatcher := .idle }
  | released {now : Time} {answer : Option String} {j : Job} : f.dispatcher = .refused j →
      Moves f head (.dispatchLoop now answer) []
        { f with board := f.board.dropLease j.id, dispatcher := .requeueing j.id }
  | requeued {now : Time} {answer : Option String} {id : Int} : f.dispatcher = .requeueing id →
      Moves f head (.dispatchLoop now answer) []
        { f with board := f.board.withReady (id ::ₘ f.board.ready), dispatcher := .idle }
  -- resultLoop
  | received {now : Time} {r : Result} {j : Job} : f.reporter = .idle → f.board.Stored r.jobID j →
      Moves f head (.resultLoop now r) [] { f with reporter := .read r j }
  | discarded {now : Time} {r r' : Result} {j : Job} : f.reporter = .read r j →
      Moves f head (.resultLoop now r') [] { f with reporter := .idle }
  | accepted {now : Time} {r r' : Result} {j : Job} : f.reporter = .read r j → f.board.Fresh r →
      Moves f head (.resultLoop now r') [] { f with reporter := .accepted r j }
  | freed {now : Time} {r r' : Result} {j : Job} : f.reporter = .accepted r j → Moves f head (.resultLoop now r') []
      { f with board := f.board.dropLease r.jobID, reporter := .released r j }
  | completed {now : Time} {r r' : Result} {j : Job} : f.reporter = .released r j → r.success = true →
      Moves f head (.resultLoop now r') []
        { f with board := f.board.update { j with status := .completed }, reporter := .idle }
  | retried {now : Time} {r r' : Result} {j : Job} : f.reporter = .released r j → r.success = false →
      shouldRetry j = true → f.board.Accepts (Scheduler.retryJob now (r.error.getD "") j) →
      Moves f head (.resultLoop now r') [.scheduled j.id (Scheduler.retryJob now (r.error.getD "") j).nextRunAt]
        { f with board := f.board.setJob (Scheduler.retryJob now (r.error.getD "") j), reporter := .retrying j.id }
  | notRetried {now : Time} {r r' : Result} {j : Job} : f.reporter = .released r j → r.success = false →
      shouldRetry j = true → Moves f head (.resultLoop now r') [] { f with reporter := .retrying j.id }
  | failed {now : Time} {r r' : Result} {j : Job} : f.reporter = .released r j → r.success = false →
      shouldRetry j = false → Moves f head (.resultLoop now r') []
        { f with
          board := f.board.update { j with status := .failed, lastError := r.error.getD "" }
          reporter := .burying { j with status := .failed, lastError := r.error.getD "" } }
  | delayed {now : Time} {r : Result} {id : Int} : f.reporter = .retrying id → Moves f head (.resultLoop now r) []
      { f with board := f.board.withDelayed (id ::ₘ f.board.delayed), reporter := .idle }
  | buried {now : Time} {r : Result} {j : Job} : f.reporter = .burying j →
      Moves f head (.resultLoop now r) [] { f with board := f.board.bury j, reporter := .idle }
  -- delayLoop
  | peeked {now : Time} {id : Int} : f.promoter = .idle → id ∈ f.board.delayed →
      Moves f head (.delayLoop now) [] { f with promoter := .peeked id }
  | vanished {now : Time} {id : Int} : f.promoter = .peeked id →
      Moves f head (.delayLoop now) [] { f with promoter := .missing }
  | waits {now : Time} {id : Int} : f.promoter = .peeked id →
      Moves f head (.delayLoop now) [] { f with promoter := .idle }
  | due {now : Time} {id : Int} {j : Job} : f.promoter = .peeked id → f.board.Stored id j → j.nextRunAt ≤ now →
      Moves f head (.delayLoop now) [] { f with promoter := .due id j }
  | dropped {now : Time} {rest : Multiset Int} : f.promoter = .missing → rest ≤ f.board.delayed →
      Moves f head (.delayLoop now) [] { f with board := f.board.withDelayed rest, promoter := .idle }
  | unqueued {now : Time} {id : Int} {j : Job} {rest : Multiset Int} : f.promoter = .due id j → rest ≤ f.board.delayed →
      (head = some id → f.board.delayed = id ::ₘ rest) →
      Moves f head (.delayLoop now) [] { f with board := f.board.withDelayed rest, promoter := .dequeued id j }
  | notPromoted {now : Time} {id : Int} {j : Job} : f.promoter = .dequeued id j →
      Moves f head (.delayLoop now) [] { f with promoter := .idle }
  | promoted {now : Time} {id : Int} {j : Job} : f.promoter = .dequeued id j →
      f.board.Accepts { j with status := .pending } →
      Moves f head (.delayLoop now) []
        { f with board := f.board.setJob { j with status := .pending }, promoter := .promoted id }
  | readied {now : Time} {id : Int} : f.promoter = .promoted id → Moves f head (.delayLoop now) []
      { f with board := f.board.withReady (id ::ₘ f.board.ready), promoter := .idle }
  -- recoveryLoop
  | lost {workerID : Int} {ord : RangeOrder Int} {ids : List Int} : f.recoverer = .visiting [] → ids.Nodup →
      (∀ id, id ∈ ids ↔ f.board.LeasedTo workerID id) →
      Moves f head (.recoveryLoop workerID ord) []
        { f with board := f.board.dropLeases ids, recoverer := .visiting ids }
  | passed {workerID : Int} {ord : RangeOrder Int} {id : Int} {rest : List Int} :
      f.recoverer = .visiting (id :: rest) →
      Moves f head (.recoveryLoop workerID ord) [] { f with recoverer := .visiting rest }
  | found {workerID : Int} {ord : RangeOrder Int} {id : Int} {rest : List Int} {j : Job} :
      f.recoverer = .visiting (id :: rest) → f.board.Stored id j → j.status = .pending →
      Moves f head (.recoveryLoop workerID ord) [] { f with recoverer := .found id rest }
  | recovered {workerID : Int} {ord : RangeOrder Int} {id : Int} {rest : List Int} : f.recoverer = .found id rest →
      Moves f head (.recoveryLoop workerID ord) []
        { f with board := f.board.withReady (id ::ₘ f.board.ready), recoverer := .visiting rest }
  -- an in-process runner
  | finished {n : Nat} {err : Option ExecError} {j : Job} : f.running[n]? = some j →
      Moves f head (.finish n err) []
        { f with board := f.board.update (Runner.finish j err), running := f.running.eraseIdx n }

/-- A step that leaves everything as it was. -/
theorem Moves.of_eq {f f' : Floor} {head : Option Int} {a : Act} (h : f' = f) : f.Moves head a [] f' := by
  rw [h]
  exact .idle

/-! ## Fresh ids -/

/-- Nothing but submissions under way may know `id`. -/
structure Free (f : Floor) (id : Int) : Prop where
  job : f.board.job id = none
  ready : id ∉ f.board.ready
  delayed : id ∉ f.board.delayed
  lease : f.board.lease id = none
  dispatcher : id ∉ f.dispatcher.ids
  reporter : id ∉ f.reporter.ids
  promoter : id ∉ f.promoter.ids
  recoverer : id ∉ f.recoverer.ids
  running : ∀ j ∈ f.running, j.id ≠ id

/-- What every step keeps: what a loop has read is what it asked for, no id above the counter is in use, and the id of a
submission that has not stored its job is known to no one else. -/
structure Sound (f : Floor) : Prop where
  reporter : f.reporter.Keyed
  promoter : f.promoter.Keyed
  fresh : ∀ id, f.next < id → f.Free id
  counted : ∀ c ∈ f.calls, c.job.id ≤ f.next
  distinct : (f.calls.map fun c => c.job.id).Nodup
  made : ∀ j q, Submitting.made j q ∈ f.calls → f.Free j.id

theorem Free.ne_of_stored {f : Floor} {id k : Int} {j : Job} (h : f.Free id) (hst : f.board.Stored k j) :
    j.id ≠ id := by
  rintro rfl
  rw [hst.2] at h
  cases h.job.symm.trans hst.1

section
variable {f : Floor} {id : Int} (h : f.Free id)
include h

theorem Free.not_dispatched {d : Dispatching} (hd : f.dispatcher = d) : id ∉ d.ids := hd ▸ h.dispatcher

theorem Free.not_reported {r : Reporting} (hr : f.reporter = r) : id ∉ r.ids := hr ▸ h.reporter

theorem Free.not_promoted {p : Promoting} (hp : f.promoter = p) : id ∉ p.ids := hp ▸ h.promoter

theorem Free.not_recovered {v : Recovering} (hv : f.recoverer = v) : id ∉ v.ids := hv ▸ h.recoverer

end

/-- The job that a write finds has another id. -/
theorem Free.setJob {f : Floor} {id : Int} {j : Job} (h : f.Free id) (hj : f.board.Accepts j) :
    { f with board := f.board.setJob j }.Free id := by
  obtain ⟨old, hold, -⟩ := hj
  refine { h with job := ?_ }
  rw [Board.setJob_job, if_neg]
  · exact h.job
  · rintro rfl
    cases h.job.symm.trans hold

theorem Free.update {f : Floor} {id : Int} (h : f.Free id) (j : Job) :
    { f with board := f.board.update j }.Free id := by
  rcases Board.update_eq (b := f.board) (j := j) with ⟨hu, hacc⟩ | ⟨hu, -⟩
  · rw [hu]; exact h.setJob hacc
  · rw [hu]; exact h

/-- Another id is pushed onto the priority queue. -/
theorem Free.push {f : Floor} {id k : Int} (h : f.Free id) (hne : id ≠ k) :
    { f with board := f.board.withReady (k ::ₘ f.board.ready) }.Free id :=
  { h with ready := by simp [hne, h.ready] }

/-- A free id stays free, unless its own submission goes on. -/
theorem Moves.free {f f' : Floor} {head : Option Int} {a : Act} {sh : List Shown} (hm : f.Moves head a sh f') {id : Int}
    (h : f.Free id) (hcall : ∀ n c, a = .call n → f.calls[n]? = some c → c.job.id ≠ id) : f'.Free id := by
  cases hm with
  | idle => exact h
  | made _ | notAdded _ => exact { h with }
  | @added n j q hn =>
    have hne := hcall n _ rfl hn
    refine { h with job := ?_ }
    rw [Board.setJob_job, if_neg fun hid => hne hid.symm]
    exact h.job
  | @queued n j q hn =>
    have hne : id ≠ j.id := fun hid => hcall n _ rfl hn hid.symm
    cases q with
    | priority => exact { h.push hne with }
    | delay => exact { h with delayed := by simp [Board.push, h.delayed, hne] }
  | cancelled hst _ =>
    have hne := h.ne_of_stored hst
    exact { h with job := by simp [h.job, Ne.symm hne] }
  | deleted => exact { h with job := by simp [h.job] }
  | @dequeued _ _ k rest _ hids =>
    have hready := h.ready
    rw [hids, Multiset.mem_cons, not_or] at hready
    exact { h with ready := hready.2, dispatcher := by simpa [Dispatching.ids] using hready.1 }
  | skipped _ | placed _ => exact { h with dispatcher := List.not_mem_nil }
  | entered _ hst _ => exact { h with dispatcher := by simpa [Dispatching.ids] using Ne.symm (h.ne_of_stored hst) }
  | unplaced hd | selected hd | counted hd | submitted hd | refused hd =>
    exact { h with dispatcher := (h.not_dispatched hd :) }
  | @leased _ _ j w attempt hd =>
    have hid := h.not_dispatched hd
    have hne : id ≠ j.id := by simpa [Dispatching.ids] using hid
    exact { h with lease := by simp [hne, h.lease], dispatcher := hid }
  | @taken j w hd =>
    have hid := h.not_dispatched hd
    refine { h with dispatcher := hid, running := ?_ }
    rintro k hk rfl
    rcases List.mem_cons.1 hk with rfl | hk
    · exact hid (List.mem_singleton_self _)
    · exact h.running k hk rfl
  | released hd =>
    refine { h with lease := ?_, dispatcher := (h.not_dispatched hd :) }
    simp [h.lease]
  | @requeued _ _ k hd =>
    have hne : id ≠ k := by simpa [Dispatching.ids] using h.not_dispatched hd
    exact { h.push hne with dispatcher := List.not_mem_nil }
  | received _ hst => exact { h with reporter := by simpa [Reporting.ids] using Ne.symm (h.ne_of_stored hst) }
  | discarded _ | buried _ => exact { h with reporter := List.not_mem_nil }
  | accepted hr _ => exact { h with reporter := (h.not_reported hr :) }
  | freed hr =>
    refine { h with lease := ?_, reporter := (h.not_reported hr :) }
    simp [h.lease]
  | completed _ _ => exact { h.update _ with reporter := List.not_mem_nil }
  | retried hr _ _ hacc => exact { h.setJob hacc with reporter := (h.not_reported hr :) }
  | notRetried hr _ _ => exact { h with reporter := (h.not_reported hr :) }
  | failed hr _ _ => exact { h.update _ with reporter := (h.not_reported hr :) }
  | @delayed _ _ k hr =>
    have hne : id ≠ k := by simpa [Reporting.ids] using h.not_reported hr
    exact { h with delayed := by simp [hne, h.delayed], reporter := List.not_mem_nil }
  | @peeked _ k _ hin =>
    have hne : id ≠ k := by rintro rfl; exact h.delayed hin
    exact { h with promoter := by simpa [Promoting.ids] using hne }
  | vanished _ | waits _ | notPromoted _ => exact { h with promoter := List.not_mem_nil }
  | due hp _ _ => exact { h with promoter := (h.not_promoted hp :) }
  | dropped _ hle =>
    exact { h with delayed := fun hin => h.delayed (Multiset.mem_of_le hle hin), promoter := List.not_mem_nil }
  | unqueued hp hle _ =>
    have hid := h.not_promoted hp
    exact { h with delayed := fun hin => h.delayed (Multiset.mem_of_le hle hin), promoter := hid }
  | promoted hp hacc => exact { h.setJob hacc with promoter := (h.not_promoted hp :) }
  | @readied _ k hp =>
    have hne : id ≠ k := by simpa [Promoting.ids] using h.not_promoted hp
    exact { h.push hne with promoter := List.not_mem_nil }
  | @lost w _ ids _ _ hids =>
    have hnot : id ∉ ids := by
      rw [hids]
      rintro ⟨l, hl, -⟩
      cases h.lease.symm.trans hl
    exact { h with lease := by simp [hnot, h.lease], recoverer := hnot }
  | passed hv =>
    have hid := h.not_recovered hv
    exact { h with recoverer := fun hin => hid (List.mem_cons_of_mem _ hin) }
  | found hv _ _ => exact { h with recoverer := (h.not_recovered hv :) }
  | @recovered _ _ k rest hv =>
    have hne : id ≠ k ∧ id ∉ rest := by simpa [Recovering.ids, not_or] using h.not_recovered hv
    exact { h.push hne.1 with recoverer := hne.2 }
  | finished _ => exact { h.update _ with running := fun k hk => h.running k (List.mem_of_mem_eraseIdx hk) }

/-- The ids of the submissions are distinct. -/
theorem Sound.other_call {f : Floor} (h : f.Sound) {n m : Nat} {c d : Submitting} (hn : f.calls[n]? = some c)
    (hm : f.calls[m]? = some d) (hne : n ≠ m) : c.job.id ≠ d.job.id := by
  intro heq
  have hlt : n < (f.calls.map fun c => c.job.id).length := by
    rw [List.length_map]
    exact (List.getElem?_eq_some_iff.1 hn).1
  refine hne ((List.getElem?_inj hlt h.distinct).1 ?_)
  rw [List.getElem?_map, List.getElem?_map, hn, hm, Option.map_some, Option.map_some, heq]

/-- The id of a stored job has been given out, and to no submission that is to store another. -/
theorem Sound.stored_known {f : Floor} (h : f.Sound) {id : Int} {j : Job} (hj : f.board.job id = some j) :
    id ≤ f.next ∧ ∀ k q, Submitting.made k q ∈ f.calls → k.id ≠ id := by
  refine ⟨?_, ?_⟩
  · by_contra hlt
    cases (h.fresh id (by omega)).job.symm.trans hj
  · rintro k q hk rfl
    cases (h.made k q hk).job.symm.trans hj

theorem Moves.reporter_keyed {f f' : Floor} {head : Option Int} {a : Act} {sh : List Shown} (hm : f.Moves head a sh f')
    (h : f.reporter.Keyed) : f'.reporter.Keyed := by
  cases hm with
  | received _ hst => exact hst.2
  | accepted hr _ => exact (hr ▸ h : (Reporting.read _ _).Keyed)
  | freed hr => exact (hr ▸ h : (Reporting.accepted _ _).Keyed)
  | discarded | completed | retried | notRetried | failed | delayed | buried => exact trivial
  | _ => exact h

theorem Moves.promoter_keyed {f f' : Floor} {head : Option Int} {a : Act} {sh : List Shown} (hm : f.Moves head a sh f')
    (h : f.promoter.Keyed) : f'.promoter.Keyed := by
  cases hm with
  | due _ hst _ => exact hst.2
  | unqueued hp _ _ => exact (hp ▸ h : (Promoting.due _ _).Keyed)
  | peeked | vanished | waits | dropped | notPromoted | promoted | readied => exact trivial
  | _ => exact h

theorem Moves.next_le {f f' : Floor} {head : Option Int} {a : Act} {sh : List Shown} (hm : f.Moves head a sh f') :
    f.next ≤ f'.next := by
  cases hm with
  | made _ => exact Int.le_add_one (Int.le_refl _)
  | _ => exact Int.le_refl _

/-- A submission that has stored its job keeps its id. -/
theorem map_id_set {calls : List Submitting} {n : Nat} {j : Job} {q : QueueRef} (hn : calls[n]? = some (.made j q)) :
    (calls.set n (.stored j q)).map (fun c => c.job.id) = calls.map fun c => c.job.id := by
  rw [List.map_set]
  refine List.ext_getElem? fun m => ?_
  rw [List.getElem?_set]
  split
  · rename_i hnm
    subst hnm
    rw [List.getElem?_map, hn, List.length_map, if_pos (List.getElem?_eq_some_iff.1 hn).1]
    rfl
  · rfl

/-- The ids of the submissions after a step: some are gone, or there is a new one. -/
theorem Moves.callIds {f f' : Floor} {head : Option Int} {a : Act} {sh : List Shown} (hm : f.Moves head a sh f') :
    (f'.calls.map fun c => c.job.id).Sublist (f.calls.map fun c => c.job.id) ∧ f'.next = f.next ∨
      (f'.calls.map fun c => c.job.id) = (f.calls.map fun c => c.job.id) ++ [f'.next] ∧ f'.next = f.next + 1 := by
  cases hm with
  | made hi =>
    have hid := Board.newJob_id hi
    exact .inr ⟨by simp [Submitting.job, hid], rfl⟩
  | notAdded _ => exact .inl ⟨(List.eraseIdx_sublist ..).map _, rfl⟩
  | queued _ => exact .inl ⟨(List.eraseIdx_sublist ..).map _, rfl⟩
  | added hn => exact .inl ⟨by rw [map_id_set hn], rfl⟩
  | _ => exact .inl ⟨List.Sublist.refl _, rfl⟩

/-- A submission that has not stored its job: nothing has happened, or it was there and not the one that went on, or it
is new. -/
theorem Moves.made_call {f f' : Floor} {head : Option Int} {a : Act} {sh : List Shown} (hm : f.Moves head a sh f')
    {j : Job} {q : QueueRef} (hc : Submitting.made j q ∈ f'.calls) :
    f' = f ∨ (∃ m, f.calls[m]? = some (.made j q) ∧ ∀ n, a = .call n → n ≠ m) ∨
      j.id = f.next + 1 ∧ ∀ n, a ≠ .call n := by
  have herased : ∀ n, Submitting.made j q ∈ f.calls.eraseIdx n →
      ∃ m, f.calls[m]? = some (.made j q) ∧ ∀ k, Act.call n = .call k → k ≠ m := by
    intro n hin
    obtain ⟨m, hne, hm⟩ := List.mem_eraseIdx_iff_getElem?.1 hin
    refine ⟨m, hm, ?_⟩
    rintro k hk rfl
    cases hk
    exact hne rfl
  cases hm with
  | idle => exact .inl rfl
  | made hi =>
    rcases List.mem_append.1 hc with hc | hc
    · obtain ⟨m, hm⟩ := List.mem_iff_getElem?.1 hc
      exact .inr (.inl ⟨m, hm, fun n hn => by cases hn⟩)
    · cases List.mem_singleton.1 hc
      exact .inr (.inr ⟨Board.newJob_id hi, fun n hn => by cases hn⟩)
  | notAdded _ => exact .inr (.inl (herased _ hc))
  | queued _ => exact .inr (.inl (herased _ hc))
  | @added n k r hn =>
    obtain ⟨m, hm⟩ := List.mem_iff_getElem?.1 hc
    rw [List.getElem?_set] at hm
    split at hm
    · split at hm <;> cases hm
    · rename_i hne
      refine .inr (.inl ⟨m, hm, ?_⟩)
      intro k hk
      cases hk
      exact hne
  | _ =>
    obtain ⟨m, hm⟩ := List.mem_iff_getElem?.1 hc
    exact .inr (.inl ⟨m, hm, fun n hn => by cases hn⟩)

theorem Moves.sound {f f' : Floor} {head : Option Int} {a : Act} {sh : List Shown} (hm : f.Moves head a sh f')
    (h : f.Sound) : f'.Sound := by
  have hcalls : ∀ {id : Int}, f.next < id → ∀ n c, a = .call n → f.calls[n]? = some c → c.job.id ≠ id := by
    rintro id hid n c - hn rfl
    have hle := h.counted c (List.mem_of_getElem? hn)
    omega
  refine ⟨hm.reporter_keyed h.reporter, hm.promoter_keyed h.promoter, ?_, ?_, ?_, ?_⟩
  · intro id hid
    have hlt : f.next < id := Int.lt_of_le_of_lt hm.next_le hid
    exact hm.free (h.fresh id hlt) (hcalls hlt)
  · intro c hc
    have hin : c.job.id ∈ f'.calls.map fun c => c.job.id := List.mem_map_of_mem hc
    have hold : ∀ {id : Int}, id ∈ (f.calls.map fun c => c.job.id) → id ≤ f.next := by
      intro id hid
      obtain ⟨d, hd, rfl⟩ := List.mem_map.1 hid
      exact h.counted d hd
    rcases hm.callIds with ⟨hsub, hnext⟩ | ⟨heq, hnext⟩
    · rw [hnext]
      exact hold (hsub.subset hin)
    · rw [heq, List.mem_append, List.mem_singleton] at hin
      rcases hin with hin | hin
      · have hle := hold hin
        omega
      · omega
  · rcases hm.callIds with ⟨hsub, -⟩ | ⟨heq, hnext⟩
    · exact h.distinct.sublist hsub
    · rw [heq, List.nodup_append]
      refine ⟨h.distinct, List.nodup_singleton _, ?_⟩
      intro id hid k hk
      obtain ⟨d, hd, rfl⟩ := List.mem_map.1 hid
      have hle := h.counted d hd
      rw [List.mem_singleton] at hk
      omega
  · intro j q hc
    rcases hm.made_call hc with rfl | ⟨m, hmade, hother⟩ | ⟨hid, hnot⟩
    · exact h.made j q hc
    · refine hm.free (h.made j q (List.mem_of_getElem? hmade)) ?_
      intro n c ha hn
      exact h.other_call hn hmade (hother n ha)
    · refine hm.free (h.fresh j.id (by omega)) ?_
      intro n c ha
      exact absurd ha (hnot n)

end Floor

namespace Scheduler

variable {σ : Type} [LawfulStore σ]

theorem board_tryUpdate_any (s : Scheduler σ) (j : Job) : (s.tryUpdate j).board = s.board.update j := by
  unfold Board.update
  cases hj : s.board.job j.id with
  | none =>
    have hrefused : Store.tryUpdate s.store j = s.store := by
      refine Store.tryUpdate_refused fun e he => ?_
      cases hj.symm.trans he
    unfold tryUpdate
    rw [hrefused]
  | some old =>
    unfold tryUpdate Board.write
    dsimp only
    split
    · rename_i hv
      obtain ⟨st, hu⟩ := LawfulStore.update_ok.2 ⟨old, hj, hv⟩
      rw [Store.tryUpdate, hu]
      exact board_update hu
    · rename_i hv
      rw [Store.tryUpdate_refused]
      intro e he
      cases hj.symm.trans he
      exact hv

/-- `Dequeue` on the delay queue takes its head, if there is one. -/
theorem board_dropDelayed_any (s : Scheduler σ) : ∃ rest, rest ≤ s.board.delayed ∧
    s.dropDelayed.board = s.board.withDelayed rest ∧
    ∀ id, s.delayQueue.peek = some id → s.board.delayed = id ::ₘ rest := by
  cases hp : s.delayQueue.peek with
  | none =>
    refine ⟨s.board.delayed, le_refl _, ?_, fun id h => by cases h⟩
    have hnone : s.delayQueue.dequeue delayComparator s.store = none :=
      (JobQueue.dequeue_none _ _).2 (JobQueue.peek_eq_none.1 hp)
    simp only [dropDelayed, hnone]
    rfl
  | some k =>
    obtain ⟨rest, hids, hb⟩ := board_dropDelayed hp
    refine ⟨rest, ?_, hb, ?_⟩
    · rw [hids]; exact Multiset.le_cons_self rest k
    · rintro id h
      cases h
      exact hids

theorem board_acquire (s : Scheduler σ) (jobID workerID : Int) (term : Nat) (attempt : Int) :
    Scheduler.board { s with leases := s.leases.acquire jobID workerID term attempt } =
      s.board.setLease ⟨jobID, workerID, term, attempt⟩ := by
  refine Board.ext rfl rfl rfl (funext fun k => ?_) rfl rfl
  rw [Board.setLease_lease]
  exact LeaseManager.get_acquire ..

theorem board_releaseByWorker (s : Scheduler σ) (ord : RangeOrder Int) (workerID : Int) :
    Scheduler.board { s with leases := (s.leases.releaseByWorker ord workerID).2 } =
      s.board.dropLeases (s.leases.releaseByWorker ord workerID).1 :=
  Board.ext rfl rfl rfl (funext fun k => LeaseManager.get_releaseByWorker ord s.leases workerID k) rfl rfl

end Scheduler

namespace Loops

variable {σ : Type} [LawfulStore σ]

def floor (s : Loops σ) : Floor :=
  { board := s.scheduler.board, next := s.engine.nextJobID, dispatcher := s.dispatcher, reporter := s.reporter,
    promoter := s.promoter, recoverer := s.recoverer, calls := s.calls, running := s.running }

/-- The first id of the delay queue. -/
def head (s : Loops σ) : Option Int := s.scheduler.delayQueue.peek

theorem dispatch_moves {s : Loops σ} (h : s.scheduler.WF) (now : Time) (answer : Option String) :
    s.floor.Moves s.head (.dispatchLoop now answer) (s.step (.dispatchLoop now answer)).2
      (s.step (.dispatchLoop now answer)).1.floor := by
  simp only [step]
  cases hd : s.dispatcher with
  | idle =>
    simp only [dispatch]
    split
    · exact .of_eq (by unfold floor; rw [hd]; rfl)
    · rename_i id q hq
      exact .dequeued hd (JobQueue.dequeue_some _ _ hq).2
  | dequeued id =>
    simp only [dispatch]
    split
    · exact .skipped hd
    · rename_i j hj
      cases ht : j.status.isTerminal with
      | true => exact .skipped hd
      | false => exact .entered hd (Scheduler.stored h hj) ht
  | entered j =>
    simp only [dispatch]
    split
    · exact .unplaced hd
    · exact .selected hd
  | selected j w =>
    simp only [dispatch]
    rw [← Scheduler.board_nextAttempt]
    exact .counted hd
  | counted j w attempt =>
    show s.floor.Moves _ _ _
      { s.floor with
        board := Scheduler.board { s.scheduler with leases := s.scheduler.leases.acquire j.id w.id 1 attempt }
        dispatcher := .leased j w attempt }
    rw [Scheduler.board_acquire]
    exact .leased hd
  | leased j w attempt => exact .submitted hd
  | submitting j w taken =>
    simp only [dispatch]
    cases answer with
    | some err => exact .refused hd
    | none =>
      cases taken with
      | true => exact .placed hd
      | false => exact .of_eq (by unfold floor; rw [hd]; rfl)
  | refused j =>
    show s.floor.Moves _ _ _ { s.floor with board := (s.scheduler.release j.id).board, dispatcher := .requeueing j.id }
    rw [Scheduler.board_release]
    exact .released hd
  | requeueing id =>
    show s.floor.Moves _ _ _ { s.floor with board := (s.scheduler.enqueueJob id .priority).board, dispatcher := .idle }
    rw [Scheduler.board_priority]
    exact .requeued hd

theorem report_moves {s : Loops σ} (h : s.scheduler.WF) (now : Time) (r : Result) :
    s.floor.Moves s.head (.resultLoop now r) (s.step (.resultLoop now r)).2 (s.step (.resultLoop now r)).1.floor := by
  simp only [step]
  cases hr : s.reporter with
  | idle =>
    simp only [report]
    split
    · exact .of_eq (by unfold floor; rw [hr]; rfl)
    · rename_i j hj
      exact .received hr (Scheduler.stored h hj)
  | read r' j =>
    simp only [report]
    split
    · exact .discarded hr
    · rename_i hstale
      exact .accepted hr (Scheduler.fresh_of_not_stale hstale)
  | accepted r' j =>
    show s.floor.Moves _ _ _ { s.floor with board := (s.scheduler.release r'.jobID).board, reporter := .released r' j }
    rw [Scheduler.board_release]
    exact .freed hr
  | released r' j =>
    simp only [report]
    cases hok : r'.success with
    | true =>
      show s.floor.Moves _ _ _
        { s.floor with board := (s.scheduler.tryUpdate { j with status := .completed }).board, reporter := .idle }
      rw [Scheduler.board_tryUpdate_any]
      exact .completed hr hok
    | false =>
      cases hretry : shouldRetry j with
      | true =>
        simp only [Bool.false_eq_true, if_false, if_true]
        split
        · exact .notRetried (j := j) hr hok hretry
        · rename_i st hu
          show s.floor.Moves _ _ [.scheduled j.id _]
            { s.floor with board := Scheduler.board { s.scheduler with store := st }, reporter := .retrying j.id }
          rw [Scheduler.board_update hu]
          exact .retried hr hok hretry (LawfulStore.update_ok.1 ⟨st, hu⟩)
      | false =>
        show s.floor.Moves _ _ _
          { s.floor with
            board := (s.scheduler.tryUpdate { j with status := .failed, lastError := r'.error.getD "" }).board
            reporter := .burying { j with status := .failed, lastError := r'.error.getD "" } }
        rw [Scheduler.board_tryUpdate_any]
        exact .failed hr hok hretry
  | retrying id =>
    show s.floor.Moves _ _ _ { s.floor with board := (s.scheduler.enqueueJob id .delay).board, reporter := .idle }
    rw [Scheduler.board_delay]
    exact .delayed hr
  | burying j =>
    show s.floor.Moves _ _ _ { s.floor with board := (s.scheduler.bury j).board, reporter := .idle }
    rw [Scheduler.board_bury]
    exact .buried hr

theorem promote_moves {s : Loops σ} (h : s.scheduler.WF) (now : Time) :
    s.floor.Moves s.head (.delayLoop now) (s.step (.delayLoop now)).2 (s.step (.delayLoop now)).1.floor := by
  simp only [step]
  cases hp : s.promoter with
  | idle =>
    simp only [promote]
    split
    · exact .of_eq (by unfold floor; rw [hp]; rfl)
    · rename_i id hpeek
      obtain ⟨rest, hids, -⟩ := Scheduler.board_dropDelayed hpeek
      refine .peeked hp ?_
      show id ∈ s.scheduler.board.delayed
      rw [hids]
      exact Multiset.mem_cons_self id rest
  | peeked id =>
    simp only [promote]
    split
    · exact .vanished hp
    · rename_i j hj
      split
      · exact .waits hp
      · rename_i hlate
        exact .due hp (Scheduler.stored h hj) (Int.not_lt.1 hlate)
  | missing =>
    obtain ⟨rest, hle, hb, -⟩ := Scheduler.board_dropDelayed_any s.scheduler
    show s.floor.Moves _ _ _ { s.floor with board := s.scheduler.dropDelayed.board, promoter := .idle }
    rw [hb]
    exact .dropped hp hle
  | due id j =>
    obtain ⟨rest, hle, hb, hhead⟩ := Scheduler.board_dropDelayed_any s.scheduler
    show s.floor.Moves _ _ _ { s.floor with board := s.scheduler.dropDelayed.board, promoter := .dequeued id j }
    rw [hb]
    exact .unqueued hp hle (hhead id)
  | dequeued id j =>
    simp only [promote]
    split
    · exact .notPromoted hp
    · rename_i st hu
      show s.floor.Moves _ _ _
        { s.floor with board := Scheduler.board { s.scheduler with store := st }, promoter := .promoted id }
      rw [Scheduler.board_update hu]
      exact .promoted hp (LawfulStore.update_ok.1 ⟨st, hu⟩)
  | promoted id =>
    show s.floor.Moves _ _ _ { s.floor with board := (s.scheduler.enqueueJob id .priority).board, promoter := .idle }
    rw [Scheduler.board_priority]
    exact .readied hp

theorem recover_moves {s : Loops σ} (h : s.scheduler.WF) (workerID : Int) (ord : RangeOrder Int) :
    s.floor.Moves s.head (.recoveryLoop workerID ord) (s.step (.recoveryLoop workerID ord)).2
      (s.step (.recoveryLoop workerID ord)).1.floor := by
  simp only [step]
  cases hv : s.recoverer with
  | visiting ids =>
    cases ids with
    | nil =>
      show s.floor.Moves _ _ _
        { s.floor with
          board := Scheduler.board
            { s.scheduler with leases := (s.scheduler.leases.releaseByWorker ord workerID).2 }
          recoverer := .visiting (s.scheduler.leases.releaseByWorker ord workerID).1 }
      rw [Scheduler.board_releaseByWorker]
      exact .lost hv (LeaseManager.nodup_releaseByWorker ..) fun id => LeaseManager.mem_releaseByWorker
    | cons id rest =>
      simp only [recover]
      split
      · exact .passed hv
      · rename_i j hj
        split
        · rename_i hpend
          exact .found hv (Scheduler.stored h hj) hpend
        · exact .passed hv
  | found id rest =>
    show s.floor.Moves _ _ _
      { s.floor with board := (s.scheduler.enqueueJob id .priority).board, recoverer := .visiting rest }
    rw [Scheduler.board_priority]
    exact .recovered hv

/-- On a coherent store, a step is a move of the floor. -/
theorem step_moves {s : Loops σ} (h : s.scheduler.WF) (a : Act) :
    s.floor.Moves s.head a (s.step a).2 (s.step a).1.floor := by
  cases a with
  | submit i =>
    simp only [step]
    split
    · exact .idle
    · rename_i q j hi
      split
      · exact .idle
      · exact .made hi
  | call n =>
    simp only [step]
    split
    · exact .idle
    · rename_i j q hn
      split
      · exact .notAdded hn
      · rename_i st hadd
        show s.floor.Moves _ _ _
          { s.floor with
            board := Scheduler.board { s.scheduler with store := st }
            calls := s.calls.set n (.stored j q) }
        rw [Engine.board_add hadd]
        exact .added hn
    · rename_i j q hn
      show s.floor.Moves _ _ _ { s.floor with board := (s.engine.enqueue j.id q).board, calls := s.calls.eraseIdx n }
      rw [Engine.board_enqueue]
      exact .queued hn
  | cancelJob id =>
    simp only [step]
    cases hc : Store.cancel s.store id with
    | error err => exact .idle
    | ok st =>
      obtain ⟨j, hst, ht, hb⟩ := Engine.board_cancel h hc
      show s.floor.Moves _ _ _ { s.floor with board := Scheduler.board { s.scheduler with store := st } }
      rw [hb]
      exact .cancelled hst ht
  | deleteJob id =>
    show s.floor.Moves _ _ _
      { s.floor with board := Scheduler.board { s.scheduler with store := (Store.delete s.scheduler.store id).2 } }
    rw [Engine.board_delete]
    exact .deleted
  | workers available broker => exact .idle
  | dispatchLoop now answer => exact dispatch_moves h now answer
  | take =>
    simp only [step]
    split
    · rename_i j w hd
      exact .taken hd
    · exact .idle
  | resultLoop now r => exact report_moves h now r
  | delayLoop now => exact promote_moves h now
  | recoveryLoop workerID ord => exact recover_moves h workerID ord
  | finish n err =>
    simp only [step]
    split
    · exact .idle
    · rename_i j hn
      show s.floor.Moves _ _ _
        { s.floor with
          board := (s.scheduler.tryUpdate (Runner.finish j err)).board, running := s.running.eraseIdx n }
      rw [Scheduler.board_tryUpdate_any]
      exact .finished hn

/-! ## Coherent stores -/

structure Sound (s : Loops σ) : Prop where
  wf : s.scheduler.WF
  floor : s.floor.Sound

theorem dispatch_store (now : Time) (answer : Option String) (s : Scheduler σ) (d : Dispatching) :
    (dispatch now answer s d).1.store = s.store := by
  cases d with
  | idle => simp only [dispatch]; split <;> rfl
  | dequeued id =>
    simp only [dispatch]
    split
    · rfl
    · split <;> rfl
  | entered j => simp only [dispatch]; split <;> rfl
  | submitting j w taken =>
    simp only [dispatch]
    split
    · rfl
    · split <;> rfl
  | selected | counted | leased | refused | requeueing => rfl

theorem report_wf {s : Scheduler σ} (h : s.WF) (now : Time) (r : Result) (p : Reporting) : (report now r s p).1.WF := by
  cases p with
  | idle => simp only [report]; split <;> exact h
  | read r' j => simp only [report]; split <;> exact h
  | accepted r' j => exact h
  | released r' j =>
    simp only [report]
    split
    · exact Scheduler.wf_tryUpdate h _
    · split
      · split
        · exact h
        · rename_i st hu
          exact LawfulStore.wf_update h hu
      · exact Scheduler.wf_tryUpdate h _
  | retrying id => exact h
  | burying j => exact Scheduler.wf_bury h j

theorem promote_wf {s : Scheduler σ} (h : s.WF) (now : Time) (p : Promoting) : (promote now s p).1.WF := by
  have hdrop : s.dropDelayed.WF := by
    unfold Scheduler.WF
    rw [Scheduler.dropDelayed_store]
    exact h
  cases p with
  | idle => simp only [promote]; split <;> exact h
  | peeked id =>
    simp only [promote]
    split
    · exact h
    · split <;> exact h
  | missing => exact hdrop
  | due id j => exact hdrop
  | dequeued id j =>
    simp only [promote]
    split
    · exact h
    · rename_i st hu
      exact LawfulStore.wf_update h hu
  | promoted id => exact h

theorem recover_store (workerID : Int) (ord : RangeOrder Int) (s : Scheduler σ) (v : Recovering) :
    (recover workerID ord s v).1.store = s.store := by
  cases v with
  | visiting ids =>
    cases ids with
    | nil => rfl
    | cons id rest =>
      simp only [recover]
      split
      · rfl
      · split <;> rfl
  | found id rest => rfl

theorem step_wf {s : Loops σ} (h : s.Sound) (a : Act) : (s.step a).1.scheduler.WF := by
  cases a with
  | submit i =>
    simp only [step]
    split
    · exact h.wf
    · split <;> exact h.wf
  | call n =>
    simp only [step]
    split
    · exact h.wf
    · rename_i j q hn
      split
      · exact h.wf
      · rename_i st hadd
        exact LawfulStore.wf_add h.wf (h.floor.made j q (List.mem_of_getElem? hn)).job hadd
    · exact Scheduler.wf_enqueueJob.2 h.wf
  | cancelJob id => exact Engine.orUnchanged_cancel_wf h.wf id
  | deleteJob id => exact LawfulStore.wf_delete id h.wf
  | workers available broker => exact h.wf
  | dispatchLoop now answer =>
    show LawfulStore.WF (dispatch now answer s.scheduler s.dispatcher).1.store
    rw [dispatch_store]
    exact h.wf
  | take => simp only [step]; split <;> exact h.wf
  | resultLoop now r => exact report_wf h.wf now r s.reporter
  | delayLoop now => exact promote_wf h.wf now s.promoter
  | recoveryLoop workerID ord =>
    show LawfulStore.WF (recover workerID ord s.scheduler s.recoverer).1.store
    rw [recover_store]
    exact h.wf
  | finish n err =>
    simp only [step]
    split
    · exact h.wf
    · exact Scheduler.wf_tryUpdate h.wf _

theorem step_sound {s : Loops σ} (h : s.Sound) (a : Act) : (s.step a).1.Sound :=
  ⟨step_wf h a, (step_moves h.wf a).sound h.floor⟩

theorem start_sound {e : Engine σ} (h : e.Sound) : (start e).Sound := by
  refine ⟨h.wf, trivial, trivial, fun id hid => ?_, fun c hc => ?_, List.nodup_nil, fun j q hc => ?_⟩
  · obtain ⟨hj, hr, hd, hl⟩ := h.bounded id hid
    exact ⟨hj, hr, hd, hl, List.not_mem_nil, List.not_mem_nil, List.not_mem_nil, List.not_mem_nil,
      fun j hj => absurd hj List.not_mem_nil⟩
  · cases hc
  · cases hc

theorem exec_sound {e : Engine σ} (h : e.Sound) (acts : List Act) : (loops.exec (start e) acts).Sound :=
  Machine.exec_inv (M := loops) (start_sound h) (fun _ a hs => step_sound hs a) acts

end Loops

end Quorum
