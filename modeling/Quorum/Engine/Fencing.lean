/-
Fencing of stale results. Each accepted dispatch starts an execution, and its result carries the attempt
number of the lease it was dispatched under. A result should count only while its execution holds the
job's lease; the check of `resultLoop` recognises the others only by a lease with another attempt number,
so it lets through results for jobs without a lease and for jobs leased again under the same number.
-/
import Quorum.Engine.Active
import Quorum.Engine.Grants
import Quorum.Store.Memory

namespace Quorum

open Engine (Input)

namespace Board

/-- Processing the result of a job without a lease changes nothing: a success does not complete the job; a
failure neither retries it nor makes it fail, and the job is already dead with the same error. -/
def Ineffective (b : Board) (r : Result) (j : Job) : Prop :=
  if r.success = true then j.status ≠ .pending
  else shouldRetry j = false ∧ j.status ≠ .pending ∧ (j.status = .failed → j.lastError = r.error.getD "") ∧
    b.dead r.jobID = some { j with status := .failed, lastError := r.error.getD "" } ∧
    b.dlq r.jobID = some { j with status := .failed, lastError := r.error.getD "" }

/-- A result of an execution that has lost its lease is recognised: the job is gone, or leased under another
attempt number, or it has no lease and the result is ineffective. -/
def Recognised (b : Board) (r : Result) : Prop :=
  b.job r.jobID = none ∨ (∃ l, b.lease r.jobID = some l ∧ r.attempt ≠ l.attempt) ∨
    (b.lease r.jobID = none ∧ ∃ j, b.job r.jobID = some j ∧ b.Ineffective r j)

theorem dropLease_write_eq_iff {b : Board} {id : Int} {j : Job} (hst : b.Stored id j) (j' : Job) (hid : j'.id = j.id) :
    (b.dropLease id).write j j' = b ↔
      b.lease id = none ∧ (isValidTransition j.status j'.status = true → j' = j) := by
  constructor
  · intro h
    have hl : ((b.dropLease id).write j j').lease id = b.lease id := by rw [h]
    have hj : ((b.dropLease id).write j j').job id = b.job id := by rw [h]
    refine ⟨by simpa using hl.symm, fun hv => ?_⟩
    rw [write_job, if_pos ⟨hv, by rw [hid, hst.2]⟩, hst.1] at hj
    cases hj; rfl
  · rintro ⟨hl, hv⟩
    refine Board.ext (funext fun k => ?_) (by simp) (by simp) (funext fun k => ?_) (by simp [dropLease])
      (by simp [dropLease])
    · rw [write_job, dropLease_job]
      split
      · rename_i hk
        have hjj := hv hk.1
        rw [hk.2, hjj, hst.2, hst.1]
      · rfl
    · rw [write_lease, dropLease_lease]
      split
      · rename_i hk; rw [hk, hl]
      · rfl

/-- Burying a job changes nothing but the dead-letter queues. -/
theorem bury_eq_iff {b b' : Board} {j : Job} (hd : b'.dead = b.dead) (hq : b'.dlq = b.dlq) :
    b'.bury j = b ↔ b' = b ∧ b.dead j.id = some j ∧ b.dlq j.id = some j := by
  constructor
  · intro h
    have hdead : (b'.bury j).dead j.id = b.dead j.id := by rw [h]
    have hdlq : (b'.bury j).dlq j.id = b.dlq j.id := by rw [h]
    rw [bury_dead, if_pos rfl] at hdead
    rw [bury_dlq, if_pos rfl] at hdlq
    refine ⟨Board.ext ?_ ?_ ?_ ?_ hd hq, hdead.symm, hdlq.symm⟩
    · rw [← h, bury_job]
    · rw [← h, bury_ready]
    · rw [← h, bury_delayed]
    · rw [← h, bury_lease]
  · rintro ⟨rfl, hdead, hdlq⟩
    refine Board.ext rfl rfl rfl rfl (funext fun k => ?_) (funext fun k => ?_)
    · rw [bury_dead]; split
      · rename_i hk; rw [hk, hdead]
      · rfl
    · rw [bury_dlq]; split
      · rename_i hk; rw [hk, hdlq]
      · rfl

theorem completed_eq_self_iff {j : Job} :
    (isValidTransition j.status .completed = true → { j with status := .completed } = j) ↔ j.status ≠ .pending := by
  rw [isValidTransition_to_completed]
  constructor
  · intro h hp
    have hj := congrArg Job.status (h (.inl hp))
    rw [hp] at hj; cases hj
  · rintro hn (hp | hc)
    · exact absurd hp hn
    · rw [← hc]

theorem failed_eq_self_iff {j : Job} {err : String} :
    (isValidTransition j.status .failed = true → { j with status := .failed, lastError := err } = j) ↔
      j.status ≠ .pending ∧ (j.status = .failed → j.lastError = err) := by
  rw [isValidTransition_to_failed]
  constructor
  · intro h
    refine ⟨fun hp => ?_, fun hf => ?_⟩
    · have hj := congrArg Job.status (h (.inl hp))
      rw [hp] at hj; cases hj
    · exact (congrArg Job.lastError (h (.inr hf))).symm
  · rintro ⟨hn, he⟩ (hp | hf)
    · exact absurd hp hn
    · rw [← he hf, ← hf]

/-- A result with an attempt number changes nothing exactly if it is recognised. -/
theorem Reports.eq_self_iff {now : Time} {r : Result} {b b' : Board} (hr : b.Reports now r b') (hpos : 0 < r.attempt) :
    b' = b ↔ b.Recognised r := by
  -- once the result is accepted, only the last case of `Recognised` is left
  have hlast : ∀ {j : Job}, b.Stored r.jobID j → b.Fresh r →
      (b.Recognised r ↔ b.lease r.jobID = none ∧ b.Ineffective r j) := by
    intro j hst hf
    constructor
    · rintro (hn | ⟨l, hl, hne⟩ | ⟨hl, j', hj', hi⟩)
      · rw [hst.1] at hn; cases hn
      · rcases hf l hl with h | h
        · omega
        · exact absurd h hne
      · rw [hst.1] at hj'; cases hj'
        exact ⟨hl, hi⟩
    · rintro ⟨hl, hi⟩
      exact .inr (.inr ⟨hl, j, hst.1, hi⟩)
  cases hr with
  | missing hn => exact ⟨fun _ => .inl hn, fun _ => rfl⟩
  | stale hl _ hne => exact ⟨fun _ => .inr (.inl ⟨_, hl, hne⟩), fun _ => rfl⟩
  | @completed j hst hf hok =>
    rw [hlast hst hf, dropLease_write_eq_iff hst { j with status := .completed } rfl, completed_eq_self_iff,
      Ineffective, if_pos hok]
  | @buried j hst hf hok hret =>
    rw [hlast hst hf, bury_eq_iff (by simp [dropLease]) (by simp [dropLease]),
      dropLease_write_eq_iff hst { j with status := .failed, lastError := r.error.getD "" } rfl,
      failed_eq_self_iff, Ineffective, if_neg (by simp [hok])]
    simp [hret, hst.2, and_assoc]
  | retried hst hf hok hret =>
    rw [hlast hst hf, Ineffective, if_neg (by simp [hok]), hret]
    constructor
    · intro h
      have hcard := congrArg (fun b : Board => b.delayed.card) h
      simp at hcard
    · rintro ⟨-, h, -⟩; cases h

end Board

/-- `resultLoop` reads a result. -/
def Engine.Event.isResult : Engine.Event → Bool
  | .input _ (.round (.resultLoop _ _)) => true
  | _ => false

/-- An engine and the leases of the executions it has started, oldest first. -/
structure Fenced (σ : Type) where
  engine : Engine σ
  executions : List Lease

namespace Fenced

variable {σ : Type}

/-- What happens: the result of the `k`-th execution is read, be it late or for the second time, or anything
else on the node. -/
inductive Event where
  | report (k : Nat) (now : Time) (success : Bool) (err : String)
  | other (ev : Engine.Event) (notResult : ev.isResult = false)

/-- The result of an execution dispatched under the lease `l`. -/
def resultOf (l : Lease) (success : Bool) (err : String) : Result :=
  { jobID := l.jobID, success := success, error := if success then none else some err, attempt := l.attempt
    carries := by rintro rfl; rfl }

/-- The execution holds its job's lease: the job is leased, and no later execution of it was started. -/
def Holder (w : Fenced σ) (k : Nat) : Prop :=
  ∃ l, w.executions[k]? = some l ∧ (w.engine.scheduler.leases.get l.jobID).isSome = true ∧
    ∀ m l', k < m → w.executions[m]? = some l' → l'.jobID ≠ l.jobID

section
variable [Store σ]

def step (w : Fenced σ) : Event → Fenced σ × List Grant
  | .report k now success err =>
    match w.executions[k]? with
    | some l => ({ w with engine := (w.engine.step none (.round (.resultLoop now (resultOf l success err)))).1 }, [])
    | none => (w, [])
  | .other ev _ =>
    let p := w.engine.event ev
    ({ engine := p.1, executions := w.executions ++ (p.2.filter (·.accepted)).map (·.lease) }, p.2)

def machine : Machine (Fenced σ) Event Grant := ⟨step⟩

end

variable [LawfulStore σ]

/-- No execution has been started and no job is leased. -/
structure Starts (w : Fenced σ) : Prop where
  engine : w.engine.Starts
  executions : w.executions = []

/-- If the event is a result of an execution that does not hold its job's lease, it changes no stored job, no
lease, no queue and no dead letter. -/
def Fences (w : Fenced σ) (ev : Event) : Prop :=
  ∀ k now success err l, ev = .report k now success err → w.executions[k]? = some l → ¬ w.Holder k →
    (w.step ev).1.engine.board = w.engine.board

/-- If the event is such a result, the job is gone, or leased under another attempt number, or has no lease
and the result is ineffective. -/
def RecognisesStale (w : Fenced σ) (ev : Event) : Prop :=
  ∀ k now success err l, ev = .report k now success err → w.executions[k]? = some l → ¬ w.Holder k →
    w.engine.board.Recognised (resultOf l success err)

/-- What every run keeps: attempt numbers are positive. -/
structure Inv (w : Fenced σ) : Prop where
  sound : w.engine.Sound
  counted : w.engine.board.Counted
  positive : ∀ l ∈ w.executions, 1 ≤ l.attempt

theorem step_inv {w : Fenced σ} (h : Inv w) (ev : Event) : Inv (w.step ev).1 := by
  cases ev with
  | report k now success err =>
    unfold step
    dsimp only
    split
    · rename_i l hl
      have hstep := Engine.step_board none h.sound.wf (.round (.resultLoop now (resultOf l success err)))
      exact ⟨Engine.step_sound none h.sound _, h.counted.step hstep.leaseStep, h.positive⟩
    · exact h
  | other ev hev =>
    obtain ⟨hc, hpos⟩ := Engine.event_counted h.sound.wf h.counted ev
    refine ⟨Engine.event_sound h.sound ev, hc, fun l hl => ?_⟩
    rcases List.mem_append.1 hl with hl | hl
    · exact h.positive l hl
    · obtain ⟨g, hg, rfl⟩ := List.mem_map.1 hl
      exact hpos g (List.mem_filter.1 hg).1

/-- On a state of a run, a stale result changes nothing exactly if it is recognised. -/
theorem fences_iff_recognises {w : Fenced σ} (h : Inv w) (ev : Event) : w.Fences ev ↔ w.RecognisesStale ev := by
  have hkey : ∀ k now success err l, w.executions[k]? = some l →
      ((w.step (.report k now success err)).1.engine.board = w.engine.board ↔
        w.engine.board.Recognised (resultOf l success err)) := by
    intro k now success err l hl
    have hpos := h.positive l (List.mem_of_getElem? hl)
    have hr : w.engine.board.Reports now (resultOf l success err)
        (w.engine.scheduler.resultLoop now (resultOf l success err)).board :=
      Scheduler.resultLoop_board h.sound.wf now _
    rw [← hr.eq_self_iff (show 0 < (resultOf l success err).attempt from hpos)]
    simp only [step, hl]
    rfl
  constructor
  · rintro hf k now success err l rfl hl hh
    exact (hkey k now success err l hl).1 (hf k now success err l rfl hl hh)
  · rintro hc k now success err l rfl hl hh
    exact (hkey k now success err l hl).2 (hc k now success err l rfl hl hh)

/-- A standalone engine with an empty store and worker 7 waiting. -/
def oneWorker : Fenced MemoryStore := ⟨Engine.new Store.empty ⟨1, [⟨7⟩], by decide⟩ none, []⟩

/-- Submit a job, dispatch it to worker 7, and declare worker 7 dead. -/
def workerDies : List Event :=
  [.other (.input none (.submitJob "email" 1)) rfl, .other (.input none (.round (.dispatchLoop 5 fun _ _ => none))) rfl,
    .other (.input none (.round (.recoveryLoop 7 .stored))) rfl]

theorem oneWorker_starts : oneWorker.Starts := ⟨Engine.starts_new _ _, rfl⟩

end Fenced

end Quorum
