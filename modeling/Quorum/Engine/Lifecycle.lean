/-
The life of a job on remote workers, from its submission to its end: it waits in one of the queues, is leased to a
worker, and comes back with a result; a failure within the budget sends it through the delay queue and round
again. `Phase` is where the job is after a number of executions and results, for any sequence of outcomes;
every step of any interleaving follows it, and from every point of it the end can be reached.
-/
import Quorum.Engine.Completion
import Quorum.Engine.Progress
import Quorum.Rpc.Report
import Mathlib.Data.ENat.Lattice

namespace Quorum

open Engine (Input Work Seen)

/-- The error of the last of `n` failures; `le` is the one from before. -/
def lastMessage (le : String) (os : Nat → Option ExecError) : Nat → String
  | 0 => le
  | n + 1 => ((os n).map ExecError.message).getD le

/-- The position of the first success, counted from one. -/
noncomputable def firstSuccess (os : Nat → Option ExecError) : ℕ∞ := ⨅ i : { i // os i = none }, ((i + 1 : ℕ) : ℕ∞)

section
variable {os : Nat → Option ExecError} {n : Nat} (h : ∀ i < n, os i ≠ none)
include h

theorem le_firstSuccess : ((n + 1 : ℕ) : ℕ∞) ≤ firstSuccess os := by
  refine le_iInf fun ⟨i, hi⟩ => ?_
  have hle : n ≤ i := by
    by_contra hlt
    exact h i (by omega) hi
  exact Nat.cast_le.2 (Nat.succ_le_succ hle)

theorem firstSuccess_eq (hn : os n = none) : firstSuccess os = ((n + 1 : ℕ) : ℕ∞) :=
  le_antisymm (iInf_le_of_le ⟨n, hn⟩ (le_refl _)) (le_firstSuccess h)

end

/-- A job that has failed `n` times and may still succeed. -/
structure Job.Failed (mx : Int) (le : String) (os : Nat → Option ExecError) (n : Nat) (j : Job) : Prop where
  count : j.retryCount = n
  max : j.maxRetries = mx
  budget : 0 < n → (n : Int) ≤ mx
  outcomes : ∀ i < n, os i ≠ none
  error : j.lastError = lastMessage le os n

namespace JobView

/-- The job `j` as a submission leaves it: once in the queue of its status, and nowhere else. -/
def New (j : Job) (v : JobView) : Prop :=
  j.retryCount = 0 ∧ (j.status = .pending ∧ v = ⟨some j, 1, 0, none, none, none⟩ ∨
    j.status = .scheduled ∧ v = ⟨some j, 0, 1, none, none, none⟩)

/-- Nothing more will happen to the job. -/
def Settled (v : JobView) : Prop := v.ready = 0 ∧ v.delayed = 0 ∧ v.lease = none

/-- Where a job is after a number of executions and a number of results. -/
inductive Phase (mx : Int) (le : String) (os : Nat → Option ExecError) : Nat → Nat → JobView → Prop
  | queued {n : Nat} {j : Job} : j.Failed mx le os n → j.status = .pending →
      Phase mx le os n n ⟨some j, 1, 0, none, none, none⟩
  | delayed {n : Nat} {j : Job} : j.Failed mx le os n → j.status = .scheduled →
      Phase mx le os n n ⟨some j, 0, 1, none, none, none⟩
  | leased {n : Nat} {j : Job} {l : Lease} : j.Failed mx le os n → j.status = .pending →
      Phase mx le os (n + 1) n ⟨some j, 0, 0, some l, none, none⟩
  | completed {n : Nat} {j : Job} : j.Failed mx le os n → os n = none →
      Phase mx le os (n + 1) (n + 1) ⟨some { j with status := .completed }, 0, 0, none, none, none⟩
  | failed {n : Nat} {j : Job} {err : ExecError} : j.Failed mx le os n → shouldRetry j = false → os n = some err →
      Phase mx le os (n + 1) (n + 1) ⟨some { j with status := .failed, lastError := err.message }, 0, 0, none,
        some { j with status := .failed, lastError := err.message },
        some { j with status := .failed, lastError := err.message }⟩

section
variable {mx : Int} {le : String} {os : Nat → Option ExecError} {g n : Nat} {v : JobView} (hp : Phase mx le os g n v)
include hp

theorem Phase.of_ready {m : Nat} (h : v.ready = m + 1) :
    m = 0 ∧ g = n ∧ ∃ j : Job, j.Failed mx le os n ∧ j.status = .pending ∧ v = ⟨some j, 1, 0, none, none, none⟩ := by
  cases hp with
  | queued hj hst => exact ⟨(Nat.succ.inj h).symm, rfl, _, hj, hst, rfl⟩
  | delayed _ _ | leased _ _ | completed _ _ | failed _ _ _ => cases h

theorem Phase.of_delayed {m : Nat} (h : v.delayed = m + 1) :
    m = 0 ∧ g = n ∧ ∃ j : Job, j.Failed mx le os n ∧ j.status = .scheduled ∧ v = ⟨some j, 0, 1, none, none, none⟩ := by
  cases hp with
  | delayed hj hst => exact ⟨(Nat.succ.inj h).symm, rfl, _, hj, hst, rfl⟩
  | queued _ _ | leased _ _ | completed _ _ | failed _ _ _ => cases h

theorem Phase.of_unreported (h : n < g) : g = n + 1 ∧
    ∃ j l, j.Failed mx le os n ∧ j.status = .pending ∧ v = ⟨some j, 0, 0, some l, none, none⟩ := by
  cases hp with
  | leased hj hst => exact ⟨rfl, _, _, hj, hst, rfl⟩
  | queued _ _ | delayed _ _ | completed _ _ | failed _ _ _ => omega

/-- Only a leased job has an execution without a result. -/
theorem Phase.lt_iff_leased : n < g ↔ v.lease ≠ none := by
  cases hp with
  | leased _ _ => simp
  | queued _ _ | delayed _ _ | completed _ _ | failed _ _ _ => simp

/-- A job that is not settled is in one place, and it has had at most as many results as there are retries. -/
theorem Phase.place : v.Settled ∨ n ≤ mx.toNat ∧ (0 < v.ready ∨ 0 < v.delayed ∨ v.lease ≠ none) := by
  have hbudget : ∀ {j : Job}, j.Failed mx le os n → n ≤ mx.toNat := by
    intro j hj
    rcases Nat.eq_zero_or_pos n with hn | hn
    · omega
    · have hle := hj.budget hn
      omega
  cases hp with
  | queued hj _ => exact .inr ⟨hbudget hj, .inl Nat.one_pos⟩
  | delayed hj _ => exact .inr ⟨hbudget hj, .inr (.inl Nat.one_pos)⟩
  | leased hj _ => exact .inr ⟨hbudget hj, .inr (.inr (Option.some_ne_none _))⟩
  | completed _ _ => exact .inl ⟨rfl, rfl, rfl⟩
  | failed _ _ _ => exact .inl ⟨rfl, rfl, rfl⟩

end

theorem new_of_newJob {i : Input} {id : Int} {q : QueueRef} {j : Job} (h : i.newJob id = some (q, j)) :
    ({ (⟨none, 0, 0, none, none, none⟩ : JobView) with job := some j }.push q).New j := by
  cases i with
  | submitJob _ _ => cases h; exact ⟨rfl, .inl ⟨rfl, rfl⟩⟩
  | submitJobAt _ _ _ => cases h; exact ⟨rfl, .inr ⟨rfl, rfl⟩⟩
  | submitJobIdempotent _ _ _ => cases h; exact ⟨rfl, .inl ⟨rfl, rfl⟩⟩
  | cancelJob _ | deleteJob _ | round _ => cases h

/-- Where the life of a job with `m` retries ends. -/
structure Ended (m : Nat) (os : Nat → Option ExecError) (v : JobView) : Prop where
  completed : firstSuccess os ≤ ((m + 1 : ℕ) : ℕ∞) → ∃ j, v.job = some j ∧ j.status = .completed
  failed : ((m + 1 : ℕ) : ℕ∞) < firstSuccess os → ∃ j err, v.job = some j ∧ j.status = .failed ∧ j.retryCount = m ∧
    os m = some err ∧ j.lastError = err.message ∧ v.dead = some j ∧ v.dlq = some j

theorem Phase.executions_le {m : Nat} {le : String} {os : Nat → Option ExecError} {g n : Nat} {v : JobView}
    (hp : Phase m le os g n v) : (g : ℕ∞) ≤ min (firstSuccess os) ((m + 1 : ℕ) : ℕ∞) := by
  -- executions up to the next one are within the budget and before the first success
  have hnext : ∀ {n : Nat} {j : Job}, j.Failed m le os n → ((n + 1 : ℕ) : ℕ∞) ≤
      min (firstSuccess os) ((m + 1 : ℕ) : ℕ∞) := by
    intro n j hj
    refine le_min (le_firstSuccess hj.outcomes) (Nat.cast_le.2 ?_)
    rcases Nat.eq_zero_or_pos n with hn | hn
    · omega
    · have hle := hj.budget hn
      omega
  have hwait : ∀ {n : Nat} {j : Job}, j.Failed m le os n → (n : ℕ∞) ≤ min (firstSuccess os) ((m + 1 : ℕ) : ℕ∞) :=
    fun hj => le_trans (Nat.cast_le.2 (Nat.le_succ _)) (hnext hj)
  cases hp with
  | queued hj _ => exact hwait hj
  | delayed hj _ => exact hwait hj
  | leased hj _ => exact hnext hj
  | completed hj _ => exact hnext hj
  | failed hj _ _ => exact hnext hj

theorem Phase.ended {m : Nat} {le : String} {os : Nat → Option ExecError} {g n : Nat} {v : JobView}
    (hp : Phase m le os g n v) (hs : v.Settled) :
    (g : ℕ∞) = min (firstSuccess os) ((m + 1 : ℕ) : ℕ∞) ∧ v.Ended m os := by
  have hle := hp.executions_le
  cases hp with
  | queued _ _ => cases hs.1
  | delayed _ _ => cases hs.2.1
  | leased _ _ => cases hs.2.2
  | @completed n j hj hok =>
    have hk := firstSuccess_eq hj.outcomes hok
    refine ⟨le_antisymm hle ((min_le_left _ _).trans hk.le), fun _ => ⟨_, rfl, rfl⟩, fun hlt => ?_⟩
    rw [← hk] at hle
    exact absurd (hle.trans (min_le_right _ _)) (not_le.2 hlt)
  | @failed n j err hj hret herr =>
    -- the budget is used up, and so far there was no success
    obtain rfl : n = m := by
      have hcount := hj.count
      have hmax := hj.max
      have hge : ¬ j.retryCount < j.maxRetries := by simpa [shouldRetry] using hret
      rcases Nat.eq_zero_or_pos n with hn | hn
      · omega
      · have hbudget := hj.budget hn
        omega
    have hlt : ((n + 1 : ℕ) : ℕ∞) < firstSuccess os := by
      have hle : ((n + 1 + 1 : ℕ) : ℕ∞) ≤ firstSuccess os := by
        refine le_firstSuccess fun i hi => ?_
        rcases Nat.lt_succ_iff_lt_or_eq.1 hi with hi | rfl
        · exact hj.outcomes i hi
        · rw [herr]; exact Option.some_ne_none err
      exact (Nat.cast_lt.2 (Nat.lt_succ_self _)).trans_le hle
    refine ⟨(min_eq_right hlt.le).symm, fun hk => absurd hk (not_le.2 hlt), fun _ => ?_⟩
    exact ⟨_, err, rfl, rfl, hj.count, herr, rfl, rfl, rfl⟩

/-- The step neither ends the job from outside nor brings news of its execution. -/
structure Quiet (id : Int) (v : JobView) (w : Work) : Prop where
  cancel : w ≠ .input (.cancelJob id)
  delete : w ≠ .input (.deleteJob id)
  alive : ∀ worker ord, w = .input (.round (.recoveryLoop worker ord)) → ∀ l, v.lease = some l → l.workerID ≠ worker
  result : ∀ now r, w = .input (.round (.resultLoop now r)) → r.jobID ≠ id
  runner : ∀ j err, w = .finish j err → j.id ≠ id

end JobView

namespace Engine

/-- How many of the grants are accepted submissions of the job. -/
def submissions (id : Int) (gs : List Grant) : Nat := gs.countP fun g => g.accepted && decide (g.lease.jobID = id)

/-- The executions of a job: the submissions workers have accepted. -/
def executions (id : Int) (tr : List Seen) : Nat := submissions id (grants tr)

/-- The results of a job that `resultLoop` has received. -/
def reports (id : Int) (tr : List Seen) : Nat := tr.countP fun s => match s with
  | .received r => decide (r.jobID = id)
  | _ => false

theorem submissions_away {id : Int} {gs : List Grant} (h : ∀ g ∈ gs, g.lease.jobID ≠ id) : submissions id gs = 0 := by
  refine List.countP_eq_zero.2 fun g hg => ?_
  simp [h g hg]

theorem executions_append (id : Int) (tr tr' : List Seen) :
    executions id (tr ++ tr') = executions id tr + executions id tr' := by
  unfold executions submissions grants
  rw [List.filterMap_append, List.countP_append]

theorem reports_append (id : Int) (tr tr' : List Seen) : reports id (tr ++ tr') = reports id tr + reports id tr' :=
  List.countP_append

end Engine

namespace JobView

open Engine (submissions)

variable {mx : Int} {le : String} {os : Nat → Option ExecError} {g n : Nat} {v v' : JobView}

/-- A quiet step follows the life of the job. -/
theorem Step.phase {next id : Int} {w : Work} {gs : List Grant} (hs : Step next id v w gs v') (hid : id ≤ next)
    (hq : Quiet id v w) (hp : Phase mx le os g n v) : Phase mx le os (g + submissions id gs) n v' := by
  cases hs with
  | away hg => rw [Engine.submissions_away hg]; exact hp
  | created _ hnew => omega
  | cancelled _ _ _ => exact absurd rfl hq.cancel
  | deleted => exact absurd rfl hq.delete
  | skipped hr hterm =>
    obtain ⟨-, -, j, -, hst, rfl⟩ := hp.of_ready hr
    have ht := hterm j rfl
    rw [hst] at ht; cases ht
  | refused hr _ _ _ =>
    obtain ⟨-, rfl, j, hj, hst, rfl⟩ := hp.of_ready hr
    have hzero : ∀ w a j now, submissions id [⟨⟨id, w, 1, a⟩, j, now, false⟩] = 0 := fun _ _ _ _ => rfl
    rw [hzero]
    exact .queued hj hst
  | granted hr _ _ _ =>
    obtain ⟨rfl, rfl, j, hj, hst, rfl⟩ := hp.of_ready hr
    have hone : ∀ w a j now, submissions id [⟨⟨id, w, 1, a⟩, j, now, true⟩] = 1 := fun _ _ _ _ => by
      simp [submissions]
    rw [hone]
    exact .leased hj hst
  | completed hr _ _ _ _ => exact absurd hr (hq.result _ _ rfl)
  | retried hr _ _ _ _ _ => exact absurd hr (hq.result _ _ rfl)
  | buried hr _ _ _ _ _ => exact absurd hr (hq.result _ _ rfl)
  | dropped hd hrefused =>
    obtain ⟨-, -, j, -, hst, rfl⟩ := hp.of_delayed hd
    have hv := (hrefused j rfl).2
    rw [hst] at hv; cases hv
  | promoted hd hj _ _ _ =>
    obtain ⟨rfl, rfl, j, hf, -, rfl⟩ := hp.of_delayed hd
    cases hj
    exact .queued ⟨hf.count, hf.max, hf.budget, hf.outcomes, hf.error⟩ rfl
  | recovered hl hw _ => exact absurd hw (hq.alive _ _ rfl _ hl)
  | requeued hl hw _ _ => exact absurd hw (hq.alive _ _ rfl _ hl)
  | finished hj _ => exact absurd hj (hq.runner _ _ rfl)

/-- The result of an execution follows it too. -/
theorem Phase.of_report {j : Job} {l : Lease} (hj : j.Failed mx le os n) (hst : j.status = .pending) (now : Time)
    {r : Result} {a : Int} {x : Job} (hr : Rpc.Survives x a (os n) r) :
    Phase mx le os (n + 1) (n + 1) (report now r j ⟨some j, 0, 0, some l, none, none⟩) := by
  have hvalid : ∀ {st : Status}, st = .completed ∨ st = .scheduled ∨ st = .failed →
      isValidTransition j.status st = true := by
    rintro st (rfl | rfl | rfl)
    · exact isValidTransition_to_completed.2 (.inl hst)
    · exact isValidTransition_to_scheduled.2 (.inl hst)
    · exact isValidTransition_to_failed.2 (.inl hst)
  cases ho : os n with
  | none =>
    have hok : r.success = true := by rw [hr.success, ho]; rfl
    rw [report, if_pos hok, write, if_pos (hvalid (.inl rfl))]
    exact .completed hj ho
  | some err =>
    have hok : ¬ r.success = true := by rw [hr.success, ho]; simp
    have herr : r.error.getD "" = err.message := by rw [hr.error err ho]; rfl
    rw [report, if_neg hok, herr]
    by_cases hret : shouldRetry j = true
    · have hscheduled : isValidTransition j.status (Scheduler.retryJob now err.message j).status = true :=
        hvalid (.inr (.inl rfl))
      rw [if_pos hret, write, if_pos hscheduled]
      have hlt : j.retryCount < j.maxRetries := by simpa [shouldRetry] using hret
      have hcount := hj.count
      have hmax := hj.max
      refine .delayed ⟨?_, hj.max, fun _ => ?_, fun i hi => ?_, ?_⟩ rfl
      · show j.retryCount + 1 = _
        omega
      · omega
      · rcases Nat.lt_succ_iff_lt_or_eq.1 hi with hi | rfl
        · exact hj.outcomes i hi
        · rw [ho]; exact Option.some_ne_none err
      · show err.message = lastMessage le os (n + 1)
        rw [lastMessage, ho]; rfl
    · rw [if_neg hret, write, if_pos (hvalid (.inr (.inr rfl)))]
      exact .failed hj (by simpa using hret) ho

end JobView

namespace Engine

variable {σ : Type} [LawfulStore σ]

/-- A step of a run in which the job `id` is left to remote workers: the job is neither cancelled nor deleted, the
worker that has it does not die, no in-process runner writes it, and a result for it is the one result of an execution
that has had none yet, as it arrives over the network. -/
structure Remote (id : Int) (os : Nat → Option ExecError) (tr : List Seen) (e : Engine σ) (w : Work) : Prop where
  cancel : w ≠ .input (.cancelJob id)
  delete : w ≠ .input (.deleteJob id)
  alive : ∀ worker ord, w = .input (.round (.recoveryLoop worker ord)) →
    ∀ l, e.scheduler.leases.get id = some l → l.workerID ≠ worker
  runner : ∀ j err, w = .finish j err → j.id ≠ id
  result : ∀ now r, w = .input (.round (.resultLoop now r)) → r.jobID = id →
    reports id tr < executions id tr ∧ ∃ j, Rpc.Survives j 0 (os (reports id tr)) r

/-- What the runs keep. -/
structure Follows (id mx : Int) (le : String) (os : Nat → Option ExecError) (tr : List Seen) (e : Engine σ) : Prop where
  sound : e.Sound
  known : id ≤ e.nextJobID
  phase : (e.view id).Phase mx le os (executions id tr) (reports id tr)

omit [LawfulStore σ] in
theorem Remote.loop {id : Int} {os : Nat → Option ExecError} (tr : List Seen) (e : Engine σ) {rd : Scheduler.Round}
    (h : rd.Plain) : Remote id os tr e (.input (.round rd)) := by
  refine ⟨fun h => (by cases h), fun h => (by cases h), fun worker ord hw => ?_, fun j err h => (by cases h),
    fun now r hw => ?_⟩
  · cases hw; cases h
  · cases hw; cases h

omit [LawfulStore σ] in
theorem Remote.receive {id : Int} {os : Nat → Option ExecError} {tr : List Seen} (e : Engine σ) (now : Time)
    {r : Result} {j : Job} {n : Nat} (hn : reports id tr = n) (hlt : n < executions id tr)
    (hr : Rpc.Survives j 0 (os n) r) :
    Remote id os tr e (.input (.round (.resultLoop now r))) := by
  refine ⟨fun h => (by cases h), fun h => (by cases h), fun _ _ h => (by cases h), fun _ _ h => (by cases h), ?_⟩
  intro now' r' hw _
  cases hw
  rw [hn]
  exact ⟨hlt, j, hr⟩

theorem executions_work (id : Int) (e : Engine σ) (w : Work) :
    executions id (e.work w).2 = submissions id (grants (e.work w).2) := rfl

/-- A step that brings no result for the job. -/
theorem reports_quiet {id : Int} (e : Engine σ) {w : Work}
    (h : ∀ now r, w = .input (.round (.resultLoop now r)) → r.jobID ≠ id) : reports id (e.work w).2 = 0 := by
  refine List.countP_eq_zero.2 fun s hs => ?_
  cases s with
  | granted g => simp
  | finished j => simp
  | received r =>
    cases w with
    | finish j err => cases List.mem_singleton.1 hs
    | input i =>
      rcases List.mem_append.1 hs with hs | hs
      · obtain ⟨g, -, hg⟩ := List.mem_map.1 hs
        cases hg
      · obtain ⟨r', hr', heq⟩ := List.mem_map.1 hs
        cases heq
        -- only a round of `resultLoop` receives a result
        cases i with
        | round rd =>
          cases rd with
          | resultLoop now r' =>
            cases List.mem_singleton.1 hr'
            simp [h now r rfl]
          | workers _ _ | dispatchLoop _ _ | processDelayedJobs _ | recoveryLoop _ _ => cases hr'
        | submitJob _ _ | submitJobAt _ _ _ | submitJobIdempotent _ _ _ | cancelJob _ | deleteJob _ => cases hr'

theorem reports_result (e : Engine σ) (now : Time) (r : Result) :
    reports r.jobID (e.work (.input (.round (.resultLoop now r)))).2 = 1 := by
  show reports r.jobID ([] ++ [.received r]) = 1
  simp [reports]

variable {id mx : Int} {le : String} {os : Nat → Option ExecError}

theorem Remote.quiet {tr : List Seen} {e : Engine σ} {w : Work} (h : Remote id os tr e w)
    (hr : ∀ now r, w = .input (.round (.resultLoop now r)) → r.jobID ≠ id) : (e.view id).Quiet id w :=
  ⟨h.cancel, h.delete, h.alive, hr, h.runner⟩

/-- The result of an execution is read. -/
theorem Follows.of_result {tr : List Seen} {e : Engine σ} (h : Follows id mx le os tr e) (now : Time) {r : Result}
    (hid : r.jobID = id) (hlt : reports id tr < executions id tr) {x : Job}
    (hsurv : Rpc.Survives x 0 (os (reports id tr)) r) :
    ((e.work (.input (.round (.resultLoop now r)))).1.view id).Phase mx le os (executions id tr)
      (reports id tr + 1) := by
  subst hid
  obtain ⟨hg, j, l, hj, hst, hv⟩ := h.phase.of_unreported hlt
  have hget : Store.get e.scheduler.store r.jobID = some j := congrArg JobView.job hv
  have hview := report_view h.sound now hget (hsurv.not_stale e.scheduler)
  show ((e.step none (.round (.resultLoop now r))).1.view r.jobID).Phase mx le os _ _
  rw [hview, hv, hg]
  exact .of_report hj hst now hsurv

theorem Follows.step {tr : List Seen} {e : Engine σ} (h : Follows id mx le os tr e) {w : Work}
    (hw : Remote id os tr e w) : Follows id mx le os (tr ++ (e.work w).2) (e.work w).1 := by
  refine ⟨work_sound h.sound w, Int.le_trans h.known (nextJobID_work h.sound w), ?_⟩
  rw [executions_append, reports_append]
  by_cases hres : ∃ now r, w = .input (.round (.resultLoop now r)) ∧ r.jobID = id
  · obtain ⟨now, r, rfl, hid⟩ := hres
    obtain ⟨hlt, x, hsurv⟩ := hw.result now r rfl hid
    have hone : reports id (e.work (.input (.round (.resultLoop now r)))).2 = 1 := by rw [← hid, reports_result]
    rw [hone, show executions id (e.work (.input (.round (.resultLoop now r)))).2 = 0 from rfl, Nat.add_zero]
    exact h.of_result now hid hlt hsurv
  · have hquiet : ∀ now r, w = .input (.round (.resultLoop now r)) → r.jobID ≠ id :=
      fun now r hw hr => hres ⟨now, r, hw, hr⟩
    rw [reports_quiet e hquiet, Nat.add_zero, executions_work]
    exact (work_view h.sound w id).phase h.known (hw.quiet hquiet) h.phase

/-! ## The end can be reached -/

/-- A run that follows the job and has had `n` results for it. -/
def FollowsTo (id mx : Int) (le : String) (os : Nat → Option ExecError) (n : Nat) (tr : List Seen)
    (e : Engine σ) : Prop :=
  Follows id mx le os tr e ∧ reports id tr = n

theorem FollowsTo.loop {n : Nat} {tr : List Seen} {e : Engine σ} (h : FollowsTo id mx le os n tr e)
    {rd : Scheduler.Round} (hrd : rd.Plain) :
    FollowsTo id mx le os n (tr ++ (e.work (.input (.round rd))).2) (e.work (.input (.round rd))).1 := by
  refine ⟨h.1.step (.loop tr e hrd), ?_⟩
  rw [reports_append, reports_quiet e fun now r hw => ?_, Nat.add_zero]
  · exact h.2
  · cases hw; cases hrd

/-- A leased job has an execution without a result, and the worker can deliver it. -/
theorem leads_to_result {n : Nat} {tr : List Seen} {e : Engine σ} (h : FollowsTo id mx le os n tr e)
    (hl : (e.view id).lease ≠ none) : working.Leads (Remote id os) (FollowsTo id mx le os (n + 1)) tr e := by
  obtain ⟨hf, hn⟩ := h
  have hlt := hf.phase.lt_iff_leased.2 hl
  obtain ⟨r, -, hr⟩ := Rpc.delivered_spec 0 ⟨0⟩ (fun _ => os (reports id tr)) { Job.zero with id := id }
  have hid : r.jobID = id := hr.jobID
  have hremote : Remote id os tr e (.input (.round (.resultLoop 0 r))) := .receive e 0 rfl hlt hr
  refine .step hremote ⟨hf.step hremote, ?_⟩
  show reports id (tr ++ (e.work (.input (.round (.resultLoop 0 r)))).2) = n + 1
  rw [reports_append, hn, ← hid, reports_result]

/-- Wherever the job is, the run can be continued until nothing more happens to it: the results still to come are
bounded by the retry budget. -/
theorem leads_to_settled {n : Nat} {tr : List Seen} {e : Engine σ} (h : FollowsTo id mx le os n tr e) :
    working.Leads (Remote id os) (fun _ e => (e.view id).Settled) tr e := by
  induction hm : mx.toNat + 1 - n generalizing n tr e with
  | zero =>
    rcases h.1.phase.place with hs | ⟨hle, -⟩
    · exact .here hs
    · rw [h.2] at hle
      omega
  | succ m ih =>
    refine (leads_past_delay id (F := FollowsTo id mx le os n) (fun tr e _ hrd _ => .loop tr e hrd)
      (fun _ _ _ hrd h => h.loop hrd) h).bind fun tr e ⟨h, hdelayed⟩ => ?_
    have hlease : ∀ tr e, FollowsTo id mx le os n tr e ∧ (e.view id).lease ≠ none →
        working.Leads (Remote id os) (fun _ (e : Engine σ) => (e.view id).Settled) tr e :=
      fun _ _ h => (leads_to_result h.1 h.2).bind fun _ _ h => ih h (by omega)
    rcases h.1.phase.place with hs | ⟨-, hr | hd | hl⟩
    · exact .here hs
    · refine (leads_to_lease id (fun tr e _ hrd _ => .loop tr e hrd) (fun _ _ _ hrd h => h.loop hrd)
        (fun _ _ h => h.1.sound) (fun tr e h hr => ?_) h hr).bind hlease
      obtain ⟨-, -, j, -, hst, hv⟩ := h.1.phase.of_ready (Nat.succ_pred_eq_of_pos hr).symm
      exact ⟨j, congrArg JobView.job hv, by rw [hst]; rfl⟩
    · omega
    · exact hlease tr e ⟨h, hl⟩

/-! ## From a submission to the end -/

/-- A job that a submission has stored is a new one. -/
theorem submitted_new {e : Engine σ} (h : e.Sound) {i : Input} {q : QueueRef} {j : Job}
    (hi : i.newJob (e.nextJobID + 1) = some (q, j))
    (hdead : LawfulStore.dead e.scheduler.store (e.nextJobID + 1) = none)
    (hdlq : e.scheduler.dlq.lookup (e.nextJobID + 1) = none)
    (hstored : Store.get (e.work (.input i)).1.scheduler.store (e.nextJobID + 1) ≠ none) :
    ((e.work (.input i)).1.view (e.nextJobID + 1)).New j := by
  have hunused := h.bounded (e.nextJobID + 1) (by omega)
  have hs := work_view h (.input i) (e.nextJobID + 1)
  have hview : e.view (e.nextJobID + 1) = ⟨none, 0, 0, none, none, none⟩ :=
    JobView.ext hunused.job (Multiset.count_eq_zero.2 hunused.ready) (Multiset.count_eq_zero.2 hunused.delayed)
      hunused.lease hdead hdlq
  rw [hview] at hs
  have hstored' : ((e.work (.input i)).1.view (e.nextJobID + 1)).job ≠ none := hstored
  generalize (e.work (.input i)).1.view (e.nextJobID + 1) = v at hs hstored' ⊢
  generalize grants (e.work (.input i)).2 = gs at hs
  cases hs with
  | away _ => exact absurd rfl hstored'
  | created hi' _ =>
    obtain ⟨rfl, rfl⟩ := Prod.mk.inj (Option.some.inj (hi.symm.trans hi'))
    exact JobView.new_of_newJob hi
  | cancelled _ _ _ | deleted | skipped _ _ | refused _ _ _ _ | granted _ _ _ _ | completed _ _ _ _ _ => cases hi
  | retried _ _ _ _ _ _ | buried _ _ _ _ _ _ | dropped _ _ | promoted _ _ _ _ _ | recovered _ _ _ => cases hi
  | requeued _ _ _ _ => cases hi

/-- Every new job is at the start of its life. -/
theorem follows_new {e : Engine σ} (he : e.Sound) {j : Job} (hnew : (e.view id).New j) :
    Follows id j.maxRetries j.lastError os [] e := by
  have hfailed : j.Failed j.maxRetries j.lastError os 0 :=
    ⟨hnew.1, rfl, fun h => absurd h (Nat.lt_irrefl 0), fun i hi => absurd hi (Nat.not_lt_zero i), rfl⟩
  have hview : (e.view id).job = some j ∧ (e.view id).Phase j.maxRetries j.lastError os 0 0 := by
    rcases hnew.2 with ⟨hst, hv⟩ | ⟨hst, hv⟩
    · rw [hv]; exact ⟨rfl, .queued hfailed hst⟩
    · rw [hv]; exact ⟨rfl, .delayed hfailed hst⟩
  exact ⟨he, he.stored_le hview.1, hview.2⟩

theorem remote_follows {e : Engine σ} (he : e.Sound) {j : Job} (hnew : (e.view id).New j) {ws : List Work}
    (hws : working.EveryStep (Remote id os) e ws) :
    Follows id j.maxRetries j.lastError os (working.trace e ws) (working.exec e ws) :=
  hws.inv (follows_new he hnew) fun _ _ _ h hw => h.step hw

/-- The first execution fails, the second one succeeds. -/
def failsOnce (n : ℕ) : Option ExecError := if n = 0 then some ⟨"timeout", false⟩ else none

/-- The run of a job that fails once. -/
def failsOnceRun : List Work :=
  [.input (.round (.dispatchLoop 5 fun _ _ => none)),
    .input (.round (.resultLoop 9 (Runner.result (Job.newJob 1 "email" 1) (failsOnce 0)))),
    .input (.round (.processDelayedJobs (60 * second))), .input (.round (.dispatchLoop (61 * second) fun _ _ => none)),
    .input (.round (.resultLoop (62 * second) (Runner.result (Job.newJob 1 "email" 1) (failsOnce 1))))]

/-- Three waiting workers and one submitted job. -/
def oneSubmitted : Engine MemoryStore := (threeWorkers.work (.input (.submitJob "email" 1))).1

theorem oneSubmitted_new : (oneSubmitted.view 1).New (Job.newJob 1 "email" 1) :=
  submitted_new (sound_new _ _) (i := .submitJob "email" 1) rfl rfl rfl (by decide)

theorem failsOnceRun_remote : working.EveryStep (Remote 1 failsOnce) oneSubmitted failsOnceRun := by
  simp only [failsOnceRun, Machine.everyStep_cons, Machine.everyStep_nil, and_true]
  exact ⟨.loop _ _ trivial, .receive _ _ (n := 0) (by decide +kernel) (by decide +kernel) (Rpc.survives_result _ _),
    .loop _ _ trivial, .loop _ _ trivial,
    .receive _ _ (n := 1) (by decide +kernel) (by decide +kernel) (Rpc.survives_result _ _)⟩

end Engine

end Quorum
