/-
In-process and remote workers. A runner inside the control node writes the outcome of an execution to the store
before its result is read, so a failing job is terminal by the time `resultLoop` looks at it: the update of the retry is
refused, the promotion drops the job, and it is executed once whatever its budget. On a worker node the
runner has no store and the retries happen.
-/
import Quorum.Engine.Lifecycle

namespace Quorum

open Engine (Input Work Seen)

/-- What is left of a job at its end, with the number of its executions. -/
structure Outcome where
  status : Option Status
  retryCount : Option Int
  lastError : Option String
  executions : Nat
  dead : Bool
  dlq : Bool
  deriving DecidableEq

theorem Runner.shouldRetry_finish (j : Job) (err : Option ExecError) : shouldRetry (finish j err) = shouldRetry j := by
  cases err with
  | none => rfl
  | some err => simp only [finish]; split <;> rfl

theorem Runner.retryCount_finish (j : Job) (err : Option ExecError) : (finish j err).retryCount = j.retryCount := by
  cases err with
  | none => rfl
  | some err => simp only [finish]; split <;> rfl

namespace JobView

def outcome (n : Nat) (v : JobView) : Outcome :=
  ⟨v.job.map Job.status, v.job.map Job.retryCount, v.job.map Job.lastError, n, v.dead.isSome, v.dlq.isSome⟩

/-- Where a job on in-process workers is: `p` is the job while it is pending, `out` the outcome of its execution. The
indices are the copies handed to runners, and how many of the executions have been written and reported. -/
inductive Local (p : Job) (out : Option ExecError) : List Job → Nat → Nat → JobView → Prop
  | queued : Local p out [] 0 0 ⟨some p, 1, 0, none, none, none⟩
  | delayed : Local p out [] 0 0 ⟨some { p with status := .scheduled }, 0, 1, none, none, none⟩
  | leased {l : Lease} : Local p out [p] 0 0 ⟨some p, 0, 0, some l, none, none⟩
  | written {l : Lease} : Local p out [p] 1 0 ⟨some (Runner.finish p out), 0, 0, some l, none, none⟩
  | completed : out = none → Local p out [p] 1 1 ⟨some (Runner.finish p out), 0, 0, none, none, none⟩
  | retrying : out ≠ none → shouldRetry p = true →
      Local p out [p] 1 1 ⟨some (Runner.finish p out), 0, 1, none, none, none⟩
  | abandoned : out ≠ none → shouldRetry p = true →
      Local p out [p] 1 1 ⟨some (Runner.finish p out), 0, 0, none, none, none⟩
  | buried {j : Job} : out ≠ none → shouldRetry p = false →
      Local p out [p] 1 1 ⟨some (Runner.finish p out), 0, 0, none, some j, some j⟩

end JobView

namespace Engine

/-- The jobs that accepted submissions of `id` handed to workers. -/
def copies (id : Int) (gs : List Grant) : List Job :=
  (gs.filter fun g => g.accepted && decide (g.lease.jobID = id)).map Grant.job

theorem length_copies (id : Int) (gs : List Grant) : (copies id gs).length = submissions id gs := by
  rw [copies, List.length_map, submissions, List.countP_eq_length_filter]

theorem copies_away {id : Int} {gs : List Grant} (h : ∀ g ∈ gs, g.lease.jobID ≠ id) : copies id gs = [] := by
  rw [← List.length_eq_zero_iff, length_copies, submissions_away h]

theorem copies_append (id : Int) (tr tr' : List Seen) :
    copies id (grants (tr ++ tr')) = copies id (grants tr) ++ copies id (grants tr') := by
  unfold copies grants
  rw [List.filterMap_append, List.filter_append, List.map_append]

/-- The executions of a job that in-process runners have written to the store. -/
def finishes (id : Int) (tr : List Seen) : Nat := tr.countP fun s => match s with
  | .finished j => decide (j.id = id)
  | _ => false

theorem finishes_append (id : Int) (tr tr' : List Seen) : finishes id (tr ++ tr') = finishes id tr + finishes id tr' :=
  List.countP_append

end Engine

namespace JobView

open Engine (copies)

variable {p : Job} {out : Option ExecError} {c : List Job} {f n : Nat} {v v' : JobView}

theorem Local.of_ready (hl : Local p out c f n v) {m : Nat} (h : v.ready = m + 1) :
    m = 0 ∧ c = [] ∧ f = 0 ∧ n = 0 ∧ v = ⟨some p, 1, 0, none, none, none⟩ := by
  cases hl with
  | queued => exact ⟨(Nat.succ.inj h).symm, rfl, rfl, rfl, rfl⟩
  | delayed | leased | written | completed _ | retrying _ _ | abandoned _ _ | buried _ _ => cases h

/-- A written execution without a result. -/
theorem Local.of_unreported (hl : Local p out c f n v) (h : n < f) :
    c = [p] ∧ f = 1 ∧ n = 0 ∧ ∃ l, v = ⟨some (Runner.finish p out), 0, 0, some l, none, none⟩ := by
  cases hl with
  | written => exact ⟨rfl, rfl, rfl, _, rfl⟩
  | queued | delayed | leased | completed _ | retrying _ _ | abandoned _ _ | buried _ _ => omega

/-- An execution that has not been written: its runner has the job as it is stored. -/
theorem Local.of_unwritten {cs : List Job} (hl : Local p out cs f n v) {j : Job} (h : cs[f]? = some j) :
    j = p ∧ cs = [p] ∧ f = 0 ∧ n = 0 ∧ ∃ l, v = ⟨some p, 0, 0, some l, none, none⟩ := by
  cases hl with
  | leased => exact ⟨(Option.some.inj h).symm, rfl, rfl, rfl, _, rfl⟩
  | queued | delayed | written | completed _ | retrying _ _ | abandoned _ _ | buried _ _ => cases h

/-- A quiet step follows the life of the job. -/
theorem Step.local {next id : Int} {w : Work} {gs : List Grant} (hs : Step next id v w gs v') (hid : id ≤ next)
    (hq : Quiet id v w) (hp : p.status = .pending) (hl : Local p out c f n v) :
    Local p out (c ++ copies id gs) f n v' := by
  have hterm : ∀ {st : Status}, isValidTransition (Runner.finish p out).status st = true → st.isTerminal = true := by
    intro st hv
    rw [(isValidTransition_terminal (Runner.finish_terminal p out)).1 hv]
    exact Runner.finish_terminal p out
  have hsame : ∀ {v'}, Local p out c f n v' → Local p out (c ++ copies id []) f n v' := fun h => by
    rw [show copies id [] = [] from rfl, List.append_nil]; exact h
  cases hs with
  | away hg => rw [Engine.copies_away hg, List.append_nil]; exact hl
  | created _ hnew => omega
  | cancelled _ _ _ => exact absurd rfl hq.cancel
  | deleted => exact absurd rfl hq.delete
  | skipped hr hskip =>
    obtain ⟨-, rfl, rfl, rfl, rfl⟩ := hl.of_ready hr
    have ht := hskip p rfl
    rw [hp] at ht; cases ht
  | refused hr _ _ _ =>
    obtain ⟨-, rfl, rfl, rfl, rfl⟩ := hl.of_ready hr
    exact .queued
  | granted hr hj _ _ =>
    obtain ⟨rfl, rfl, rfl, rfl, rfl⟩ := hl.of_ready hr
    cases hj
    have hone : ∀ w a now, copies id [⟨⟨id, w, 1, a⟩, p, now, true⟩] = [p] := fun _ _ _ => by simp [copies]
    rw [hone]
    exact .leased
  | completed hr _ _ _ _ => exact absurd hr (hq.result _ _ rfl)
  | retried hr _ _ _ _ _ => exact absurd hr (hq.result _ _ rfl)
  | buried hr _ _ _ _ _ => exact absurd hr (hq.result _ _ rfl)
  | dropped hd hrefused =>
    refine hsame ?_
    cases hl with
    | delayed =>
      have hv := (hrefused _ rfl).2
      cases hv
    | retrying hout hret =>
      obtain rfl := Nat.succ.inj hd
      exact .abandoned hout hret
    | queued | leased | written | completed _ | abandoned _ _ | buried _ _ => cases hd
  | promoted hd hj _ _ hv =>
    refine hsame ?_
    cases hl with
    | delayed =>
      cases hj
      obtain rfl := Nat.succ.inj hd
      have hback : ({ p with status := .pending } : Job) = p := by rw [← hp]
      show Local p out [] 0 0 ⟨some { p with status := .pending }, 1, 0, none, none, none⟩
      rw [hback]
      exact .queued
    | retrying _ _ =>
      cases hj
      cases hterm hv
    | queued | leased | written | completed _ | abandoned _ _ | buried _ _ => cases hd
  | recovered hl' hw _ => exact absurd hw (hq.alive _ _ rfl _ hl')
  | requeued hl' hw _ _ => exact absurd hw (hq.alive _ _ rfl _ hl')
  | finished hj _ => exact absurd hj (hq.runner _ _ rfl)

/-- The runner has written the outcome over the pending job. -/
theorem Local.of_finish (hp : p.status = .pending) {l : Lease} :
    Local p out [p] 1 0 (write ⟨some p, 0, 0, some l, none, none⟩ p (Runner.finish p out)) := by
  have hvalid : isValidTransition p.status (Runner.finish p out).status = true := by
    rw [hp]
    cases out with
    | none => rfl
    | some err => simp only [Runner.finish]; split <;> rfl
  rw [write, if_pos hvalid]
  exact .written

/-- The result finds the job terminal: no update changes it any more. -/
theorem Local.of_report (now : Time) {l : Lease} {r : Result} {a : Int} {x : Job} (hr : Rpc.Survives x a out r) :
    Local p out [p] 1 1
      (report now r (Runner.finish p out) ⟨some (Runner.finish p out), 0, 0, some l, none, none⟩) := by
  have hkeep : ∀ y : Job, (y.status = (Runner.finish p out).status → y = Runner.finish p out) →
      (⟨some (Runner.finish p out), 0, 0, some l, none, none⟩ : JobView).unleased.write (Runner.finish p out) y =
        ⟨some (Runner.finish p out), 0, 0, none, none, none⟩ := by
    intro y hy
    unfold write
    split
    · rename_i hv
      rw [hy ((isValidTransition_terminal (Runner.finish_terminal p out)).1 hv)]
      rfl
    · rfl
  cases ho : out with
  | none =>
    rw [ho] at hr hkeep
    have hok : r.success = true := hr.success
    rw [report, if_pos hok, hkeep]
    · exact .completed rfl
    · exact fun _ => rfl
  | some err =>
    rw [ho] at hr hkeep
    have hok : ¬ r.success = true := by rw [hr.success]; simp
    have herr : r.error.getD "" = err.message := by rw [hr.error err rfl]; rfl
    rw [report, if_neg hok, Runner.shouldRetry_finish, herr]
    by_cases hret : shouldRetry p = true
    · rw [if_pos hret, hkeep]
      · exact .retrying (Option.some_ne_none err) hret
      · intro hst
        have ht := Runner.finish_terminal p (some err)
        rw [← hst] at ht; cases ht
    · rw [if_neg hret, hkeep]
      · exact .buried (Option.some_ne_none err) (by simpa using hret)
      · -- only the runner's own failure is written again, as it was
        intro hst
        revert hst
        simp only [Runner.finish]
        split
        · intro hst; cases hst
        · intro _; rfl

/-- Before the runner has written, the job is in a queue or with a worker. -/
theorem Local.unwritten (hl : Local p out c 0 n v) : 0 < v.ready ∨ 0 < v.delayed ∨ v.lease ≠ none := by
  cases hl with
  | queued => exact .inl Nat.one_pos
  | delayed => exact .inr (.inl Nat.one_pos)
  | leased => exact .inr (.inr (Option.some_ne_none _))

/-- The worker has the job as it is stored. -/
theorem Local.copy (hl : Local p out c 0 n v) (h : v.lease ≠ none) : c = [p] ∧ v.job = some p := by
  cases hl with
  | queued => exact absurd rfl h
  | delayed => exact absurd rfl h
  | leased => exact ⟨rfl, rfl⟩

/-- The end of a job on in-process workers: one execution, and no dead letter as long as retries are left. -/
theorem Local.settled_outcome (hl : Local p out c f n v) (hs : v.Settled) :
    v.outcome c.length = ⟨some (Runner.finish p out).status, some p.retryCount, some (Runner.finish p out).lastError, 1,
      out.isSome && !shouldRetry p, out.isSome && !shouldRetry p⟩ := by
  rw [← Runner.retryCount_finish p out]
  have hsome : out ≠ none → out.isSome = true := Option.isSome_iff_ne_none.2
  cases hl with
  | queued => cases hs.1
  | delayed => cases hs.2.1
  | leased => cases hs.2.2
  | written => cases hs.2.2
  | retrying _ _ => cases hs.2.1
  | completed hout => rw [hout]; rfl
  | abandoned hout hret => rw [hsome hout, hret]; rfl
  | buried hout hret => rw [hsome hout, hret]; rfl

section
variable {mx : Int} {le : String} {os : Nat → Option ExecError} {g : Nat} (hp : Phase mx le os g n v) (hs : v.Settled)
include hp hs

/-- The end on remote workers, if the first execution succeeds. -/
theorem Phase.outcome_of_success (h0 : os 0 = none) : v.outcome g =
    ⟨some .completed, some 0, some le, 1, false, false⟩ := by
  have hzero : ∀ {n : Nat} {j : Job}, j.Failed mx le os n → n = 0 := by
    intro n j hj
    by_contra hn
    exact hj.outcomes 0 (Nat.pos_of_ne_zero hn) h0
  cases hp with
  | queued _ _ => cases hs.1
  | delayed _ _ => cases hs.2.1
  | leased _ _ => cases hs.2.2
  | completed hj _ =>
    obtain rfl := hzero hj
    show Outcome.mk _ (some _) (some _) _ _ _ = _
    rw [hj.count, hj.error]
    rfl
  | failed hj _ herr =>
    obtain rfl := hzero hj
    rw [h0] at herr; cases herr

/-- The end on remote workers, if the only execution fails. -/
theorem Phase.outcome_of_failure (hmx : mx ≤ 0) {err : ExecError} (h0 : os 0 = some err) :
    v.outcome g = ⟨some .failed, some 0, some err.message, 1, true, true⟩ := by
  have hzero : ∀ {n : Nat} {j : Job}, j.Failed mx le os n → n = 0 := by
    intro n j hj
    by_contra hn
    have hle := hj.budget (Nat.pos_of_ne_zero hn)
    omega
  cases hp with
  | queued _ _ => cases hs.1
  | delayed _ _ => cases hs.2.1
  | leased _ _ => cases hs.2.2
  | completed hj hok =>
    obtain rfl := hzero hj
    rw [h0] at hok; cases hok
  | failed hj _ herr =>
    obtain rfl := hzero hj
    cases h0.symm.trans herr
    show Outcome.mk _ (some _) (some _) _ _ _ = _
    rw [hj.count]
    rfl

/-- With a retry left, a failure is followed by another execution. -/
theorem Phase.two_executions (hmx : 0 < mx) (h0 : os 0 ≠ none) : 1 < g := by
  cases hp with
  | queued _ _ => cases hs.1
  | delayed _ _ => cases hs.2.1
  | leased _ _ => cases hs.2.2
  | @completed n j hj hok =>
    have hn : n ≠ 0 := by rintro rfl; exact h0 hok
    omega
  | @failed n j err hj hret _ =>
    have hcount := hj.count
    have hmax := hj.max
    have hge : ¬ j.retryCount < j.maxRetries := by simpa [shouldRetry] using hret
    omega

end

end JobView

namespace Engine

variable {σ : Type} [LawfulStore σ]

/-- A step of a run in which the job `id` is left to in-process workers: the job is neither cancelled nor deleted,
nobody declares its worker dead, a runner that ends an execution of it writes the copy it was given with the
outcome of that execution, and the result is read once that has happened. -/
structure InProcess (id : Int) (os : Nat → Option ExecError) (tr : List Seen) (e : Engine σ) (w : Work) : Prop where
  cancel : w ≠ .input (.cancelJob id)
  delete : w ≠ .input (.deleteJob id)
  alive : ∀ worker ord, w = .input (.round (.recoveryLoop worker ord)) →
    ∀ l, e.scheduler.leases.get id = some l → l.workerID ≠ worker
  runner : ∀ j err, w = .finish j err → j.id = id →
    (copies id (grants tr))[finishes id tr]? = some j ∧ err = os (finishes id tr)
  result : ∀ now r, w = .input (.round (.resultLoop now r)) → r.jobID = id →
    reports id tr < finishes id tr ∧ ∃ j, Rpc.Survives j 0 (os (reports id tr)) r

/-- What the runs keep. -/
structure Hosts (id : Int) (p : Job) (out : Option ExecError) (tr : List Seen) (e : Engine σ) : Prop where
  sound : e.Sound
  known : id ≤ e.nextJobID
  phase : (e.view id).Local p out (copies id (grants tr)) (finishes id tr) (reports id tr)

theorem finishes_input (id : Int) (e : Engine σ) (i : Input) : finishes id (e.work (.input i)).2 = 0 := by
  refine List.countP_eq_zero.2 fun s hs => ?_
  rcases List.mem_append.1 hs with hs | hs
  · obtain ⟨g, -, rfl⟩ := List.mem_map.1 hs
    simp
  · obtain ⟨r, -, rfl⟩ := List.mem_map.1 hs
    simp

theorem finishes_other {id : Int} (e : Engine σ) {w : Work} (h : ∀ j err, w = .finish j err → j.id ≠ id) :
    finishes id (e.work w).2 = 0 := by
  cases w with
  | input i => exact finishes_input id e i
  | finish j err =>
    have hne := h j err rfl
    show finishes id [.finished j] = 0
    simp [finishes, hne]

variable {id : Int} {p : Job} {os : Nat → Option ExecError}

/-- The result of a written execution is read. -/
theorem Hosts.of_result {tr : List Seen} {e : Engine σ} (h : Hosts id p (os 0) tr e) (now : Time) {r : Result}
    (hid : r.jobID = id) (hlt : reports id tr < finishes id tr) {x : Job}
    (hsurv : Rpc.Survives x 0 (os (reports id tr)) r) :
    ((e.work (.input (.round (.resultLoop now r)))).1.view id).Local p (os 0) (copies id (grants tr)) (finishes id tr)
      (reports id tr + 1) := by
  subst hid
  obtain ⟨hc, hf, hn, l, hv⟩ := h.phase.of_unreported hlt
  rw [hn] at hsurv
  have hget : Store.get e.scheduler.store r.jobID = some (Runner.finish p (os 0)) := congrArg JobView.job hv
  have hview := report_view h.sound now hget (hsurv.not_stale e.scheduler)
  show ((e.step none (.round (.resultLoop now r))).1.view r.jobID).Local p (os 0) _ _ _
  rw [hview, hv, hc, hf, hn]
  exact .of_report now hsurv

/-- A runner writes the outcome of its execution. -/
theorem Hosts.of_finish (hp : p.status = .pending) {tr : List Seen} {e : Engine σ}
    (h : Hosts id p (os 0) tr e) {j : Job} (hid : j.id = id)
    (hcopy : (copies id (grants tr))[finishes id tr]? = some j) :
    ((e.work (.finish j (os (finishes id tr)))).1.view id).Local p (os 0) (copies id (grants tr)) (finishes id tr + 1)
      (reports id tr) := by
  obtain ⟨rfl, hc, hf, hn, l, hv⟩ := h.phase.of_unwritten hcopy
  subst hid
  have hget : Store.get e.scheduler.store j.id = some j := congrArg JobView.job hv
  have hview := finish_view h.sound hget (os 0)
  rw [hc, hf, hn]
  show ((e.finish j (os 0)).view j.id).Local j (os 0) _ _ _
  rw [hview, hv]
  exact .of_finish hp

theorem Hosts.step {tr : List Seen} {e : Engine σ} (hp : p.status = .pending) (h : Hosts id p (os 0) tr e) {w : Work}
    (hw : InProcess id os tr e w) : Hosts id p (os 0) (tr ++ (e.work w).2) (e.work w).1 := by
  refine ⟨work_sound h.sound w, Int.le_trans h.known (nextJobID_work h.sound w), ?_⟩
  rw [copies_append, finishes_append, reports_append]
  by_cases hres : ∃ now r, w = .input (.round (.resultLoop now r)) ∧ r.jobID = id
  · obtain ⟨now, r, rfl, hid⟩ := hres
    obtain ⟨hlt, x, hsurv⟩ := hw.result now r rfl hid
    have hone : reports id (e.work (.input (.round (.resultLoop now r)))).2 = 1 := by rw [← hid, reports_result]
    rw [hone, finishes_input, Nat.add_zero,
      show copies id (grants (e.work (.input (.round (.resultLoop now r)))).2) = [] from rfl, List.append_nil]
    exact h.of_result now hid hlt hsurv
  have hquiet : ∀ now r, w = .input (.round (.resultLoop now r)) → r.jobID ≠ id :=
    fun now r hw hr => hres ⟨now, r, hw, hr⟩
  rw [reports_quiet e hquiet, Nat.add_zero]
  by_cases hfin : ∃ j err, w = .finish j err ∧ j.id = id
  · obtain ⟨j, err, rfl, hid⟩ := hfin
    obtain ⟨hcopy, rfl⟩ := hw.runner j err rfl hid
    have hone : finishes id (e.work (.finish j (os (finishes id tr)))).2 = 1 := by
      show finishes id [.finished j] = 1
      simp [finishes, hid]
    rw [hone, show copies id (grants (e.work (.finish j (os (finishes id tr)))).2) = [] from rfl, List.append_nil]
    exact h.of_finish hp hid hcopy
  · have hother : ∀ j err, w = .finish j err → j.id ≠ id := fun j err hw hj => hfin ⟨j, err, hw, hj⟩
    rw [finishes_other e hother, Nat.add_zero]
    exact (work_view h.sound w id).local h.known ⟨hw.cancel, hw.delete, hw.alive, hquiet, hother⟩ hp h.phase

theorem hosts_new {e : Engine σ} (he : e.Sound) {j : Job} (hnew : (e.view id).New j) (out : Option ExecError) :
    Hosts id { j with status := .pending } out [] e := by
  have hview : (e.view id).job = some j ∧ (e.view id).Local { j with status := .pending } out [] 0 0 := by
    rcases hnew.2 with ⟨hst, hv⟩ | ⟨hst, hv⟩
    · have hj : ({ j with status := .pending } : Job) = j := by rw [← hst]
      rw [hv, hj]; exact ⟨rfl, .queued⟩
    · have hj : ({ j with status := .scheduled } : Job) = j := by rw [← hst]
      have hdelayed : JobView.Local { j with status := .pending } out [] 0 0
          ⟨some { j with status := .scheduled }, 0, 1, none, none, none⟩ := .delayed
      rw [hj] at hdelayed
      rw [hv]; exact ⟨rfl, hdelayed⟩
  exact ⟨he, he.stored_le hview.1, hview.2⟩

theorem inProcess_hosts {e : Engine σ} (he : e.Sound) {j : Job} (hnew : (e.view id).New j) {ws : List Work}
    (hws : working.EveryStep (InProcess id os) e ws) :
    Hosts id { j with status := .pending } (os 0) (working.trace e ws) (working.exec e ws) :=
  hws.inv (hosts_new he hnew (os 0)) fun _ _ _ h hw => h.step rfl hw

/-! ## The end can be reached -/

omit [LawfulStore σ] in
theorem InProcess.loop (tr : List Seen) (e : Engine σ) {rd : Scheduler.Round} (h : rd.Plain) :
    InProcess id os tr e (.input (.round rd)) := by
  refine ⟨fun h => (by cases h), fun h => (by cases h), fun worker ord hw => ?_, fun j err h => (by cases h),
    fun now r hw => ?_⟩
  · cases hw; cases h
  · cases hw; cases h

omit [LawfulStore σ] in
theorem InProcess.write {tr : List Seen} (e : Engine σ) {j : Job} {f : Nat} (hf : finishes id tr = f)
    (hcopy : (copies id (grants tr))[f]? = some j) : InProcess id os tr e (.finish j (os f)) := by
  refine ⟨fun h => (by cases h), fun h => (by cases h), fun _ _ h => (by cases h), fun j' err h _ => ?_,
    fun _ _ h => (by cases h)⟩
  cases h
  rw [hf]
  exact ⟨hcopy, rfl⟩

omit [LawfulStore σ] in
theorem InProcess.receive {tr : List Seen} (e : Engine σ) (now : Time) {r : Result} {j : Job} {n : Nat}
    (hn : reports id tr = n) (hlt : n < finishes id tr) (hr : Rpc.Survives j 0 (os n) r) :
    InProcess id os tr e (.input (.round (.resultLoop now r))) := by
  refine ⟨fun h => (by cases h), fun h => (by cases h), fun _ _ h => (by cases h), fun _ _ h => (by cases h), ?_⟩
  intro now' r' h _
  cases h
  rw [hn]
  exact ⟨hlt, j, hr⟩

/-- A run that hosts the job and has written and reported so many executions of it. -/
def HostsTo (id : Int) (p : Job) (out : Option ExecError) (f n : Nat) (tr : List Seen) (e : Engine σ) : Prop :=
  Hosts id p out tr e ∧ finishes id tr = f ∧ reports id tr = n

theorem HostsTo.loop (hp : p.status = .pending) {f n : Nat} {tr : List Seen} {e : Engine σ}
    (h : HostsTo id p (os 0) f n tr e) {rd : Scheduler.Round} (hrd : rd.Plain) :
    HostsTo id p (os 0) f n (tr ++ (e.work (.input (.round rd))).2) (e.work (.input (.round rd))).1 := by
  refine ⟨h.1.step hp (.loop tr e hrd), ?_, ?_⟩
  · rw [finishes_append, finishes_input, Nat.add_zero]
    exact h.2.1
  · rw [reports_append, reports_quiet e fun now r hw => ?_, Nat.add_zero]
    · exact h.2.2
    · cases hw; cases hrd

/-- After the result, only the delay queue may still hold the job. -/
theorem reported_leads_to_settled (hp : p.status = .pending) {tr : List Seen} {e : Engine σ}
    (h : HostsTo id p (os 0) 1 1 tr e) : working.Leads (InProcess id os) (fun _ e => (e.view id).Settled) tr e := by
  refine (leads_past_delay id (F := HostsTo id p (os 0) 1 1) (fun tr e _ hrd _ => .loop tr e hrd)
    (fun _ _ _ hrd h => h.loop hp hrd) h).bind fun tr e ⟨h, hd⟩ => .here ?_
  have hphase := h.1.phase
  rw [h.2.1, h.2.2] at hphase
  generalize e.view id = v at hphase hd ⊢
  generalize copies id (grants tr) = c at hphase
  cases hphase with
  | completed _ | abandoned _ _ | buried _ _ => exact ⟨rfl, rfl, rfl⟩
  | retrying _ _ => cases hd

/-- The runner of a leased job writes its outcome, and then its result is read. -/
theorem leased_leads_to_settled (hp : p.status = .pending) {tr : List Seen} {e : Engine σ}
    (h : HostsTo id p (os 0) 0 0 tr e) (hl : (e.view id).lease ≠ none) :
    working.Leads (InProcess id os) (fun _ e => (e.view id).Settled) tr e := by
  obtain ⟨hhosts, hf, hn⟩ := h
  obtain ⟨hcopies, hjob⟩ := (hf ▸ hhosts.phase).copy hl
  have hid : p.id = id := LawfulStore.get_id hhosts.sound.wf hjob
  have hwrite : InProcess id os tr e (.finish p (os 0)) := .write e hf (by rw [hcopies]; rfl)
  have hwritten : HostsTo id p (os 0) 1 0 (tr ++ (e.work (.finish p (os 0))).2) (e.work (.finish p (os 0))).1 := by
    have hone : finishes id (e.work (.finish p (os 0))).2 = 1 := by
      show finishes id [.finished p] = 1
      simp [finishes, hid]
    refine ⟨hhosts.step hp hwrite, ?_, ?_⟩
    · rw [finishes_append, hf, hone]
    · rw [reports_append, hn, reports_quiet e fun _ _ h => (by cases h)]
  refine (Machine.Leads.step hwrite hwritten).bind fun tr e ⟨hhosts, hf, hn⟩ => ?_
  have hreceive : InProcess id os tr e (.input (.round (.resultLoop 0 (Runner.result p (os 0))))) :=
    .receive e 0 hn (by omega) (Rpc.survives_result p (os 0))
  have hjob : (Runner.result p (os 0)).jobID = id := (Rpc.survives_result p (os 0)).jobID.trans hid
  refine (Machine.Leads.step (Q := HostsTo id p (os 0) 1 1) hreceive ⟨hhosts.step hp hreceive, ?_, ?_⟩).bind
    fun tr e h => reported_leads_to_settled hp h
  · show finishes id (tr ++ (e.work (.input (.round (.resultLoop 0 (Runner.result p (os 0)))))).2) = 1
    rw [finishes_append, hf, finishes_input]
  · show reports id (tr ++ (e.work (.input (.round (.resultLoop 0 (Runner.result p (os 0)))))).2) = 1
    rw [reports_append, hn, ← hjob, reports_result]

/-- A new job on in-process workers can be led to its end. -/
theorem inProcess_settles {e : Engine σ} (he : e.Sound) {j : Job} (hnew : (e.view id).New j) :
    ∃ ws, working.EveryStep (InProcess id os) e ws ∧ ((working.exec e ws).view id).Settled := by
  have hstart : HostsTo id { j with status := .pending } (os 0) 0 0 [] e := ⟨hosts_new he hnew (os 0), rfl, rfl⟩
  have hactive : ∀ tr (e : Engine σ), HostsTo id { j with status := .pending } (os 0) 0 0 tr e → 0 < (e.view id).ready →
      ∃ x, (e.view id).job = some x ∧ x.status.isTerminal = false := by
    intro tr e h hr
    obtain ⟨-, -, -, -, hv⟩ := h.1.phase.of_ready (Nat.succ_pred_eq_of_pos hr).symm
    exact ⟨_, congrArg JobView.job hv, rfl⟩
  have hlead : working.Leads (InProcess id os) (fun _ e => (e.view id).Settled) [] e := by
    refine (leads_past_delay id (fun tr e _ hrd _ => .loop tr e hrd) (fun _ _ _ hrd h => h.loop rfl hrd) hstart).bind ?_
    rintro tr e ⟨h, hd⟩
    rcases (h.2.1 ▸ h.1.phase).unwritten with hr | hd' | hl
    · exact (leads_to_lease id (fun tr e _ hrd _ => .loop tr e hrd) (fun _ _ _ hrd h => h.loop rfl hrd)
        (fun _ _ h => h.1.sound) hactive h hr).bind fun _ _ h => leased_leads_to_settled rfl h.1 h.2
    · omega
    · exact leased_leads_to_settled rfl h hl
  obtain ⟨ws, hws, hsettled⟩ := hlead
  exact ⟨ws, by simpa using hws, hsettled⟩

/-- The end of a job in a run. -/
def outcome (id : Int) (tr : List Seen) (e : Engine σ) : Outcome := (e.view id).outcome (executions id tr)

/-- An in-process execution of job 1 with its result. -/
def hostedRun (err : Option ExecError) : List Work :=
  [.input (.round (.dispatchLoop 5 fun _ _ => none)), .finish (Job.newJob 1 "email" 1) err,
    .input (.round (.resultLoop 9 (Runner.result (Job.newJob 1 "email" 1) err))),
    .input (.round (.processDelayedJobs (60 * second)))]

theorem hostedRun_inProcess (os : Nat → Option ExecError) :
    working.EveryStep (InProcess 1 os) oneSubmitted (hostedRun (os 0)) := by
  simp only [hostedRun, Machine.everyStep_cons, Machine.everyStep_nil, and_true]
  exact ⟨.loop _ _ trivial, .write _ (f := 0) rfl rfl, .receive _ _ (n := 0) rfl Nat.one_pos (Rpc.survives_result _ _),
    .loop _ _ trivial⟩

end Engine

end Quorum
