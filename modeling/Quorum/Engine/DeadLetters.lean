/-
The persistent dead-letter queue and the status of jobs. `resultLoop` writes the dead letter after a status update
whose error it ignores. The queue holds exactly the failed jobs, each with its retries used up, as long as every
last failure finds its job pending or failed; a last failure for a job in another status is buried and the
job stays what it was.
-/
import Quorum.Engine.Completion
import Quorum.Store.Keys

namespace Quorum

open Engine (Input Work)

namespace JobView

/-- A stored job has a dead letter exactly if it is failed, and a failed job has used up its retries. -/
def Matched (v : JobView) : Prop :=
  ∀ j, v.job = some j → (v.dead.isSome = true ↔ j.status = .failed) ∧ (j.status = .failed → j.retryCount = j.maxRetries)

/-- A stored job has not been retried more often than allowed. -/
def Budgeted (v : JobView) : Prop := ∀ j, v.job = some j → j.retryCount ≤ j.maxRetries

/-- A last failure finds the job pending or failed. -/
def TakesFailure (v : JobView) (id : Int) (i : Input) : Prop :=
  ∀ now r j, i = .round (.resultLoop now r) → r.jobID = id → v.job = some j → v.Fresh r → r.success = false →
    shouldRetry j = false → j.status = .pending ∨ j.status = .failed

theorem newJob_budgeted {i : Input} {n : Int} {q : QueueRef} {j : Job} (h : i.newJob n = some (q, j)) :
    j.retryCount ≤ j.maxRetries ∧ j.status ≠ .failed := by
  have h3 : (0 : Int) ≤ 3 := by decide
  cases i with
  | submitJob _ _ | submitJobAt _ _ _ | submitJobIdempotent _ _ _ => cases h; exact ⟨h3, fun hf => by cases hf⟩
  | cancelJob _ | deleteJob _ | round _ => cases h

theorem Budgeted.write {v : JobView} (h : v.Budgeted) {old : Job} (hold : v.job = some old) (j : Job)
    (hj : j.retryCount ≤ j.maxRetries) : (v.write old j).Budgeted := by
  intro x hx
  rw [write_job v old j hold] at hx
  split at hx
  · cases hx; exact hj
  · cases hx; exact h old hold

theorem Step.budgeted {next id : Int} {v v' : JobView} {i : Input} {gs : List Grant}
    (hs : Step next id v (.input i) gs v') (h : v.Budgeted) : v'.Budgeted := by
  cases hs with
  | away _ | skipped _ _ | refused _ _ _ _ | granted _ _ _ _ | dropped _ _ | recovered _ _ _ | requeued _ _ _ _ =>
    exact h
  | @created i q j hi _ =>
    have hj := (newJob_budgeted hi).1
    intro x hx
    cases q <;> (cases hx; exact hj)
  | @cancelled j hj _ _ =>
    have hle := h j hj
    intro x hx
    cases hx; exact hle
  | deleted => intro x hx; cases hx
  | @completed now r j _ hj _ _ _ =>
    have hle := h j hj
    exact Budgeted.write (v := v.unleased) h hj _ hle
  | @retried now r j _ hj _ _ _ hret =>
    -- the retry is within the budget
    have hlt : j.retryCount < j.maxRetries := by simpa [shouldRetry] using hret
    exact Budgeted.write (v := v.unleased) h hj (Scheduler.retryJob now (r.error.getD "") j) hlt
  | @buried now r j _ hj _ _ _ _ =>
    have hle := h j hj
    exact Budgeted.write (v := v.unleased) h hj { j with status := .failed, lastError := r.error.getD "" } hle
  | @promoted now m j _ hj _ _ _ =>
    have hle := h j hj
    intro x hx
    cases hx; exact hle

/-- The status neither becomes failed nor ceases to be, and the dead letter stays. -/
theorem Matched.rewrite {v v' : JobView} (h : v.Matched) (hdead : v'.dead = v.dead) {old : Job}
    (hold : v.job = some old) (hj : ∀ x, v'.job = some x → x = old ∨ (x.status ≠ .failed ∧ old.status ≠ .failed)) :
    v'.Matched := by
  intro x hx
  obtain ⟨hd, hf⟩ := h old hold
  rw [hdead]
  rcases hj x hx with rfl | ⟨hne, hne'⟩
  · exact ⟨hd, hf⟩
  · exact ⟨⟨fun hsome => absurd (hd.1 hsome) hne', fun hx => absurd hx hne⟩, fun hx => absurd hx hne⟩

/-- A write, accepted or refused, of a status other than failed that a failed job refuses. -/
theorem Matched.write {v : JobView} (h : v.Matched) {old : Job} (hold : v.job = some old) (j : Job)
    (hne : j.status ≠ .failed) : (v.unleased.write old j).Matched := by
  refine h.rewrite (by simp [unleased]) hold fun x hx => ?_
  rw [write_job v.unleased old j hold] at hx
  split at hx
  · rename_i hv
    cases hx
    refine .inr ⟨hne, fun hf => ?_⟩
    rw [hf, isValidTransition_terminal rfl] at hv
    exact hne hv
  · cases hx; exact .inl rfl

theorem Step.matched {next id : Int} {v v' : JobView} {i : Input} {gs : List Grant}
    (hs : Step next id v (.input i) gs v') (hnew : id = next + 1 → v.dead = none) (hb : v.Budgeted) (h : v.Matched)
    (hc : v.TakesFailure id i) : v'.Matched := by
  cases hs with
  | away _ | skipped _ _ | refused _ _ _ _ | granted _ _ _ _ | dropped _ _ | recovered _ _ _ | requeued _ _ _ _ =>
    exact h
  | @created i q j hi hid =>
    have hj := (newJob_budgeted hi).2
    have hdead := hnew hid
    have hmatched : ({ v with job := some j } : JobView).Matched := by
      intro x hx
      cases hx
      rw [hdead]
      exact ⟨⟨fun hn => (by cases hn), fun hf => absurd hf hj⟩, fun hf => absurd hf hj⟩
    cases q <;> exact hmatched
  | @cancelled j hj _ ht =>
    refine h.rewrite rfl hj fun x hx => .inr ?_
    cases hx
    exact ⟨fun hf => (by cases hf), fun hf => by rw [hf] at ht; cases ht⟩
  | deleted => intro x hx; cases hx
  | completed _ hj _ _ _ => exact h.write hj _ fun hf => by cases hf
  | @retried now r j _ hj _ _ _ _ => 
    exact h.write hj (Scheduler.retryJob now (r.error.getD "") j) fun hf => by cases hf
  | @buried now r j hid hj _ hf hok hret =>
    -- the update is accepted, so the job that is buried is failed
    have hst := hc now r j rfl hid hj hf hok hret
    have hle := hb j hj
    intro x hx
    have hxj := write_job v.unleased j { j with status := .failed, lastError := r.error.getD "" } hj
    rw [if_pos (isValidTransition_to_failed.2 hst)] at hxj
    cases hxj.symm.trans hx
    refine ⟨⟨fun _ => rfl, fun _ => rfl⟩, fun _ => ?_⟩
    have hge : ¬ j.retryCount < j.maxRetries := by simpa [shouldRetry] using hret
    show j.retryCount = j.maxRetries
    omega
  | @promoted now m j _ hj _ _ hv =>
    refine h.rewrite rfl hj fun x hx => .inr ?_
    cases hx
    refine ⟨fun hf => (by cases hf), fun hf => ?_⟩
    rw [hf] at hv; cases hv

/-- Only a stored job is buried, under its own id. -/
theorem Step.dead {next id : Int} {v v' : JobView} {w : Work} {gs : List Grant} (hs : Step next id v w gs v') :
    v'.dead = v.dead ∨ v.job ≠ none ∧ ∃ d, v'.dead = some d ∧ d.id = id := by
  cases hs with
  | away _ | cancelled _ _ _ | deleted | skipped _ _ | refused _ _ _ _ | granted _ _ _ _ => exact .inl rfl
  | dropped _ _ | promoted _ _ _ _ _ | recovered _ _ _ | requeued _ _ _ _ => exact .inl rfl
  | @created i q j _ _ => cases q <;> exact .inl rfl
  | completed _ _ _ _ _ | retried _ _ _ _ _ _ | finished _ _ => exact .inl (by simp [unleased, push])
  | buried _ hj hid _ _ _ => exact .inr ⟨by rw [hj]; exact Option.some_ne_none _, _, rfl, hid⟩

end JobView

namespace Engine

section
variable {σ : Type} [LawfulStore σ]

/-! ## Runs -/

/-- The persistent dead-letter queue lists a stored job exactly if it is failed, and then its retries are used
up. -/
def LettersMatch (e : Engine σ) : Prop :=
  ∀ ord id j, Store.get e.scheduler.store id = some j →
    ((∃ d ∈ Store.listDLQ ord e.scheduler.store, d.id = id) ↔ j.status = .failed) ∧
      (j.status = .failed → j.retryCount = j.maxRetries)

/-- If the input is a last failure that `resultLoop` accepts, its job is pending or failed. -/
def LastFailureTaken (e : Engine σ) (i : Input) : Prop :=
  ∀ now r j, i = .round (.resultLoop now r) → Store.get e.scheduler.store r.jobID = some j →
    e.scheduler.isStale r = false → r.success = false → shouldRetry j = false →
    j.status = .pending ∨ j.status = .failed

/-- What a run keeps besides: retries within the budget, and dead letters under their own ids, none above the
counter. -/
structure Lettered (e : Engine σ) : Prop where
  sound : e.Sound
  budgeted : ∀ id, (e.view id).Budgeted
  letters : ∀ id d, LawfulStore.dead e.scheduler.store id = some d → d.id = id ∧ id ≤ e.nextJobID

theorem Lettered.step {e : Engine σ} (h : e.Lettered) (i : Input) : (e.step none i).1.Lettered := by
  have hview := work_view h.sound (.input i)
  refine ⟨step_sound none h.sound i, fun id => (hview id).budgeted (h.budgeted id), fun id d hd => ?_⟩
  have hn := nextJobID_work h.sound (.input i)
  change e.nextJobID ≤ (e.step none i).1.nextJobID at hn
  rcases (hview id).dead with hsame | ⟨hstored, d', hd', hid⟩
  · obtain ⟨hid, hle⟩ := h.letters id d (hsame.symm.trans hd)
    exact ⟨hid, Int.le_trans hle hn⟩
  · cases hd.symm.trans hd'
    obtain ⟨j, hj⟩ := Option.ne_none_iff_exists'.1 hstored
    exact ⟨hid, Int.le_trans (h.sound.stored_le hj) hn⟩

/-- The dead letter of a job, as `ListDLQ` shows it. -/
theorem Lettered.listed {e : Engine σ} (h : e.Lettered) (ord : RangeOrder Int) (id : Int) :
    (∃ d ∈ Store.listDLQ ord e.scheduler.store, d.id = id) ↔ (e.view id).dead.isSome = true := by
  constructor
  · rintro ⟨d, hd, rfl⟩
    obtain ⟨k, hk⟩ := LawfulStore.mem_listDLQ.1 hd
    obtain rfl := (h.letters k d hk).1
    exact Option.isSome_of_eq_some hk
  · intro hd
    obtain ⟨d, hd⟩ := Option.isSome_iff_exists.1 hd
    exact ⟨d, LawfulStore.mem_listDLQ.2 ⟨id, hd⟩, (h.letters id d hd).1⟩

theorem Lettered.match_iff {e : Engine σ} (h : e.Lettered) : e.LettersMatch ↔ ∀ id, (e.view id).Matched := by
  constructor
  · intro hm id j hj
    have hmj := hm .stored id j hj
    rw [h.listed] at hmj
    exact hmj
  · intro hm ord id j hj
    rw [h.listed]
    exact hm id j hj

theorem LastFailureTaken.view {e : Engine σ} {i : Input} (h : e.LastFailureTaken i) (id : Int) :
    (e.view id).TakesFailure id i := by
  rintro now r j hi rfl hj hf hok hret
  refine h now r j hi hj ?_ hok hret
  rw [← Bool.not_eq_true, Scheduler.isStale_iff]
  rintro ⟨l, hl, hpos, hne⟩
  rcases hf l hl with hle | heq
  · omega
  · exact hne heq

/-- An accepted last failure buries its job, whether or not the job becomes failed. -/
theorem last_failure {e : Engine σ} (he : e.Sound) (now : Time) {r : Result} {j : Job}
    (hj : Store.get e.scheduler.store r.jobID = some j) (hstale : e.scheduler.isStale r = false)
    (hok : r.success = false) (hret : shouldRetry j = false) :
    let v := (e.step none (.round (.resultLoop now r))).1.view r.jobID
    v.dead.isSome = true ∧ (isValidTransition j.status .failed = false → v.job = some j) := by
  intro v
  have hview : v = _ := report_view he now hj hstale
  rw [JobView.report, if_neg (by simp [hok]), if_neg (by simp [hret])] at hview
  refine ⟨by rw [hview]; rfl, fun hv => ?_⟩
  rw [hview]
  have hjob :=
    JobView.write_job (e.view r.jobID).unleased j { j with status := .failed, lastError := r.error.getD "" } hj
  rw [if_neg (by simp [hv])] at hjob
  exact hjob

/-- In a run of a standalone engine, the dead-letter queue matches the statuses in every state exactly if every
accepted last failure finds its job pending or failed. -/
theorem letters_match_iff (e : Engine σ) (he : e.Lettered) (hm : e.LettersMatch) (is : List Input) :
    (∀ pre, pre <+: is → (standalone.exec e pre).LettersMatch) ↔
      standalone.EveryStep (fun _ e i => e.LastFailureTaken i) e is := by
  have hlet : ∀ is, (standalone.exec e is).Lettered := Machine.exec_inv (M := standalone) he fun _ i h => h.step i
  constructor
  · rintro hall pre i post rfl now r j rfl hj hstale hok hret
    by_contra hst
    have hv : isValidTransition j.status .failed = false := by
      rw [← Bool.not_eq_true, isValidTransition_to_failed]
      exact hst
    obtain ⟨hdead, hjob⟩ := last_failure (hlet pre).sound now hj hstale hok hret
    have hafter := hall (pre ++ [.round (.resultLoop now r)]) ⟨post, by simp⟩
    rw [(hlet _).match_iff] at hafter
    have hfailed := ((hafter r.jobID j (by rw [Machine.exec_append]; exact hjob hv)).1.1
      (by rw [Machine.exec_append]; exact hdead))
    exact hst (.inr hfailed)
  · rintro hc pre ⟨post, rfl⟩
    have hrun : (standalone.exec e pre).Lettered ∧ ∀ id, ((standalone.exec e pre).view id).Matched := by
      refine Machine.EveryStep.inv (M := standalone) (P := fun _ e => e.Lettered ∧ ∀ id, (e.view id).Matched)
        ⟨he, he.match_iff.1 hm⟩ ?_ hc.init
      rintro tr e i ⟨hl, hm⟩ hi
      refine ⟨hl.step i, fun id => ?_⟩
      refine (work_view hl.sound (.input i) id).matched (fun hid => ?_) (hl.budgeted id) (hm id) (hi.view id)
      -- an id that is not given out yet has no dead letter
      cases hd : (e.view id).dead with
      | none => rfl
      | some d => have := (hl.letters id d hd).2; omega
    exact hrun.1.match_iff.2 hrun.2

end

section
variable {σ : Type} [IndexedStore σ]

theorem lettered_new (available : Chan WorkerClient) (broker : Option Broker) :
    (new (Store.empty : σ) available broker).Lettered ∧ (new (Store.empty : σ) available broker).LettersMatch := by
  have hnone : ∀ id j, Store.get (Store.empty : σ) id ≠ some j := fun id j hj => by
    cases (LawfulStore.get_empty id).symm.trans hj
  refine ⟨⟨sound_new _ _, fun id j hj => absurd hj (hnone id j), fun id d hd => ?_⟩,
    fun ord id j hj => absurd hj (hnone id j)⟩
  cases (IndexedStore.dead_empty id).symm.trans hd

end

/-- A result is taken if its job has retries left, or is pending or failed. -/
theorem lastFailureTaken_result {σ : Type} [LawfulStore σ] {e : Engine σ} {now : Time} {r : Result} {j : Job}
    (hj : Store.get e.scheduler.store r.jobID = some j)
    (h : shouldRetry j = true ∨ j.status = .pending ∨ j.status = .failed) :
    e.LastFailureTaken (.round (.resultLoop now r)) := by
  intro now' r' j' hi hj' _ _ hret
  cases hi
  cases hj.symm.trans hj'
  rcases h with h | h
  · rw [h] at hret; cases hret
  · exact h

/-- The failure of job 1 is delivered three times, the job is promoted and executed again, and its failure is the
last. -/
theorem letters_match_duplicated :
    let is : List Input := [.submitJob "email" 1, .round (.dispatchLoop 5 fun _ _ => none),
      .round (.resultLoop 9 failure), .round (.resultLoop 9 failure), .round (.resultLoop 9 failure),
      .round (.processDelayedJobs (99 * second)), .round (.dispatchLoop (100 * second) fun _ _ => none),
      .round (.resultLoop (101 * second) failure)]
    (∀ pre, pre <+: is → (standalone.exec threeWorkers pre).LettersMatch) ∧
      (Store.get (standalone.exec threeWorkers is).scheduler.store 1).map Job.status = some .failed := by
  have hsubmit : ∀ e : Engine MemoryStore, e.LastFailureTaken (.submitJob "email" 1) := fun e now r j hi => by cases hi
  have hdispatch : ∀ (e : Engine MemoryStore) now submit, e.LastFailureTaken (.round (.dispatchLoop now submit)) :=
    fun e now submit now' r j hi => by cases hi
  have hpromote : ∀ (e : Engine MemoryStore) now, e.LastFailureTaken (.round (.processDelayedJobs now)) :=
    fun e now now' r j hi => by cases hi
  refine ⟨(letters_match_iff threeWorkers (lettered_new _ _).1 (lettered_new _ _).2 _).2 ?_, rfl⟩
  simp only [Machine.everyStep_cons, Machine.everyStep_nil, and_true]
  refine ⟨hsubmit _, hdispatch _ _ _, lastFailureTaken_result rfl (.inl rfl), lastFailureTaken_result rfl (.inl rfl),
    lastFailureTaken_result rfl (.inl rfl), hpromote _ _, hdispatch _ _ _,
      lastFailureTaken_result rfl (.inr (.inl rfl))⟩

/-- Job 1 fails three times and is cancelled while it runs for the fourth time. Its fourth failure cannot make it
failed, and buries it. -/
theorem cancelled_and_buried :
    let again : List Input := [.round (.dispatchLoop 5 fun _ _ => none), .round (.resultLoop 9 failure),
      .round (.processDelayedJobs (99 * second)), .round (.workers ⟨1, [⟨7⟩], by decide⟩ none)]
    let is : List Input := .submitJob "email" 1 :: again ++ again ++ again ++
      [.round (.dispatchLoop 5 fun _ _ => none), .cancelJob 1, .round (.resultLoop 9 failure)]
    let e := standalone.exec threeWorkers is
    (Store.get e.scheduler.store 1).map Job.status = some .cancelled ∧
      (Store.listDLQ .stored e.scheduler.store).map Job.id = [1] ∧ ¬ e.LettersMatch := by
  refine ⟨rfl, rfl, fun h => ?_⟩
  have hlisted := (h .stored 1 _ rfl).1.1 ⟨_, List.mem_singleton_self _, rfl⟩
  cases hlisted

end Engine

end Quorum
