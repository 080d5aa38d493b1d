/-
Terminal jobs stay as they are. Cancelling a job, or finishing it, touches neither the queues nor the leases nor the
worker that runs it, so that leftovers of every kind may come later: entries of both queues, results, updates
of runners, promotions, recoveries, a rebuild at the next boot. None of them changes a terminal status, and no
iteration of `dispatchLoop` that starts afterwards submits the job.
-/
import Quorum.Engine.Server
import Quorum.Store.Bolt

namespace Quorum

namespace Server

variable {σ : Type} [LawfulStore σ]

/-- A stored terminal status only changes by a deletion. -/
theorem Changes.terminal {s : Server σ} (h : s.Sound) {a : Act} {id : Int} {x : Option Job} (hc : s.Changes a id x)
    {j : Job} (hj : Store.get s.store id = some j) (ht : j.status.isTerminal = true) (hdel : a ≠ .deleteJob id) :
    ∃ j', x = some j' ∧ j'.status = j.status := by
  cases hc with
  | same => exact ⟨j, hj, rfl⟩
  | added hadd hid =>
    rw [← hid, h.fresh hadd] at hj
    cases hj
  | @written c j' old _ _ hold hv =>
    cases hj.symm.trans hold
    exact ⟨j', rfl, (isValidTransition_terminal ht).1 hv⟩
  | cancelled _ hold hact =>
    cases hj.symm.trans hold
    rw [ht] at hact; cases hact
  | deleted hd => exact absurd hd hdel

/-- What an act shows of `dispatchLoop`, and the job `dispatchLoop` is in the middle of afterwards. -/
inductive Dispatching (s : Server σ) : List Shown → Option Job → Prop
  | other {out : List Shown} {d : Option Job} : (∀ k, .started k ∉ out) → (∀ g, .granted g ∉ out) →
      (∀ c, d = some c → s.dispatching = some c) → Dispatching s out d
  | took {out : List Shown} {d : Option Job} : (∀ g, .granted g ∉ out) →
      (∀ c, d = some c → c.status.isTerminal = false ∧ ∃ id, Store.get s.store id = some c) → Dispatching s out d
  | submitted {out : List Shown} {j : Job} : s.dispatching = some j → (∀ k, .started k ∉ out) →
      (∀ g, .granted g ∈ out → g.lease.jobID = j.id) → Dispatching s out none

/-- An act that neither starts an iteration nor submits a job. -/
theorem Dispatching.silent {s : Server σ} {d : Option Job} (h : ∀ c, d = some c → s.dispatching = some c) :
    s.Dispatching [] d := .other (fun _ hk => by cases hk) (fun _ hg => by cases hg) h

theorem Dispatching.returned {s : Server σ} (key : String) (j : Job) (duplicate : Bool) :
    s.Dispatching [.returned key j duplicate] s.dispatching :=
  .other (fun k => by simp) (fun g => by simp) fun _ h => h

theorem Dispatching.answered {s : Server σ} (key : String) (p : Except String Job) :
    s.Dispatching (answer key p) s.dispatching := by
  cases p with
  | ok j => exact .returned key j false
  | error err => exact .silent fun _ h => h

theorem dispatch_grants {s : Scheduler σ} {now : Time} {submit : WorkerClient → Job → Option String} {j : Job} :
    ∀ g ∈ (s.dispatch false now submit j).grants, g.lease.jobID = j.id := by
  unfold Scheduler.dispatch
  simp only [Bool.false_eq_true, if_false]
  split
  · intro g hg; cases hg
  · split
    · intro g hg; cases List.mem_singleton.1 hg; rfl
    · intro g hg; cases List.mem_singleton.1 hg; rfl

theorem step_dispatching (s : Server σ) (a : Act) : s.Dispatching (s.step a).2 (s.step a).1.dispatching := by
  have hstep := s.step_outcome a
  generalize s.step a = p at hstep
  cases hstep with
  | submitJob | submitJobAt | addKeyed => exact .answered _ _
  | found => exact .returned _ _ _
  | takeReady =>
    refine .took (fun g hg => ?_) fun c hc => takeReady_job hc
    obtain ⟨k, -, hk⟩ := List.mem_map.1 hg
    cases hk
  | dispatch hj =>
    refine .submitted hj (fun k hk => ?_) fun g hg => ?_
    · obtain ⟨g, -, hg⟩ := List.mem_map.1 hk
      cases hg
    · obtain ⟨g', hg', hgg⟩ := List.mem_map.1 hg
      cases hgg
      exact dispatch_grants g hg'
  | restart => exact .silent fun _ h => by cases h
  | idle | notFound | cancelJob | deleteJob | workers | readResult | writeResult | readDelayed
  | writeDelayed | releaseWorker | requeueReleased | finish => exact .silent fun _ h => h

/-- Nothing granted for `id` after the start of an iteration. -/
def NotSubmitted (id : Int) (tr : List Shown) : Prop :=
  tr.Pairwise fun x y => ∀ k g, x = .started k → y = .granted g → g.lease.jobID ≠ id

/-- The job `id` is terminal with the status `st`; the iteration under way, if it has read the job, was there
from the beginning, and no other submits it. -/
structure Dead (id : Int) (st : Status) (tr : List Shown) (s : Server σ) : Prop where
  sound : s.Sound
  job : ∃ j, Store.get s.store id = some j ∧ j.status = st
  under : ∀ c, s.dispatching = some c → c.id = id → ∀ k, .started k ∉ tr
  shown : NotSubmitted id tr

theorem Dead.step {id : Int} {st : Status} (ht : st.isTerminal = true) {tr : List Shown} {s : Server σ}
    (h : Dead id st tr s) {a : Act} (ha : a ≠ .deleteJob id) :
    Dead id st (tr ++ (s.step a).2) (s.step a).1 := by
  obtain ⟨j, hj, rfl⟩ := h.job
  have hjob := (step_job h.sound.wf a id).terminal h.sound hj ht ha
  have hdisp := step_dispatching s a
  generalize (s.step a).2 = out at hdisp
  generalize hd : (s.step a).1.dispatching = d at hdisp
  -- two lists of what was shown, the second of which submits nothing or starts nothing
  have happend : (∀ x ∈ tr, ∀ y ∈ out, ∀ k g, x = .started k → y = .granted g → g.lease.jobID ≠ id) →
      (∀ g, .granted g ∉ out) ∨ (∀ k, .started k ∉ out) → NotSubmitted id (tr ++ out) := by
    intro hcross hout
    refine List.pairwise_append.2 ⟨h.shown, List.pairwise_of_forall_mem_list ?_, hcross⟩
    rintro x hx y hy k g rfl rfl
    rcases hout with hg | hk
    · exact absurd hy (hg g)
    · exact absurd hx (hk k)
  refine ⟨step_sound h.sound a, hjob, ?_, ?_⟩
  · rintro c hc hid k hk
    rw [hd] at hc
    cases hdisp with
    | other hstart _ hsame =>
      rcases List.mem_append.1 hk with hk | hk
      · exact h.under c (hsame c hc) hid k hk
      · exact hstart k hk
    | took _ hread =>
      -- an iteration that starts now does not go on with a terminal job
      obtain ⟨hact, id', hget⟩ := hread c hc
      have hid' := LawfulStore.get_id h.sound.wf hget
      rw [← hid', hid] at hget
      cases hj.symm.trans hget
      rw [ht] at hact; cases hact
    | submitted _ _ _ => cases hc
  · cases hdisp with
    | other _ hgrant _ =>
      refine happend ?_ (.inl hgrant)
      rintro x _ y hy k g _ rfl
      exact absurd hy (hgrant g)
    | took hgrant _ =>
      refine happend ?_ (.inl hgrant)
      rintro x _ y hy k g _ rfl
      exact absurd hy (hgrant g)
    | @submitted c hc hstart hgrant =>
      refine happend ?_ (.inr hstart)
      rintro x hx y hy k g rfl rfl hid
      exact h.under c hc ((hgrant g hy).symm.trans hid) k hx

/-- Once a job is terminal, in every continuation of the run that does not delete it, its status stays as it is
and no iteration of `dispatchLoop` that starts afterwards submits it. -/
theorem terminal_stays (st : σ) (hst : LawfulStore.WF st) (available : Chan WorkerClient) (broker : Option Broker)
    (ord ord₁ ord₂ ord₃ ord₄ : RangeOrder Int) (before : List Act) (id : Int) (j : Job)
    (hj : Store.get (server.exec (start st available broker ord ord₁ ord₂ ord₃ ord₄) before).store id = some j)
    (ht : j.status.isTerminal = true) (acts : List Act) (hdel : .deleteJob id ∉ acts) :
    let s := server.exec (start st available broker ord ord₁ ord₂ ord₃ ord₄) before
    (∃ j', Store.get (server.exec s acts).store id = some j' ∧ j'.status = j.status) ∧
      ∀ tr₁ k tr₂ g, server.trace s acts = tr₁ ++ .started k :: tr₂ → .granted g ∈ tr₂ → g.lease.jobID ≠ id := by
  have hs := exec_sound (start_sound hst available broker ord ord₁ ord₂ ord₃ ord₄) before
  generalize server.exec (start st available broker ord ord₁ ord₂ ord₃ ord₄) before = s at hj hs
  have hrun : Dead id j.status (server.trace s acts) (server.exec s acts) := by
    refine Machine.EveryStep.inv (M := server) (C := fun _ _ a => a ≠ .deleteJob id)
      (P := fun tr s => Dead id j.status tr s)
      ⟨hs, ⟨j, hj, rfl⟩, fun _ _ _ _ hk => absurd hk List.not_mem_nil, List.Pairwise.nil⟩
      (fun tr s a h ha => h.step ht ha) ?_
    rintro pre a post rfl rfl
    exact hdel (List.mem_append_right _ (List.mem_cons_self ..))
  refine ⟨hrun.job, fun tr₁ k tr₂ g htr hg => ?_⟩
  have hpair := hrun.shown
  rw [htr] at hpair
  exact (List.pairwise_cons.1 (List.pairwise_append.1 hpair).2.1).1 _ hg k g rfl rfl

/-- Job 1 is dispatched to worker 7 and cancelled while it runs. The worker fails, the job is not retried, and neither
the recovery of the worker nor a restart brings it back. -/
theorem terminal_stays_cancelled_running :
    let s := server.exec
      (start (Store.empty : BoltStore) ⟨1, [⟨7⟩], by decide⟩ none .stored .stored .stored .stored .stored)
      [.submitJob "email" 1, .takeReady, .dispatch 5 fun _ _ => none, .cancelJob 1]
    let acts : List Act := [.readResult failure, .writeResult 9, .releaseWorker 7 .stored, .requeueReleased,
      .restart ⟨1, [⟨8⟩], by decide⟩ none .stored .stored .stored .stored .stored, .takeReady,
        .dispatch 20 fun _ _ => none]
    (∃ j', Store.get (server.exec s acts).store 1 = some j' ∧ j'.status = .cancelled) ∧
      ∀ tr₁ k tr₂ g, server.trace s acts = tr₁ ++ .started k :: tr₂ → .granted g ∈ tr₂ → g.lease.jobID ≠ 1 := by
  intro s acts
  exact terminal_stays Store.empty LawfulStore.wf_empty _ _ _ _ _ _ _ _ 1
    { Job.newJob 1 "email" 1 with status := .cancelled } rfl rfl acts (by simp [acts])

end Server

end Quorum
