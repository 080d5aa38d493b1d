/-
Who can still give a lease back. A lease goes with a result or with the death of its worker, and only the worker that
times out is reported dead: an eviction, a second registration and a timeout that finds `DeadWorkers` full report
nothing. Every lease has an owner that is alive under the registration it was acquired with, or whose death waits to
be processed, in exactly the runs in which none of these steps concerns a worker with a lease and no dispatch picks a
worker that is gone.
-/
import Quorum.Rpc.Fleet
import Quorum.Store.Memory

namespace Quorum.Fleet

variable {σ : Type}

/-- The worker whose registration a step begins. -/
def registers (_ : Fleet σ) : Act → Option Int
  | .registerWorker id _ true _ => some id
  | _ => none

/-- The control node, with the number of each worker's registrations and for each lease the one it was acquired
under. -/
def registrations [Store σ] (timeout : Duration) : Machine (Fleet σ × Stamps) Act Grant :=
  (fleet timeout).track (stamp timeout registers)

/-- Each lease is held by a worker that is alive under the registration it had when it was given the job, or whose death
waits to be processed. -/
def Recoverable (s : Fleet σ) (h : Stamps) : Prop :=
  ∀ id l, s.leases.get id = some l → s.Live l.workerID ∧ h.worker l.workerID = h.lease id ∨ l.workerID ∈ s.signals

/-- The worker holds no lease, or its death waits to be processed. -/
def Covered (s : Fleet σ) (workerID : Int) : Prop :=
  ∀ id l, s.leases.get id = some l → l.workerID = workerID → workerID ∈ s.signals

/-- The step leaves no lease without an owner: one that ends a registration or drops a death signal does so to a worker
without a lease, and the first worker in `Available` that can take the next job, if it accepts the job, is alive or its
death waits to be processed. -/
def KeepsOwners [Store σ] (timeout : Duration) (s : Fleet σ) : Act → Prop
  | .registerWorker id _ dialed _ => dialed = true → s.Covered id
  | .remove id => s.Covered id
  | .monitorWorker id now =>
    s.timesOut timeout now id = true → ¬ s.deadWorkers.buf.length < s.deadWorkers.cap → s.Covered id
  | .dispatchLoop _ submit =>
    ∀ j w, s.scheduler.nextJob = some j → s.scheduler.firstWorker j.type = some w → submit w j = none →
      s.Live w.id ∨ w.id ∈ s.signals
  | _ => True

/-! ## One step -/

section
variable [Store σ] {timeout : Duration} {s : Fleet σ} {h : Stamps}

/-- A step after which no worker has less than before keeps every owner. -/
theorem Recoverable.step (hr : Recoverable s h) {a : Act} (hnone : registers s a = none)
    (hgs : (s.step timeout a).2 = []) (hlive : ∀ k, s.Live k → (s.step timeout a).1.Live k)
    (hsig : ∀ k, k ∈ s.signals → k ∈ (s.step timeout a).1.signals ∨ ∃ ord, a = .recover ord ∧ s.recovering = some k) :
    Recoverable (s.step timeout a).1 (stamp timeout registers h s a) := by
  intro id l hl
  have hworker : (stamp timeout registers h s a).worker = h.worker := by
    show ((h.advance (registers s a)).grant _).worker = _
    rw [hnone]
    rfl
  rcases lease_stamp registers h hl with ⟨hold, hrec, hstamp⟩ | ⟨g, hg, -⟩
  · rw [hworker, hstamp]
    rcases hr id l hold with ⟨halive, hreg⟩ | hwait
    · exact .inl ⟨hlive _ halive, hreg⟩
    · rcases hsig _ hwait with hstill | ⟨ord, ha, hk⟩
      · exact .inr hstill
      · exact absurd hk (hrec ord ha)
  · rw [hgs] at hg
    cases hg

omit [Store σ] in
/-- A step that takes the entry or the registration from one worker, and tells nobody, keeps the owners exactly if the
worker holds no lease or its death waits already. -/
theorem Recoverable.lose_iff (hr : Recoverable s h) {t : Fleet σ} {r : Stamps} {k : Int} (hleases : t.leases = s.leases)
    (hsig : t.signals = s.signals) (hlease : r.lease = h.lease)
    (hother : ∀ j, j ≠ k → s.Live j → t.Live j ∧ r.worker j = h.worker j) (hself : t.Live k → r.worker k ≠ h.worker k) :
    Recoverable t r ↔ s.Covered k := by
  constructor
  · intro hafter id l hl hk
    subst hk
    rcases hr id l hl with ⟨-, hreg⟩ | hwait
    · rcases hafter id l (by rw [hleases]; exact hl) with ⟨halive, hreg'⟩ | hwait'
      · rw [hlease, ← hreg] at hreg'
        exact absurd hreg' (hself halive)
      · rw [hsig] at hwait'
        exact hwait'
    · exact hwait
  · intro hcov id l hl
    rw [hleases] at hl
    rw [hsig, hlease]
    by_cases hk : l.workerID = k
    · exact .inr (hk ▸ hcov id l hl hk)
    · rcases hr id l hl with ⟨halive, hreg⟩ | hwait
      · obtain ⟨halive', hreg'⟩ := hother _ hk halive
        exact .inl ⟨halive', hreg'.trans hreg⟩
      · exact .inr hwait

theorem monitorWorker_recoverable_iff (hr : Recoverable s h) (id : Int) (now : Time) :
    Recoverable (s.step timeout (.monitorWorker id now)).1 (stamp timeout registers h s (.monitorWorker id now)) ↔
      KeepsOwners timeout s (.monitorWorker id now) := by
  have hlive := live_monitorWorker timeout s now id
  have hsig := signals_monitorWorker timeout s now id
  have hleases : (s.monitorWorker timeout now id).leases = s.leases :=
    congrArg (fun e => e.scheduler.leases) (s.monitorWorker_frame timeout now id).1
  by_cases htime : s.timesOut timeout now id = true
  · by_cases hroom : s.deadWorkers.buf.length < s.deadWorkers.cap
    · refine iff_of_true ?_ fun _ hfull => absurd hroom hfull
      rw [if_pos ⟨htime, hroom⟩] at hsig
      intro k l hl
      have hl' : (s.monitorWorker timeout now id).leases.get k = some l := hl
      rw [hleases] at hl'
      show (s.monitorWorker timeout now id).Live _ ∧ h.worker _ = h.lease k ∨
        _ ∈ (s.monitorWorker timeout now id).signals
      rw [hsig, hlive]
      by_cases hk : l.workerID = id
      · exact .inr (List.mem_append_right _ (List.mem_singleton.2 hk))
      · rcases hr k l hl' with ⟨halive, hreg⟩ | hwait
        · exact .inl ⟨⟨fun hid => hk hid.1, halive⟩, hreg⟩
        · exact .inr (List.mem_append_left _ hwait)
    · rw [if_neg fun hid => hroom hid.2] at hsig
      have hlose := hr.lose_iff (t := s.monitorWorker timeout now id) (r := h) (k := id) hleases hsig rfl
        (fun j hj halive => ⟨(hlive j).2 ⟨fun hid => hj hid.1, halive⟩, rfl⟩)
        (fun halive => absurd ⟨rfl, htime⟩ ((hlive id).1 halive).1)
      exact hlose.trans ⟨fun hcov _ _ => hcov, fun hcov => hcov htime hroom⟩
  · refine iff_of_true (hr.step rfl rfl ?_ ?_) fun hid => absurd hid htime
    · exact fun k halive => (hlive k).2 ⟨fun hid => htime hid.2, halive⟩
    · rw [if_neg fun hid => htime hid.1] at hsig
      intro k hk
      left
      show k ∈ (s.monitorWorker timeout now id).signals
      rw [hsig]
      exact hk

theorem dispatchLoop_recoverable_iff (hr : Recoverable s h) (now : Time) (submit : WorkerClient → Job → Option String) :
    Recoverable (s.step timeout (.dispatchLoop now submit)).1 (stamp timeout registers h s (.dispatchLoop now submit)) ↔
      KeepsOwners timeout s (.dispatchLoop now submit) := by
  constructor
  · intro hafter j w hj hw hsubmit
    have hg : _ ∈ (s.step timeout (.dispatchLoop now submit)).2 := mem_dispatchLoop.2 ⟨j, w, hj, hw, rfl⟩
    rcases hafter _ _ (lease_granted hg (Option.isNone_iff_eq_none.2 hsubmit)) with ⟨halive, -⟩ | hwait
    · exact .inl halive
    · exact .inr hwait
  · intro hkeep id l hl
    rcases lease_stamp registers h hl with ⟨hold, -, hstamp⟩ | ⟨g, hg, hacc, rfl, hstamp⟩
    · rw [hstamp]
      exact hr id l hold
    · rw [hstamp]
      obtain ⟨j, w, hj, hw, rfl⟩ := mem_dispatchLoop.1 hg
      rcases hkeep j w hj hw (Option.isNone_iff_eq_none.1 hacc) with halive | hwait
      · exact .inl ⟨halive, rfl⟩
      · exact .inr hwait

/-- If every lease has an owner before a step, it has one after it exactly if the step takes none away. -/
theorem step_recoverable_iff (hr : Recoverable s h) (a : Act) :
    Recoverable (s.step timeout a).1 (stamp timeout registers h s a) ↔ KeepsOwners timeout s a := by
  -- a step that changes nothing but the leases
  have hquiet : a.keepsMembers = true → (s.step timeout a).2 = [] → registers s a = none →
      Recoverable (s.step timeout a).1 (stamp timeout registers h s a) := by
    intro ha hgs hnone
    obtain ⟨hworkers, hsig⟩ := step_members timeout s ha
    refine hr.step hnone hgs (fun k halive => ?_) fun k hk => .inl (by rw [hsig]; exact hk)
    unfold Live
    rw [hworkers]
    exact halive
  cases a with
  | registerWorker id topics dialed now =>
    cases dialed with
    | false => exact iff_of_true hr nofun
    | true =>
      have hlive := live_registerWorker s id topics now
      have hlose := hr.lose_iff (t := s.registerWorker id topics true now) (r := h.advance (some id)) (k := id)
        rfl rfl rfl (fun j hj halive => ⟨(hlive j).2 (.inr halive), Function.update_of_ne hj _ _⟩)
        (fun _ heq => absurd ((Function.update_self id _ h.worker).symm.trans heq) (Nat.succ_ne_self _))
      exact hlose.trans ⟨fun hcov _ => hcov, fun hcov => hcov rfl⟩
  | remove id =>
    have hlive := live_remove s id
    exact hr.lose_iff (t := s.remove id) (r := h) (k := id) rfl rfl rfl
      (fun j hj halive => ⟨(hlive j).2 ⟨hj, halive⟩, rfl⟩) (fun halive => absurd rfl ((hlive id).1 halive).1)
  | heartbeat id now =>
    refine iff_of_true (hr.step rfl rfl (fun k halive => (live_heartbeat s id now k).2 (.inr halive)) fun k hk =>
      .inl ?_) trivial
    show k ∈ (s.heartbeat id now).signals
    rw [(s.heartbeat_frame id now).2.2]
    exact hk
  | monitorWorker id now => exact monitorWorker_recoverable_iff hr id now
  | dispatchLoop now submit => exact dispatchLoop_recoverable_iff hr now submit
  | recover ord =>
    refine iff_of_true (hr.step rfl (step_grants_nil nofun) (fun k halive => ?_) fun k hk => ?_) trivial
    · unfold Live
      rw [workers_recover]
      exact halive
    · rw [signals_recover]
      unfold signals at hk
      rcases List.mem_append.1 hk with hhand | hbuf
      · exact .inr ⟨ord, rfl, Option.mem_toList.1 hhand⟩
      · exact .inl hbuf
  | reportResult | executionLost | resultLoop | receiveDead | jobCall =>
    exact iff_of_true (hquiet rfl (step_grants_nil nofun) rfl) trivial

end

/-! ## Runs -/

end Quorum.Fleet
