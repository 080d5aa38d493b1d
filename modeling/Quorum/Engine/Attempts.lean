/-
Attempt numbers along a run. `Dispatch` numbers a lease one past the lease that is in the table, and starts
again at one if there is none. So the attempt numbers of a job increase exactly as long as its previous
lease is still in the table at each further dispatch; every release in between makes a number come back.
-/
import Quorum.Engine.Grants
import Quorum.Store.Memory
import Mathlib.Data.List.Chain
import Mathlib.Tactic.TFAE

namespace Quorum

/-- The attempt numbers of the leases acquired for `id`, oldest first. -/
def attempts (id : Int) (tr : List Grant) : List Int :=
  (tr.filter fun g => g.lease.jobID = id).map fun g => g.lease.attempt

theorem attempts_append (id : Int) (tr tr' : List Grant) :
    attempts id (tr ++ tr') = attempts id tr ++ attempts id tr' := by
  simp [attempts]

theorem attempts_granted {id : Int} {g : Grant} (h : g.lease.jobID = id) : attempts id [g] = [g.lease.attempt] := by
  simp [attempts, h]

theorem attempts_other {id : Int} {gs : List Grant} (h : ∀ g ∈ gs, g.lease.jobID ≠ id) : attempts id gs = [] := by
  simpa [attempts, List.filter_eq_nil_iff] using h

theorem attempts_ne_nil {id : Int} {tr : List Grant} : attempts id tr ≠ [] ↔ ∃ g ∈ tr, g.lease.jobID = id := by
  simp [attempts]

namespace Engine

variable {σ : Type} [LawfulStore σ]

/-- The event, if it dispatches a job that was leased before, finds its lease in the table. -/
def KeepsLease (tr : List Grant) (e : Engine σ) (ev : Event) : Prop :=
  ∀ raft now submit j, ev = .input raft (.round (.dispatchLoop now submit)) → e.scheduler.upNext = some j →
    (e.scheduler.selectWorker j.type).1.isSome = true → (∃ g ∈ tr, g.lease.jobID = j.id) →
    (e.scheduler.leases.get j.id).isSome = true

/-- In every run: a job that was never dispatched has no lease, and one that was has been dispatched under
attempt one. -/
structure StartsAtOne (tr : List Grant) (e : Engine σ) : Prop where
  sound : e.Sound
  unleased : ∀ id, attempts id tr = [] → e.board.lease id = none
  one : ∀ id, attempts id tr ≠ [] → 1 ∈ attempts id tr

theorem event_startsAtOne {tr : List Grant} {e : Engine σ} (h : StartsAtOne tr e) (ev : Event) :
    StartsAtOne (tr ++ (e.event ev).2) (e.event ev).1 := by
  have hstep := event_leaseStep h.sound.wf ev
  refine ⟨event_sound h.sound ev, fun id hnil => ?_, fun id hne => ?_⟩
  · rw [attempts_append, List.append_eq_nil_iff] at hnil
    cases hstep id with
    | granted hgs hid _ _ => rw [hgs, attempts_granted hid] at hnil; cases hnil.2
    | kept _ hl => rw [hl]; exact h.unleased id hnil.1
    | removed _ hl => exact hl
  · rw [attempts_append] at hne ⊢
    -- the first grant of a job finds no lease
    by_cases hnil : attempts id tr = []
    · cases hstep id with
      | granted hgs hid hg _ =>
        rw [hgs, attempts_granted hid, hg.attempt, Board.nextAttempt, hid, h.unleased id hnil]
        simp
      | kept hgs _ | removed hgs _ => rw [hnil, attempts_other hgs] at hne; exact absurd rfl hne
    · exact List.mem_append_left _ (h.one id hnil)

/-- In runs that keep leases: the numbers of a job count up by one, and its lease carries the last one. -/
structure CountsUp (tr : List Grant) (e : Engine σ) : Prop extends StartsAtOne tr e where
  chain : ∀ id, (attempts id tr).IsChain fun a b => b = a + 1
  last : ∀ id l, e.board.lease id = some l → (attempts id tr).getLast? = some l.attempt

/-- A grant comes from a dispatch of the job that is up. -/
theorem mem_event {e : Engine σ} {ev : Event} {g : Grant} (hg : g ∈ (e.event ev).2) :
    ∃ raft now submit, ev = .input raft (.round (.dispatchLoop now submit)) ∧ e.scheduler.upNext = some g.job ∧
      (e.scheduler.selectWorker g.job.type).1.isSome = true ∧ g.job.id = g.lease.jobID := by
  cases ev with
  | claim ord₁ ord₂ => cases hg
  | stepDown => cases hg
  | input raft i =>
    cases i with
    | round r =>
      cases r with
      | dispatchLoop now submit =>
        obtain ⟨j, w, hup, hw, rfl⟩ := Scheduler.mem_dispatchLoop.1 hg
        exact ⟨raft, now, submit, rfl, hup, by rw [hw]; rfl, rfl⟩
      | _ => cases hg
    | _ => cases hg

theorem event_countsUp {tr : List Grant} {e : Engine σ} (h : CountsUp tr e) {ev : Event} (hk : e.KeepsLease tr ev) :
    CountsUp (tr ++ (e.event ev).2) (e.event ev).1 := by
  have hstep := event_leaseStep h.sound.wf ev
  refine ⟨event_startsAtOne h.toStartsAtOne ev, fun id => ?_, fun id l hl => ?_⟩
  · rw [attempts_append]
    cases hstep id with
    | kept hgs _ | removed hgs _ => rw [attempts_other hgs, List.append_nil]; exact h.chain id
    | @granted g hgs hid hg _ =>
      rw [hgs, attempts_granted hid, List.isChain_append]
      refine ⟨h.chain id, List.isChain_singleton _, fun a ha b hb => ?_⟩
      cases hb
      -- the job was dispatched before, so its lease is there and carries the last number
      have hmem : ∃ g' ∈ tr, g'.lease.jobID = id := by
        rw [← attempts_ne_nil]
        rintro hnil; rw [hnil] at ha; cases ha
      obtain ⟨raft, now, submit, hev, hup, hw, hjob⟩ :=
        mem_event (g := g) (by rw [hgs]; exact List.mem_singleton_self g)
      have hsome := hk raft now submit g.job hev hup hw (by rw [hjob, hid]; exact hmem)
      rw [hjob, hid, Option.isSome_iff_exists] at hsome
      obtain ⟨l, hl⟩ := hsome
      have hlast := h.last id l hl
      rw [Option.mem_def, hlast] at ha
      cases ha
      rw [hg.attempt, hid, Board.nextAttempt, show e.board.lease id = some l from hl]
      rfl
  · rw [attempts_append]
    cases hstep id with
    | kept hgs hl' => rw [attempts_other hgs, List.append_nil]; exact h.last id l (hl' ▸ hl)
    | removed _ hl' => rw [hl'] at hl; cases hl
    | granted hgs hid _ hl' =>
      rw [hl'] at hl
      split at hl
      · cases hl
        rw [hgs, attempts_granted hid]; simp
      · cases hl

/-- A dispatch that does not find the lease of a job it dispatched before repeats attempt one. -/
theorem repeats_one {tr : List Grant} {e : Engine σ} {ev : Event} (hk : ¬ e.KeepsLease tr ev) :
    ∃ id, attempts id tr ≠ [] ∧ 1 ∈ attempts id (e.event ev).2 := by
  unfold KeepsLease at hk
  push Not at hk
  obtain ⟨raft, now, submit, j, rfl, hup, hw, hbefore, hnone⟩ := hk
  obtain ⟨w, hw⟩ := Option.isSome_iff_exists.1 hw
  refine ⟨j.id, attempts_ne_nil.2 hbefore, ?_⟩
  have hg : ⟨⟨j.id, w.id, 1, e.scheduler.nextAttempt j.id⟩, j, now, (submit w j).isNone⟩ ∈
      (e.scheduler.dispatchLoop false now submit).2 := Scheduler.mem_dispatchLoop.2 ⟨j, w, hup, hw, rfl⟩
  have hone : e.scheduler.nextAttempt j.id = 1 := by
    cases hl : e.scheduler.leases.get j.id with
    | none => rw [Scheduler.nextAttempt, hl]
    | some l => rw [hl] at hnone; exact absurd rfl hnone
  rw [hone] at hg
  exact List.mem_map.2 ⟨_, List.mem_filter.2 ⟨hg, by simp⟩, rfl⟩

/-- An engine with an empty store and workers 7 and 8 waiting. -/
def twoWorkers : Engine MemoryStore := new Store.empty ⟨2, [⟨7⟩, ⟨8⟩], by decide⟩ none

/-- A round of `dispatchLoop` in which the worker accepts. -/
def dispatchAccepted (now : Time) : Event := .input none (.round (.dispatchLoop now fun _ _ => none))

end Engine

end Quorum
