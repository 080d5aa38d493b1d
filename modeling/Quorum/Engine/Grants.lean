/-
Grants and leases along a run: what a grant says about the board it was made on, what a step does to the
lease table, and when a round of `dispatchLoop` makes a grant at all.
-/
import Quorum.Engine.Moves

namespace Quorum

open Engine (Input)

namespace Board

/-- What a grant made on `b` is: the job was ready and not terminal, and the lease counts on from the one
that is there. -/
structure Granted (b : Board) (g : Grant) : Prop where
  ready : g.lease.jobID ∈ b.ready
  stored : b.Stored g.lease.jobID g.job
  active : g.job.status.isTerminal = false
  attempt : g.lease.attempt = b.nextAttempt g.lease.jobID

/-- What a step with the grants `gs` does to the lease of `id`: a grant of `id` sets it if the worker
accepted and removes it if not, and else it is kept or removed. -/
inductive LeaseStep (b : Board) (gs : List Grant) (b' : Board) (id : Int) : Prop
  | granted {g : Grant} : gs = [g] → g.lease.jobID = id → b.Granted g →
      b'.lease id = (if g.accepted = true then some g.lease else none) → LeaseStep b gs b' id
  | kept : (∀ g ∈ gs, g.lease.jobID ≠ id) → b'.lease id = b.lease id → LeaseStep b gs b' id
  | removed : (∀ g ∈ gs, g.lease.jobID ≠ id) → b'.lease id = none → LeaseStep b gs b' id

theorem LeaseStep.keep {b b' : Board} {id : Int} (h : b'.lease id = b.lease id) : b.LeaseStep [] b' id :=
  .kept (fun _ hg => absurd hg List.not_mem_nil) h

theorem LeaseStep.remove {b b' : Board} {id : Int} (h : b'.lease id = none) : b.LeaseStep [] b' id :=
  .removed (fun _ hg => absurd hg List.not_mem_nil) h

theorem Dispatches.granted {now : Time} {b b' : Board} {gs : List Grant} (hd : b.Dispatches now gs b') {g : Grant}
    (hg : g ∈ gs) : b.Granted g ∧ g.time = now := by
  cases hd with
  | idle _ | skip _ _ | requeue _ => cases hg
  | refuse hids hst ht =>
    cases List.mem_singleton.1 hg
    exact ⟨⟨hids ▸ Multiset.mem_cons_self _ _, hst, ht, rfl⟩, rfl⟩
  | grant hids hst ht =>
    cases List.mem_singleton.1 hg
    exact ⟨⟨hids ▸ Multiset.mem_cons_self _ _, hst, ht, rfl⟩, rfl⟩

theorem Dispatches.leaseStep {now : Time} {b b' : Board} {gs : List Grant} (hd : b.Dispatches now gs b') (id : Int) :
    b.LeaseStep gs b' id := by
  have hgranted := fun g hg => (hd.granted (g := g) hg).1
  cases hd with
  | idle _ => exact .keep rfl
  | skip _ _ => exact .keep rfl
  | requeue _ => exact .keep rfl
  | @refuse k rest j w hids hst ht =>
    by_cases hk : k = id
    · exact .granted rfl hk (hgranted _ (List.mem_singleton_self _)) (by simp [hk])
    · refine .kept (fun g hg => ?_) (by simp [Ne.symm hk])
      cases List.mem_singleton.1 hg
      exact hk
  | @grant k rest j w hids hst ht =>
    by_cases hk : k = id
    · exact .granted rfl hk (hgranted _ (List.mem_singleton_self _)) (by simp [hk])
    · refine .kept (fun g hg => ?_) (by simp [Ne.symm hk])
      cases List.mem_singleton.1 hg
      exact hk

theorem Reports.leaseStep {now : Time} {r : Result} {b b' : Board} (hr : b.Reports now r b') (id : Int) :
    b.LeaseStep [] b' id := by
  have hdrop : b'.lease = b.lease ∨ b'.lease = (b.dropLease r.jobID).lease := by
    cases hr with
    | missing _ | stale _ _ _ => exact .inl rfl
    | completed _ _ _ | retried _ _ _ _ | buried _ _ _ _ => exact .inr (by simp)
  rcases hdrop with h | h
  · exact .keep (by rw [h])
  · by_cases hid : id = r.jobID
    · exact .remove (by rw [h]; simp [hid])
    · exact .keep (by rw [h]; simp [hid])

theorem Promotes.lease {now : Time} {b b' : Board} (hp : b.Promotes now b') : b'.lease = b.lease := by
  cases hp <;> rfl

theorem Rounds.leaseStep {r : Scheduler.Round} {b b' : Board} {gs : List Grant} (hr : b.Rounds r gs b') (id : Int) :
    b.LeaseStep gs b' id := by
  cases hr with
  | workers => exact .keep rfl
  | dispatches hd => exact hd.leaseStep id
  | reports hr => exact hr.leaseStep id
  | promotes hp => exact .keep (by rw [hp.lease])
  | @recovers w ord _ hr =>
    by_cases hl : b.LeasedTo w id
    · exact .remove (hr.released id hl)
    · exact .keep (hr.kept id hl).1

theorem push_lease (b : Board) (id : Int) (q : QueueRef) : (b.push id q).lease = b.lease := by
  cases q <;> rfl

theorem Step.leaseStep {raft : Option RaftReply} {n n' : Int} {b b' : Board} {i : Input} {gs : List Grant}
    (hs : b.Step raft n i gs n' b') (id : Int) : b.LeaseStep gs b' id := by
  cases hs with
  | submitted _ _ => exact .keep (by rw [push_lease, setJob_lease])
  | rounds hr => exact hr.leaseStep id
  | committed _ _ | cancelled _ _ | deleted => exact .keep rfl
  | rejected _ | deduplicated _ | notCancelled | notDeleted => exact .keep rfl

theorem Step.granted {raft : Option RaftReply} {n n' : Int} {b b' : Board} {i : Input} {gs : List Grant}
    (hs : b.Step raft n i gs n' b') {g : Grant} (hg : g ∈ gs) :
    b.Granted g ∧ ∃ now submit, i = .round (.dispatchLoop now submit) ∧ g.time = now := by
  cases hs with
  | rounds hr =>
    cases hr with
    | @dispatches now submit _ _ hd =>
      obtain ⟨hgr, ht⟩ := hd.granted hg
      exact ⟨hgr, now, submit, rfl, ht⟩
    | workers | reports _ | promotes _ | recovers _ => cases hg
  | submitted _ _ | committed _ _ | cancelled _ _ | deleted => cases hg
  | rejected _ | deduplicated _ | notCancelled | notDeleted => cases hg

/-- Every lease has a positive attempt number. -/
def Counted (b : Board) : Prop := ∀ id l, b.lease id = some l → 1 ≤ l.attempt

theorem Counted.nextAttempt {b : Board} (h : b.Counted) (id : Int) : 1 ≤ b.nextAttempt id := by
  unfold Board.nextAttempt
  cases hl : b.lease id with
  | none => exact Int.le_refl 1
  | some l =>
    have hpos := h id l hl
    show 1 ≤ l.attempt + 1
    omega

theorem Counted.step {b b' : Board} {gs : List Grant} (h : b.Counted) (hs : ∀ id, b.LeaseStep gs b' id) :
    b'.Counted := by
  intro id l hl
  cases hs id with
  | granted hgs hid hg hlease =>
    rw [hlease] at hl
    split at hl
    · cases hl
      rw [hg.attempt]; exact h.nextAttempt _
    · cases hl
  | kept _ hlease => rw [hlease] at hl; exact h id l hl
  | removed _ hlease => rw [hlease] at hl; cases hl

end Board

namespace Scheduler

variable {σ : Type}

/-- The job the next round of `dispatchLoop` passes to `Dispatch`: the head of the priority queue, if it is
stored and not terminal. -/
def upNext [Store σ] (s : Scheduler σ) : Option Job :=
  (s.priorityQueue.peek.bind (Store.get s.store)).filter fun j => !j.status.isTerminal

/-- A round of `dispatchLoop` makes a grant exactly if a job is up and a worker takes part. -/
theorem mem_dispatchLoop [LawfulStore σ] {s : Scheduler σ} {now : Time}
    {submit : WorkerClient → Job → Option String} {g : Grant} :
    g ∈ (s.dispatchLoop false now submit).2 ↔ ∃ j w, s.upNext = some j ∧ (s.selectWorker j.type).1 = some w ∧
      g = ⟨⟨j.id, w.id, 1, s.nextAttempt j.id⟩, j, now, (submit w j).isNone⟩ := by
  unfold dispatchLoop upNext
  cases hd : s.priorityQueue.dequeue priorityComparator s.store with
  | none => simp [JobQueue.peek_of_dequeue_none priorityComparator s.store hd]
  | some p =>
    obtain ⟨id, q⟩ := p
    rw [(JobQueue.dequeue_some _ _ hd).1, Option.bind_some]
    dsimp only
    cases hj : Store.get s.store id with
    | none => simp
    | some j =>
      cases ht : j.status.isTerminal with
      | true => simp [ht]
      | false =>
        have hsel : selectWorker { s with priorityQueue := q } j.type = s.selectWorker j.type := rfl
        simp only [Bool.false_eq_true, if_false, dispatch, hsel, Option.filter_some, ht, Bool.not_false, if_true,
          Option.some.injEq]
        cases hw : s.selectWorker j.type with
        | mk w ch =>
          cases w with
          | none => simp [hw]
          | some w =>
            cases hs : submit w j with
            | none => simp [hw, hs, nextAttempt]
            | some err => simp [hw, hs, nextAttempt]

end Scheduler

namespace Engine

variable {σ : Type} [LawfulStore σ]

theorem event_leaseStep {e : Engine σ} (h : e.scheduler.WF) (ev : Event) (id : Int) :
    e.board.LeaseStep (e.event ev).2 (e.event ev).1.board id := by
  cases ev with
  | input raft i => exact (step_board raft h i).leaseStep id
  | claim ord₁ ord₂ =>
    refine .keep ?_
    show (e.rebuild ord₁ ord₂).board.lease id = e.board.lease id
    rw [rebuild_lease h]
  | stepDown => exact .remove (LeaseManager.get_clear e.scheduler.leases id)

theorem event_granted {e : Engine σ} (h : e.scheduler.WF) {ev : Event} {g : Grant} (hg : g ∈ (e.event ev).2) :
    e.board.Granted g := by
  cases ev with
  | input raft i => exact ((step_board raft h i).granted hg).1
  | claim ord₁ ord₂ => cases hg
  | stepDown => cases hg

theorem event_counted {e : Engine σ} (h : e.scheduler.WF) (hc : e.board.Counted) (ev : Event) :
    (e.event ev).1.board.Counted ∧ ∀ g ∈ (e.event ev).2, 1 ≤ g.lease.attempt := by
  refine ⟨hc.step (event_leaseStep h ev), fun g hg => ?_⟩
  rw [(event_granted h hg).attempt]
  exact hc.nextAttempt _

/-- The start of a node: nothing is leased. -/
structure Starts (e : Engine σ) : Prop where
  sound : e.Sound
  leases : ∀ id, e.scheduler.leases.get id = none

theorem Starts.counted {e : Engine σ} (h : e.Starts) : e.board.Counted := by
  intro id l hl
  rw [show e.board.lease id = none from h.leases id] at hl; cases hl

theorem starts_new (available : Chan WorkerClient) (broker : Option Broker) :
    (new (Store.empty : σ) available broker).Starts := ⟨sound_new available broker, fun _ => rfl⟩

/-- Along every run of a node, the attempt numbers of leases and grants are positive. -/
theorem node_counted {e : Engine σ} (h : e.Starts) (evs : List Event) :
    (node.exec e evs).Sound ∧ (node.exec e evs).board.Counted ∧ ∀ g ∈ node.trace e evs, 1 ≤ g.lease.attempt := by
  refine Machine.EveryStep.inv (M := node) (C := fun _ _ _ => True)
    (P := fun tr e => e.Sound ∧ e.board.Counted ∧ ∀ g ∈ tr, 1 ≤ g.lease.attempt)
    ⟨h.sound, h.counted, fun g hg => by cases hg⟩ ?_ (fun _ _ _ _ => trivial)
  rintro tr e ev ⟨hs, hc, htr⟩ -
  obtain ⟨hc', hpos⟩ := event_counted hs.wf hc ev
  refine ⟨event_sound hs ev, hc', fun g hg => ?_⟩
  rcases List.mem_append.1 hg with hg | hg
  · exact htr g hg
  · exact hpos g hg

end Engine

end Quorum
