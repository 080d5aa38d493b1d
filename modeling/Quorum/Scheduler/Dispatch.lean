/-
One round of `dispatchLoop` by cases, with what it does to the waiting workers and to the leases. Results about
the dispatcher go through these cases and do not unfold `Dispatch` or `SelectWorker`.
-/
import Quorum.Scheduler.Basic

namespace Quorum.Scheduler

variable {σ : Type} [Store σ]

/-- The lease a dispatch of the job to the worker acquires. -/
def leaseFor (s : Scheduler σ) (j : Job) (w : WorkerClient) : Lease :=
  { jobID := j.id, workerID := w.id, term := 1, attempt := s.nextAttempt j.id }

/-- What a round does: nothing is queued; the popped job is not to be dispatched any more; no waiting worker can take
it, and it is pushed back; a worker is taken, and accepts the job or refuses it, and then it is pushed back too. -/
inductive DispatchRound (now : Time) (submit : WorkerClient → Job → Option String) (s : Scheduler σ) :
    Scheduler σ → List Grant → Prop
  | idle (hempty : s.priorityQueue.ids = 0) : DispatchRound now submit s s []
  | drop {id : Int} {q : JobQueue} (hd : s.priorityQueue.dequeue priorityComparator s.store = some (id, q))
    (hended : ∀ j, Store.get s.store id = some j → j.status.isTerminal = true) :
    DispatchRound now submit s { s with priorityQueue := q } []
  | pushBack {id : Int} {q : JobQueue} {j : Job} {ch : Chan WorkerClient}
    (hd : s.priorityQueue.dequeue priorityComparator s.store = some (id, q)) (hj : Store.get s.store id = some j)
    (hact : j.status.isTerminal = false) (hcan : ∀ w ∈ s.available.buf, s.canHandle j.type w = false)
    (hperm : ch.buf.Perm s.available.buf) :
    DispatchRound now submit s { s with priorityQueue := q.enqueue priorityComparator s.store j.id, available := ch } []
  | place {id : Int} {q : JobQueue} {j : Job} {w : WorkerClient} {ch : Chan WorkerClient}
    (hd : s.priorityQueue.dequeue priorityComparator s.store = some (id, q)) (hj : Store.get s.store id = some j)
    (hact : j.status.isTerminal = false) (hcan : s.canHandle j.type w = true)
      (hperm : s.available.buf.Perm (w :: ch.buf))
    (hsubmit : submit w j = none) :
    DispatchRound now submit s
      { s with priorityQueue := q, available := ch, leases := s.leases.acquire j.id w.id 1 (s.nextAttempt j.id) }
      [{ lease := s.leaseFor j w, job := j, time := now, accepted := true }]
  | refuse {id : Int} {q : JobQueue} {j : Job} {w : WorkerClient} {ch : Chan WorkerClient}
    (hd : s.priorityQueue.dequeue priorityComparator s.store = some (id, q)) (hj : Store.get s.store id = some j)
    (hact : j.status.isTerminal = false) (hcan : s.canHandle j.type w = true)
      (hperm : s.available.buf.Perm (w :: ch.buf))
    (hsubmit : (submit w j).isSome = true) :
    DispatchRound now submit s
      { s with
        priorityQueue := q.enqueue priorityComparator s.store j.id, available := ch
        leases := (s.leases.acquire j.id w.id 1 (s.nextAttempt j.id)).release j.id }
      [{ lease := s.leaseFor j w, job := j, time := now, accepted := false }]

theorem dispatchLoop_round (now : Time) (submit : WorkerClient → Job → Option String) (s : Scheduler σ) :
    DispatchRound now submit s (s.dispatchLoop false now submit).1 (s.dispatchLoop false now submit).2 := by
  unfold dispatchLoop
  cases hd : s.priorityQueue.dequeue priorityComparator s.store with
  | none => exact .idle ((JobQueue.dequeue_none _ _).1 hd)
  | some p =>
    obtain ⟨id, q⟩ := p
    dsimp only
    cases hj : Store.get s.store id with
    | none => exact .drop hd fun j hj' => by rw [hj] at hj'; cases hj'
    | some j =>
      dsimp only
      split
      · rename_i hterm
        exact .drop hd fun k hk => by rw [hj] at hk; cases hk; exact hterm
      · rename_i hact
        simp only [Bool.not_eq_true] at hact
        have hsel := selectWorker_selects { s with priorityQueue := q } j.type
        unfold dispatch
        simp only [Bool.false_eq_true, if_false]
        generalize selectWorker { s with priorityQueue := q } j.type = r at hsel
        obtain ⟨_ | w, ch⟩ := r
        · cases hsel with
          | none hcan hperm => exact .pushBack hd hj hact hcan hperm
        · cases hsel with
          | some hcan hperm =>
            dsimp only
            cases hsub : submit w j with
            | none => exact .place hd hj hact hcan hperm hsub
            | some e => exact .refuse hd hj hact hcan hperm (by rw [hsub]; rfl)

/-! ## The next job and its worker -/

/-- The first job in `PriorityQueue`, if it is stored and not terminal: the one that a round has to place. -/
def nextJob (s : Scheduler σ) : Option Job :=
  (s.priorityQueue.peek.bind (Store.get s.store)).filter fun j => !j.status.isTerminal

/-- The first worker in `Available` that can take jobs of the type. -/
def firstWorker (s : Scheduler σ) (jobType : String) : Option WorkerClient :=
  s.available.buf.find? (s.canHandle jobType)

/-- A round submits the next job to the first worker that can take it, and nothing if there is none. -/
theorem dispatchLoop_grants (now : Time) (submit : WorkerClient → Job → Option String) (s : Scheduler σ) :
    (s.dispatchLoop false now submit).2 =
      (s.nextJob.bind fun j => (s.firstWorker j.type).map fun w =>
        { lease := s.leaseFor j w, job := j, time := now, accepted := (submit w j).isNone }).toList := by
  unfold dispatchLoop nextJob
  cases hd : s.priorityQueue.dequeue priorityComparator s.store with
  | none =>
    rw [JobQueue.peek_of_dequeue_none _ _ hd]
    rfl
  | some p =>
    obtain ⟨id, q⟩ := p
    rw [(JobQueue.dequeue_some _ _ hd).1, Option.bind_some]
    dsimp only
    cases hj : Store.get s.store id with
    | none => rfl
    | some j =>
      dsimp only
      cases hterm : j.status.isTerminal with
      | true =>
        rw [if_pos rfl, Option.filter_some, hterm]
        rfl
      | false =>
        rw [if_neg Bool.false_ne_true, Option.filter_some, hterm]
        have hfirst : (selectWorker { s with priorityQueue := q } j.type).1 = s.firstWorker j.type :=
          selectWorker_first { s with priorityQueue := q } j.type
        unfold dispatch
        simp only [Bool.false_eq_true, if_false, Bool.not_false, if_true, Option.bind_some]
        rw [← hfirst]
        generalize selectWorker { s with priorityQueue := q } j.type = r
        obtain ⟨_ | w, ch⟩ := r
        · rfl
        · rw [Option.map_some]
          dsimp only
          cases submit w j with
          | none => rfl
          | some e => rfl

namespace DispatchRound

variable {now : Time} {submit : WorkerClient → Job → Option String} {s s' : Scheduler σ} {gs : List Grant}

/-- A round changes neither the store nor the routing, and no worker is added. -/
theorem frame (h : DispatchRound now submit s s' gs) :
    s'.store = s.store ∧ s'.broker = s.broker ∧ ∀ w ∈ s'.available.buf, w ∈ s.available.buf := by
  cases h with
  | idle => exact ⟨rfl, rfl, fun _ hw => hw⟩
  | drop => exact ⟨rfl, rfl, fun _ hw => hw⟩
  | pushBack _ _ _ _ hperm => exact ⟨rfl, rfl, fun w hw => hperm.mem_iff.1 hw⟩
  | place _ _ _ _ hperm => exact ⟨rfl, rfl, fun w hw => hperm.mem_iff.2 (List.mem_cons_of_mem _ hw)⟩
  | refuse _ _ _ _ hperm => exact ⟨rfl, rfl, fun w hw => hperm.mem_iff.2 (List.mem_cons_of_mem _ hw)⟩

theorem submit_accepted (h : DispatchRound now submit s s' gs) {g : Grant} (hg : g ∈ gs) (hacc : g.accepted = true) :
    submit ⟨g.lease.workerID⟩ g.job = none := by
  cases h with
  | idle => cases hg
  | drop => cases hg
  | pushBack => cases hg
  | place _ _ _ _ _ hsubmit => cases List.mem_singleton.1 hg; exact hsubmit
  | refuse => cases List.mem_singleton.1 hg; cases hacc

/-- The lease of an accepted job is there after the round. -/
theorem lease_granted (h : DispatchRound now submit s s' gs) {g : Grant} (hg : g ∈ gs) (hacc : g.accepted = true) :
    s'.leases.get g.lease.jobID = some g.lease := by
  cases h with
  | idle => cases hg
  | drop => cases hg
  | pushBack => cases hg
  | place =>
    cases List.mem_singleton.1 hg
    exact (LeaseManager.get_acquire ..).trans (if_pos rfl)
  | refuse => cases List.mem_singleton.1 hg; cases hacc

/-- A lease that is there after the round was there before or belongs to a job that was accepted. -/
theorem lease_of (h : DispatchRound now submit s s' gs) {id : Int} {l : Lease} (hl : s'.leases.get id = some l) :
    s.leases.get id = some l ∨ ∃ g ∈ gs, g.accepted = true ∧ g.lease = l ∧ l.jobID = id := by
  cases h with
  | idle => exact .inl hl
  | drop => exact .inl hl
  | pushBack => exact .inl hl
  | place =>
    rw [LeaseManager.get_acquire] at hl
    split at hl
    · rename_i hid
      cases hl
      exact .inr ⟨_, List.mem_singleton_self _, rfl, rfl, hid.symm⟩
    · exact .inl hl
  | refuse =>
    rw [LeaseManager.get_release, LeaseManager.get_acquire] at hl
    split at hl
    · cases hl
    · exact .inl hl

end DispatchRound

end Quorum.Scheduler
