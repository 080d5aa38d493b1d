/-
`ProcessDelayedJobs` run to its end, with nothing else running and one clock reading. It stops at the first job that is
not due; the heap order says that no due job is behind it, although ids that are not stored compare as the zero time.
Each round takes one id out of the delay queue, whichever of its exits it leaves by.
-/
import Quorum.Queue.Deletions
import Quorum.Scheduler.Basic
import Quorum.Store.Tables

namespace Quorum

/-- The job is due and may become pending. -/
def Job.promotable (now : Time) (j : Job) : Bool :=
  decide (j.nextRunAt ≤ now) && (j.status = .pending || j.status = .scheduled)

theorem Job.promotable_pending {now : Time} {j : Job} (h : j.promotable now = true) :
    j.nextRunAt ≤ now ∧ ({ j with status := .pending } : Job).promotable now = true := by
  unfold Job.promotable at h ⊢
  rw [Bool.and_eq_true] at h ⊢
  exact ⟨of_decide_eq_true h.1, h.1, rfl⟩

namespace Scheduler

variable {σ : Type}

/-- The loop with at most `fuel` rounds: where it returns, or `none` if it is still running. -/
def processDelayedJobs [Store σ] (now : Time) : Nat → Scheduler σ → Option (Scheduler σ)
  | 0, _ => none
  | fuel + 1, s =>
    match s.processDelayedJob now with
    | none => some s
    | some s' => processDelayedJobs now fuel s'

/-! ## One round -/

/-- What a round does: nothing is queued, or the head is not due, and the loop returns; the head is not stored, or is
due and may not become pending, and is dropped; it is written as pending and pushed onto the priority queue. -/
inductive DelayRound [Store σ] (now : Time) (s : Scheduler σ) : Option (Scheduler σ) → Prop
  | empty (hempty : s.delayQueue.ids = 0) : DelayRound now s none
  | later {id : Int} {j : Job} (hpeek : s.delayQueue.peek = some id) (hj : Store.get s.store id = some j)
    (hlater : now < j.nextRunAt) : DelayRound now s none
  | drop {id : Int} {q : JobQueue} (hd : s.delayQueue.dequeue delayComparator s.store = some (id, q))
    (hj : ∀ j, Store.get s.store id = some j → j.nextRunAt ≤ now ∧ j.promotable now = false) :
    DelayRound now s (some { s with delayQueue := q })
  | promote {id : Int} {q : JobQueue} {j : Job} {st : σ}
    (hd : s.delayQueue.dequeue delayComparator s.store = some (id, q))
    (hj : Store.get s.store id = some j) (hdue : j.promotable now = true)
    (hup : Store.update s.store { j with status := .pending } = .ok st) :
    DelayRound now s (some
      { s with delayQueue := q, store := st, priorityQueue := s.priorityQueue.enqueue priorityComparator st id })

variable [TableStore σ]

theorem processDelayedJob_round {s : Scheduler σ} (hk : Store.Keyed s.store) (now : Time) :
    DelayRound now s (s.processDelayedJob now) := by
  unfold processDelayedJob
  cases hpeek : s.delayQueue.peek with
  | none => exact .empty (JobQueue.peek_eq_none.1 hpeek)
  | some id =>
    dsimp only
    obtain ⟨q, hd, -⟩ := JobQueue.dequeue_of_peek delayComparator s.store hpeek
    have hdrop : s.dropDelayed = { s with delayQueue := q } := by
      unfold dropDelayed
      rw [hd]
    cases hj : Store.get s.store id with
    | none =>
      rw [hdrop]
      exact .drop hd fun j hj' => by rw [hj] at hj'; cases hj'
    | some j =>
      dsimp only
      have hid : j.id = id := hk id j hj
      split
      · rename_i hlater
        exact .later hpeek hj hlater
      · rename_i hdue
        have hdue' : j.nextRunAt ≤ now := Int.not_lt.1 hdue
        have hvalid : j.promotable now = true ↔ isValidTransition j.status .pending = true := by
          rw [isValidTransition_to_pending]
          simp [Job.promotable, hdue']
        have hok : (∃ st, Store.update s.store { j with status := .pending } = .ok st) ↔ j.promotable now = true := by
          rw [hvalid, LawfulStore.update_ok]
          simp only [hid, hj, Option.some.injEq, exists_eq_left']
        rw [hdrop]
        cases hup : Store.update s.store { j with status := .pending } with
        | error e =>
          refine .drop hd fun j' hj' => ?_
          cases hj.symm.trans hj'
          refine ⟨hdue', Bool.eq_false_iff.2 fun hp => ?_⟩
          obtain ⟨st, hst⟩ := hok.2 hp
          cases hup.symm.trans hst
        | ok st => exact .promote hd hj (hok.1 ⟨st, hup⟩) hup

/-- The rounds that find no job under the head's id are `dropMissing`. -/
theorem processDelayedJobs_dropMissing (now : Time) (m : Nat) (s : Scheduler σ) : ∃ k, ∀ fuel,
    processDelayedJobs now (k + fuel) s =
      processDelayedJobs now fuel { s with delayQueue := JobQueue.dropMissing s.store m s.delayQueue } := by
  induction m generalizing s with
  | zero => exact ⟨0, fun fuel => by rw [Nat.zero_add]; rfl⟩
  | succ m ih =>
    unfold JobQueue.dropMissing
    cases hpeek : s.delayQueue.peek with
    | none => exact ⟨0, fun fuel => by rw [Nat.zero_add]⟩
    | some id =>
      dsimp only
      cases hj : Store.get s.store id with
      | some j => exact ⟨0, fun fuel => by rw [Nat.zero_add]⟩
      | none =>
        obtain ⟨q, hd, -⟩ := JobQueue.dequeue_of_peek delayComparator s.store hpeek
        have hround : s.processDelayedJob now = some { s with delayQueue := q } := by
          unfold processDelayedJob dropDelayed
          rw [hpeek]
          dsimp only
          rw [hj, hd]
        obtain ⟨k, hk⟩ := ih { s with delayQueue := q }
        refine ⟨k + 1, fun fuel => ?_⟩
        dsimp only
        rw [hd, Nat.add_right_comm, processDelayedJobs, hround]
        exact hk fuel

/-! ## The whole loop -/

/-- What the loop leaves of a scheduler. -/
structure Promoted (now : Time) (s s' : Scheduler σ) : Prop where
  /-- The queued jobs that were due and could become pending are pending; every other job, and every other field, is
  the same. -/
  jobs : ∀ id, Store.get s'.store id = (Store.get s.store id).map fun j =>
    if id ∈ s.delayQueue.ids ∧ j.promotable now = true then { j with status := .pending } else j
  /-- They are pushed once for each time they were queued. -/
  pushed : ∀ id, s'.priorityQueue.ids.count id = s.priorityQueue.ids.count id +
    if (Store.get s.store id).any (Job.promotable now) = true then s.delayQueue.ids.count id else 0
  /-- No due job is left, and all others are. -/
  left : ∀ id j, Store.get s.store id = some j →
    s'.delayQueue.ids.count id = if j.nextRunAt ≤ now then 0 else s.delayQueue.ids.count id
  /-- Keys, crons and dead letters are the same. -/
  tables : Store.tables s'.store = { Store.tables s.store with job := Store.get s'.store }
  wf : LawfulStore.WF s.store → LawfulStore.WF s'.store
  rest : s' = { s with priorityQueue := s'.priorityQueue, delayQueue := s'.delayQueue, store := s'.store }

/-- Where no due job is queued there is nothing to do. -/
theorem promoted_refl {now : Time} {s : Scheduler σ}
    (h : ∀ id ∈ s.delayQueue.ids, ∀ j, Store.get s.store id = some j → ¬ j.nextRunAt ≤ now) : Promoted now s s := by
  have hnot : ∀ id ∈ s.delayQueue.ids, ∀ j, Store.get s.store id = some j → j.promotable now = false := by
    intro id hid j hj
    simp [Job.promotable, h id hid j hj]
  refine ⟨fun id => ?_, fun id => ?_, fun id j hj => ?_, rfl, fun h => h, rfl⟩
  · cases hj : Store.get s.store id with
    | none => rfl
    | some j =>
      simp only [Option.map_some]
      rw [if_neg]
      rintro ⟨hid, hp⟩
      rw [hnot id hid j hj] at hp
      cases hp
  · cases hj : Store.get s.store id with
    | none => rfl
    | some j =>
      simp only [Option.any_some]
      split
      · rename_i hp
        have hid : id ∉ s.delayQueue.ids := fun hid => by rw [hnot id hid j hj] at hp; cases hp
        rw [Multiset.count_eq_zero_of_notMem hid, Nat.add_zero]
      · rfl
  · split
    · rename_i hdue
      exact Multiset.count_eq_zero_of_notMem fun hid => h id hid j hj hdue
    · rfl

/-- A round that drops the head, and then the others. -/
theorem Promoted.of_drop {now : Time} {s s' : Scheduler σ} {id : Int} {q : JobQueue}
    (hd : s.delayQueue.dequeue delayComparator s.store = some (id, q))
    (hj : ∀ j, Store.get s.store id = some j → j.nextRunAt ≤ now ∧ j.promotable now = false)
    (h : Promoted now { s with delayQueue := q } s') : Promoted now s s' := by
  have hids := (JobQueue.dequeue_some delayComparator s.store hd).2
  refine ⟨fun k => ?_, fun k => ?_, fun k x hx => ?_, h.tables, h.wf, h.rest⟩
  · rw [h.jobs k]
    cases hx : Store.get s.store k with
    | none => rfl
    | some x =>
      simp only [Option.map_some, hids, Multiset.mem_cons]
      by_cases hk : k = id
      · subst hk
        rw [(hj x hx).2]
        simp
      · simp only [hk, false_or]
  · rw [h.pushed k, hids, Multiset.count_cons]
    by_cases hk : k = id
    · subst hk
      have hnone : (Store.get s.store k).any (Job.promotable now) = false := by
        cases hx : Store.get s.store k with
        | none => rfl
        | some x => exact (hj x hx).2
      simp [hnone]
    · simp [hk]
  · rw [h.left k x hx, hids, Multiset.count_cons]
    by_cases hk : k = id
    · subst hk
      rw [if_pos (hj x hx).1, if_pos (hj x hx).1]
    · simp [hk]

/-- A round that promotes the head, and then the others. -/
theorem Promoted.of_promote {now : Time} {s s' : Scheduler σ} {id : Int} {q : JobQueue} {j : Job} {st : σ}
    (hd : s.delayQueue.dequeue delayComparator s.store = some (id, q)) (hj : Store.get s.store id = some j)
    (hid : j.id = id) (hdue : j.promotable now = true)
    (hup : Store.update s.store { j with status := .pending } = .ok st)
    (h : Promoted now
      { s with delayQueue := q, store := st, priorityQueue := s.priorityQueue.enqueue priorityComparator st id } s') :
    Promoted now s s' := by
  have hids := (JobQueue.dequeue_some delayComparator s.store hd).2
  have hget : ∀ k, Store.get st k = if k = id then some { j with status := .pending } else Store.get s.store k := by
    intro k
    rw [LawfulStore.get_update hup k]
    simp only [hid]
  obtain ⟨htime, hdue'⟩ := Job.promotable_pending hdue
  refine ⟨fun k => ?_, fun k => ?_, fun k x hx => ?_, ?_, fun hwf => h.wf (LawfulStore.wf_update hwf hup), h.rest⟩
  · rw [h.jobs k]
    simp only [hget, hids, Multiset.mem_cons]
    by_cases hk : k = id
    · subst hk
      simp [hj, hdue]
    · simp [hk]
  · rw [h.pushed k]
    simp only [hget, hids, JobQueue.ids_enqueue, Multiset.count_cons]
    by_cases hk : k = id
    · subst hk
      simp only [if_true, Option.any_some, hj, hdue, hdue']
      omega
    · simp [hk]
  · rw [hids, Multiset.count_cons]
    by_cases hk : k = id
    · subst hk
      cases hj.symm.trans hx
      rw [if_pos htime, h.left k { j with status := .pending } (by simp only [hget, if_true]), if_pos htime]
    · rw [if_neg hk, Nat.add_zero]
      exact h.left k x (by simp only [hget, hk, if_false, hx])
  · refine h.tables.trans ?_
    dsimp only
    rw [Store.tables_update hup]
    rfl

/-- The loop returns after at most as many rounds as ids are queued, and has done what it is for. -/
theorem processDelayedJobs_promoted {now : Time} {fuel : Nat} {s : Scheduler σ} (hk : Store.Keyed s.store)
    (ho : ByRunAt s.store s.delayQueue) (hfuel : s.delayQueue.ids.card < fuel) :
    ∃ s', s.processDelayedJobs now fuel = some s' ∧ Promoted now s s' := by
  induction fuel generalizing s with
  | zero => omega
  | succ fuel ih =>
    have hround := processDelayedJob_round hk now
    unfold processDelayedJobs
    generalize s.processDelayedJob now = r at hround
    cases hround with
    | empty hempty =>
      refine ⟨s, rfl, promoted_refl fun id hid => ?_⟩
      rw [hempty] at hid
      exact absurd hid (Multiset.notMem_zero id)
    | later hpeek hj hlater =>
      -- everything behind the head runs later still
      refine ⟨s, rfl, promoted_refl fun id hid k hget => Int.not_le.2 ?_⟩
      have hle := ho.head hpeek hid
      rw [runAt_of_get hj, runAt_of_get hget] at hle
      exact Int.lt_of_lt_of_le hlater hle
    | @drop id q hd hj =>
      have hids := (JobQueue.dequeue_some delayComparator s.store hd).2
      rw [hids, Multiset.card_cons] at hfuel
      obtain ⟨s', hend, hs'⟩ := ih (s := { s with delayQueue := q }) hk (ho.dequeue hd) (Nat.lt_of_succ_lt_succ hfuel)
      exact ⟨s', hend, hs'.of_drop hd hj⟩
    | @promote id q j st hd hj hdue hup =>
      have hids := (JobQueue.dequeue_some delayComparator s.store hd).2
      rw [hids, Multiset.card_cons] at hfuel
      have hid : j.id = id := hk id j hj
      have hsame : ∀ k, runAt st k = runAt s.store k := by
        intro k
        unfold runAt
        rw [LawfulStore.get_update hup k]
        split
        · rename_i hkj
          rw [hkj, hid, hj]
          rfl
        · rfl
      have ho' : ByRunAt st q := (ho.dequeue hd).store fun k _ => hsame k
      obtain ⟨s', hend, hs'⟩ := ih (s := { s with
          delayQueue := q, store := st, priorityQueue := s.priorityQueue.enqueue priorityComparator st id })
        (hk.put (LawfulStore.get_update hup)) ho' (Nat.lt_of_succ_lt_succ hfuel)
      exact ⟨s', hend, hs'.of_promote hd hj hid hdue hup⟩

/-- A scheduler whose delay queue is built by enqueuing the ids. -/
def withDelayed (s : Scheduler σ) (ids : List Int) : Scheduler σ :=
  ids.foldl (fun s id => s.enqueueJob id .delay) { s with delayQueue := .new }

theorem withDelayed_spec (s : Scheduler σ) (ids : List Int) :
    (s.withDelayed ids).store = s.store ∧ ByRunAt s.store (s.withDelayed ids).delayQueue ∧
      (s.withDelayed ids).delayQueue.ids = (ids : Multiset Int) := by
  unfold withDelayed
  induction ids using List.reverseRecOn with
  | nil => exact ⟨rfl, JobQueue.ordered_new, rfl⟩
  | append_singleton ids id ih =>
    obtain ⟨hstore, ho, hids⟩ := ih
    rw [List.foldl_concat]
    generalize ids.foldl (fun s id => s.enqueueJob id .delay) { s with delayQueue := .new } = s' at hstore ho hids
    refine ⟨hstore, ?_, ?_⟩
    · show ByRunAt s.store (s'.delayQueue.enqueue delayComparator s'.store id)
      rw [hstore]
      exact ho.enqueue id
    · show (s'.delayQueue.enqueue delayComparator s'.store id).ids = _
      rw [JobQueue.ids_enqueue, hids, Multiset.cons_coe, Multiset.coe_eq_coe]
      exact (List.perm_append_singleton id ids).symm

/-- `ProcessDelayedJobs`, run alone at the clock reading `now` on any store and any ids enqueued against it, returns,
and has promoted exactly the due jobs that were pending or scheduled, once for each time they were queued. -/
theorem processDelayedJobs_spec (now : Time) (sched : Scheduler σ) (hkeyed : Store.Keyed sched.store) (ids : List Int) :
    (sched.withDelayed ids).delayQueue.ids = (ids : Multiset Int) ∧
      ∃ s', (sched.withDelayed ids).processDelayedJobs now (ids.length + 1) = some s' ∧
        Promoted now (sched.withDelayed ids) s' := by
  obtain ⟨hstore, ho, hids⟩ := withDelayed_spec sched ids
  refine ⟨hids, processDelayedJobs_promoted (by rw [hstore]; exact hkeyed) (by rw [hstore]; exact ho) ?_⟩
  rw [hids, Multiset.coe_card]
  exact Nat.lt_succ_self _

/-- Job 1 is scheduled at 5, job 2 at 50; job 3 was to run at 5 and is completed. -/
def threeJobs : MemoryStore :=
  let j (id : Int) (status : Status) (runAt : Time) : Job :=
    { Job.newJob id "email" 1 with status := status, nextRunAt := runAt }
  [j 1 .scheduled 5, j 2 .scheduled 50, j 3 .completed 5].foldl (fun st j => (Store.write st (.add j)).1) .new

theorem threeJobs_keyed : Store.Keyed threeJobs :=
  Store.keyed_write (Store.keyed_write (Store.keyed_write (Store.keyed_of_wf LawfulStore.wf_empty) _) _) _

/-- At 10, with job 1 queued twice and an id that is not stored: job 1 is pushed twice, job 2 stays. -/
theorem processDelayedJobs_threeJobs :
    let s := (new threeJobs (.make 1) none).withDelayed [3, 1, 9, 2, 1]
    ∃ s', s.processDelayedJobs 10 6 = some s' ∧ Promoted 10 s s' ∧ s'.priorityQueue.items = #[1, 1] ∧
        s'.delayQueue.items = #[2] := by
  intro s
  obtain ⟨-, s', hend, hs'⟩ := processDelayedJobs_spec 10 (new threeJobs (.make 1) none) threeJobs_keyed [3, 1, 9, 2, 1]
  have hitems : (s.processDelayedJobs 10 6).map (fun s' => (s'.priorityQueue.items, s'.delayQueue.items)) =
      some (#[1, 1], #[2]) := by
    decide +kernel
  have hsome : s.processDelayedJobs 10 6 = some s' := hend
  rw [hsome, Option.map_some, Option.some.injEq, Prod.mk.injEq] at hitems
  exact ⟨s', hsome, hs', hitems⟩

end Scheduler

end Quorum
