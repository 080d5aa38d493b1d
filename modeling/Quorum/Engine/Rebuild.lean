/-
Queue reconstruction. `RebuildQueuesFromStore` pushes every pending and scheduled id without looking at what
the queues hold. `Restore` and `Start` both call it, so a boot queues every active job twice, and a node that
claims leadership again queues the jobs it still had in its queues a second time.
-/
import Quorum.Engine.Grants
import Quorum.Store.Memory

namespace Quorum

namespace Scheduler

theorem count_ite {l : List Int} (h : l.Nodup) (id : Int) [Decidable (id ∈ l)] :
    l.count id = if id ∈ l then 1 else 0 := by
  split
  · rename_i hin; exact List.count_eq_one_of_mem h hin
  · rename_i hin; exact List.count_eq_zero_of_not_mem hin

/-- The stored pending ids gain one occurrence in the priority queue. -/
theorem Rebuilt.count_ready {b b' : Board} {pend sched : List Int} (h : Rebuilt b b' pend sched) (id : Int) :
    b'.ready.count id = b.ready.count id + if id ∈ pend then 1 else 0 := by
  rw [h.board, Board.withDelayed_ready, Board.withReady_ready, Multiset.count_add, Multiset.coe_count,
    count_ite h.nodupPending]

/-- The stored scheduled ids gain one occurrence in the delay queue. -/
theorem Rebuilt.count_delayed {b b' : Board} {pend sched : List Int} (h : Rebuilt b b' pend sched) (id : Int) :
    b'.delayed.count id = b.delayed.count id + if id ∈ sched then 1 else 0 := by
  rw [h.board, Board.withDelayed_delayed, Multiset.count_add, Multiset.coe_count, count_ite h.nodupScheduled]

theorem Rebuilt.job {b b' : Board} {pend sched : List Int} (h : Rebuilt b b' pend sched) : b'.job = b.job := by
  rw [h.board]; rfl

end Scheduler

namespace Board

/-- Each stored pending id is in the priority queue exactly once, each stored scheduled id in the delay queue
exactly once. -/
def OnceEach (b : Board) : Prop :=
  ∀ id j, b.job id = some j → (j.status = .pending → b.ready.count id = 1) ∧
    (j.status = .scheduled → b.delayed.count id = 1)

/-- No stored pending id is in the priority queue yet, no stored scheduled id in the delay queue. -/
def NoneQueued (b : Board) : Prop :=
  ∀ id j, b.job id = some j → (j.status = .pending → id ∉ b.ready) ∧ (j.status = .scheduled → id ∉ b.delayed)

/-- No job is stored as pending or scheduled. -/
def NoneWaiting (b : Board) : Prop :=
  ∀ id j, b.job id = some j → j.status ≠ .pending ∧ j.status ≠ .scheduled

end Board

namespace Scheduler

/-- A rebuild queues each active job once exactly if none was queued before. -/
theorem Rebuilt.onceEach_iff {b b' : Board} {pend sched : List Int} (h : Rebuilt b b' pend sched) :
    b'.OnceEach ↔ b.NoneQueued := by
  have hready : ∀ id j, b.job id = some j → j.status = .pending → (b'.ready.count id = 1 ↔ id ∉ b.ready) := by
    intro id j hj hp
    rw [h.count_ready, if_pos ((h.memPending id).2 ⟨j, hj, hp⟩), ← Multiset.count_eq_zero]
    omega
  have hdelayed : ∀ id j, b.job id = some j → j.status = .scheduled → (b'.delayed.count id = 1 ↔ id ∉ b.delayed) := by
    intro id j hj hs
    rw [h.count_delayed, if_pos ((h.memScheduled id).2 ⟨j, hj, hs⟩), ← Multiset.count_eq_zero]
    omega
  unfold Board.OnceEach Board.NoneQueued
  rw [h.job]
  constructor
  · intro hb id j hj
    exact ⟨fun hp => (hready id j hj hp).1 ((hb id j hj).1 hp), fun hs => (hdelayed id j hj hs).1 ((hb id j hj).2 hs)⟩
  · intro hb id j hj
    exact ⟨fun hp => (hready id j hj hp).2 ((hb id j hj).1 hp), fun hs => (hdelayed id j hj hs).2 ((hb id j hj).2 hs)⟩

/-- A rebuild leaves the queues as they are exactly if no active job is stored. -/
theorem Rebuilt.queues_eq_iff {b b' : Board} {pend sched : List Int} (h : Rebuilt b b' pend sched) :
    (b'.ready = b.ready ∧ b'.delayed = b.delayed) ↔ b.NoneWaiting := by
  constructor
  · rintro ⟨hr, hd⟩ id j hj
    refine ⟨fun hp => ?_, fun hs => ?_⟩
    · have hcount := h.count_ready id
      rw [hr, if_pos ((h.memPending id).2 ⟨j, hj, hp⟩)] at hcount
      omega
    · have hcount := h.count_delayed id
      rw [hd, if_pos ((h.memScheduled id).2 ⟨j, hj, hs⟩)] at hcount
      omega
  · intro hn
    refine ⟨Multiset.ext.2 fun id => ?_, Multiset.ext.2 fun id => ?_⟩
    · rw [h.count_ready, if_neg, Nat.add_zero]
      rintro hin
      obtain ⟨j, hj, hp⟩ := (h.memPending id).1 hin
      exact (hn id j hj).1 hp
    · rw [h.count_delayed, if_neg, Nat.add_zero]
      rintro hin
      obtain ⟨j, hj, hs⟩ := (h.memScheduled id).1 hin
      exact (hn id j hj).2 hs

/-- After a rebuild every active job is queued, so that none is queued means that none is stored. -/
theorem Rebuilt.noneQueued_iff {b b' : Board} {pend sched : List Int} (h : Rebuilt b b' pend sched) :
    b'.NoneQueued ↔ b.NoneWaiting := by
  unfold Board.NoneQueued Board.NoneWaiting
  rw [h.job]
  constructor
  · intro hb id j hj
    refine ⟨fun hp => (hb id j hj).1 hp ?_, fun hs => (hb id j hj).2 hs ?_⟩
    · rw [← Multiset.count_pos, h.count_ready, if_pos ((h.memPending id).2 ⟨j, hj, hp⟩)]
      omega
    · rw [← Multiset.count_pos, h.count_delayed, if_pos ((h.memScheduled id).2 ⟨j, hj, hs⟩)]
      omega
  · intro hn id j hj
    exact ⟨fun hp => absurd hp (hn id j hj).1, fun hs => absurd hs (hn id j hj).2⟩

end Scheduler

namespace Engine

variable {σ : Type} [LawfulStore σ]

/-- The boot sequence of the standalone server: `New`, `Restore`, `Start`. -/
def boot (st : σ) (available : Chan WorkerClient) (broker : Option Broker) (ord ord₁ ord₂ ord₃ ord₄ : RangeOrder Int) :
    Engine σ :=
  ((new st available broker).restore ord ord₁ ord₂).1.rebuild ord₃ ord₄

/-- The loop over the stored jobs ends at an id that none of them exceeds. -/
theorem le_foldl_maxID : ∀ (l : List Job) (m : Int),
    m ≤ l.foldl (fun m j => if j.id > m then j.id else m) m ∧
      ∀ j ∈ l, j.id ≤ l.foldl (fun m j => if j.id > m then j.id else m) m
  | [], m => ⟨Int.le_refl m, fun j hj => absurd hj List.not_mem_nil⟩
  | x :: l, m => by
    obtain ⟨hm, hl⟩ := le_foldl_maxID l (if x.id > m then x.id else m)
    have hx : m ≤ (if x.id > m then x.id else m) ∧ x.id ≤ (if x.id > m then x.id else m) := by
      split <;> omega
    rw [List.foldl_cons]
    refine ⟨Int.le_trans hx.1 hm, fun j hj => ?_⟩
    rcases List.mem_cons.1 hj with rfl | hj
    · exact Int.le_trans hx.2 hm
    · exact hl j hj

/-- `Restore` on a new engine leaves the id counter above every id in use. -/
theorem restore_starts {st : σ} (hst : LawfulStore.WF st) (available : Chan WorkerClient) (broker : Option Broker)
    (ord ord₁ ord₂ : RangeOrder Int) : ((new st available broker).restore ord ord₁ ord₂).1.Starts := by
  have hwf : (new st available broker).scheduler.WF := hst
  obtain ⟨-, -, pend, sched, hr⟩ := Scheduler.rebuildQueuesFromStore_board hwf ord₁ ord₂
  have hlease := rebuild_lease hwf ord₁ ord₂
  refine ⟨⟨rebuild_wf hwf ord₁ ord₂, fun id hid => ?_⟩, fun id => congrFun hlease id⟩
  -- a stored job is listed, so its id is not above the counter
  have hnone : Store.get st id = none := by
    cases hj : Store.get st id with
    | none => rfl
    | some j =>
      have hkey := LawfulStore.get_id hst hj
      subst hkey
      have hle := (le_foldl_maxID (Store.list ord st) 0).2 j ((LawfulStore.mem_list hst).2 hj)
      exact absurd hle (Int.not_le.2 hid)
  have hun : (new st available broker).board.Unused id :=
    ⟨hnone, Multiset.notMem_zero id, Multiset.notMem_zero id, rfl⟩
  exact hun.rebuilt hr

/-- What runs of a server start from: after a boot nothing is leased, and no id above the counter is in use. -/
theorem boot_starts {st : σ} (hst : LawfulStore.WF st) (available : Chan WorkerClient) (broker : Option Broker)
    (ord ord₁ ord₂ ord₃ ord₄ : RangeOrder Int) : (boot st available broker ord ord₁ ord₂ ord₃ ord₄).Starts := by
  have hs := restore_starts hst available broker ord ord₁ ord₂
  have hlease := rebuild_lease hs.sound.wf ord₃ ord₄
  exact ⟨rebuild_sound hs.sound ord₃ ord₄, fun id => (congrFun hlease id).trans (hs.leases id)⟩

/-- When reconstruction queues each active job exactly once. After a boot: only if none is stored. After a claim
of leadership, on whatever the queues held: exactly if no pending id was in the priority queue and no scheduled
id in the delay queue. And a second rebuild changes nothing only if no active job is stored. -/
theorem rebuild_once_iff (st : σ) (hst : LawfulStore.WF st) (available : Chan WorkerClient) (broker : Option Broker)
    (e : Engine σ) (he : e.scheduler.WF) (ord ord₁ ord₂ ord₃ ord₄ : RangeOrder Int) :
    ((boot st available broker ord ord₁ ord₂ ord₃ ord₄).board.OnceEach ↔
        (new st available broker).board.NoneWaiting) ∧
      ((e.rebuild ord₁ ord₂).board.OnceEach ↔ e.board.NoneQueued) ∧
      ((((e.rebuild ord₁ ord₂).rebuild ord₃ ord₄).board.ready = (e.rebuild ord₁ ord₂).board.ready ∧
          ((e.rebuild ord₁ ord₂).rebuild ord₃ ord₄).board.delayed = (e.rebuild ord₁ ord₂).board.delayed) ↔
        e.board.NoneWaiting) := by
  have hrebuilt : ∀ (e : Engine σ), e.scheduler.WF → ∀ o₁ o₂, ∃ pend sched,
      Scheduler.Rebuilt e.board (e.rebuild o₁ o₂).board pend sched :=
    fun e he o₁ o₂ => (Scheduler.rebuildQueuesFromStore_board he o₁ o₂).2.2
  refine ⟨?_, ?_, ?_⟩
  · obtain ⟨pend, sched, h₁⟩ := hrebuilt (new st available broker) hst ord₁ ord₂
    have hwf : ((new st available broker).rebuild ord₁ ord₂).scheduler.WF :=
      rebuild_wf (e := new st available broker) hst ord₁ ord₂
    obtain ⟨pend', sched', h₂⟩ := hrebuilt ((new st available broker).restore ord ord₁ ord₂).1 hwf ord₃ ord₄
    have hboard : ((new st available broker).restore ord ord₁ ord₂).1.board =
        ((new st available broker).rebuild ord₁ ord₂).board := rfl
    rw [← h₁.noneQueued_iff, ← hboard]
    exact h₂.onceEach_iff
  · obtain ⟨pend, sched, h⟩ := hrebuilt e he ord₁ ord₂
    exact h.onceEach_iff
  · obtain ⟨pend, sched, h₁⟩ := hrebuilt e he ord₁ ord₂
    obtain ⟨pend', sched', h₂⟩ := hrebuilt (e.rebuild ord₁ ord₂) (rebuild_wf he ord₁ ord₂) ord₃ ord₄
    rw [h₂.queues_eq_iff]
    unfold Board.NoneWaiting
    rw [h₁.job]

/-- A store with one pending job, as `SubmitJob` leaves it. -/
def pendingStore : MemoryStore :=
  ((new (Store.empty : MemoryStore) (Chan.make 1) none).submitJob none "email" 1).2.scheduler.store

theorem pendingStore_wf : LawfulStore.WF pendingStore :=
  (step_sound none (sound_new (Chan.make 1) none) (.submitJob "email" 1)).wf

/-- A node with empty queues claims leadership over one pending job: it is queued once. -/
theorem rebuild_once_first_claim :
    ((new pendingStore (Chan.make 1) none).rebuild .stored .stored).board.OnceEach := by
  refine (rebuild_once_iff pendingStore pendingStore_wf (Chan.make 1) none (new pendingStore (Chan.make 1) none)
    pendingStore_wf .stored .stored .stored .stored .stored).2.1.2 fun id j _ => ⟨fun _ hin => ?_, fun _ hin => ?_⟩
  · exact Multiset.notMem_zero id hin
  · exact Multiset.notMem_zero id hin

/-- A server that boots with one pending job has it twice in the priority queue. -/
theorem boot_queues_twice :
    (boot pendingStore (Chan.make 1) none .stored .stored .stored .stored .stored).scheduler.priorityQueue.items =
        #[1, 1] ∧
      ¬ (boot pendingStore (Chan.make 1) none .stored .stored .stored .stored .stored).board.OnceEach := by
  refine ⟨rfl, fun h => ?_⟩
  have hcount := (h 1 (Job.newJob 1 "email" 1) rfl).1 rfl
  exact absurd hcount (by decide)

end Engine

end Quorum
