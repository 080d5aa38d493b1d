/-
A job queue and the store it reads, under any sequence of `Enqueue`, `Dequeue` and calls of the store that write. As
long as the queued ids are stored and keep their priorities, `Dequeue` returns one of the greatest priority among
them; whatever happens to the store, the ids returned and those still queued are the ids enqueued.
-/
import Quorum.Queue.Order
import Quorum.Store.Tables

namespace Quorum

structure QueueState (σ : Type) where
  store : σ
  queue : JobQueue

inductive QueueAct where
  | enqueue (id : Int)
  | dequeue
  | write (w : Write)

/-- What the queue shows: an id it took and an id it gave back. -/
inductive QueueEvent where
  | enqueued (id : Int)
  | returned (id : Int)
  deriving DecidableEq

namespace QueueEvent

/-- The ids enqueued, each as often as it was. -/
def enqueuedIds (tr : List QueueEvent) : Multiset Int :=
  (tr.filterMap fun e => match e with
    | .enqueued id => some id
    | .returned _ => none : List Int)

/-- The ids returned, each as often as it was. -/
def returnedIds (tr : List QueueEvent) : Multiset Int :=
  (tr.filterMap fun e => match e with
    | .enqueued _ => none
    | .returned id => some id : List Int)

theorem enqueuedIds_append (tr tr' : List QueueEvent) : enqueuedIds (tr ++ tr') = enqueuedIds tr + enqueuedIds tr' := by
  simp [enqueuedIds]

theorem returnedIds_append (tr tr' : List QueueEvent) : returnedIds (tr ++ tr') = returnedIds tr + returnedIds tr' := by
  simp [returnedIds]

end QueueEvent

namespace QueueState

variable {σ : Type}

section
variable [Store σ] (cmp : Comparator σ)

def step (s : QueueState σ) : QueueAct → QueueState σ × List QueueEvent
  | .enqueue id => ({ s with queue := s.queue.enqueue cmp s.store id }, [.enqueued id])
  | .dequeue =>
    match s.queue.dequeue cmp s.store with
    | none => (s, [])
    | some (id, q) => ({ s with queue := q }, [.returned id])
  | .write w => ({ s with store := (Store.write s.store w).1 }, [])

def machine : Machine (QueueState σ) QueueAct QueueEvent := ⟨step cmp⟩

/-- An empty queue on a store. -/
def start (store : σ) : QueueState σ := ⟨store, .new⟩

/-! ## Nothing is lost or doubled -/

/-- The ids returned and those still queued are the ids enqueued. -/
def Conserved (tr : List QueueEvent) (s : QueueState σ) : Prop :=
  QueueEvent.enqueuedIds tr = QueueEvent.returnedIds tr + s.queue.ids

theorem Conserved.step {tr : List QueueEvent} {s : QueueState σ} (h : Conserved tr s) (a : QueueAct) :
    Conserved (tr ++ (s.step cmp a).2) (s.step cmp a).1 := by
  unfold Conserved at h ⊢
  rw [QueueEvent.enqueuedIds_append, QueueEvent.returnedIds_append, h]
  cases a with
  | enqueue id =>
    show _ + {id} = _ + 0 + (s.queue.enqueue cmp s.store id).ids
    rw [JobQueue.ids_enqueue, Multiset.add_zero, Multiset.add_assoc, ← Multiset.singleton_add, Multiset.add_comm {id}]
  | dequeue =>
    simp only [QueueState.step]
    cases hd : s.queue.dequeue cmp s.store with
    | none => simp [QueueEvent.enqueuedIds, QueueEvent.returnedIds]
    | some p =>
      obtain ⟨id, q⟩ := p
      rw [(JobQueue.dequeue_some cmp s.store hd).2]
      show _ + (id ::ₘ q.ids) + 0 = _ + {id} + q.ids
      rw [Multiset.add_zero, Multiset.add_assoc, Multiset.singleton_add]
  | write w => simp [QueueState.step, QueueEvent.enqueuedIds, QueueEvent.returnedIds]

theorem conserved (store : σ) (acts : List QueueAct) :
    Conserved ((machine cmp).trace (start store) acts) ((machine cmp).exec (start store) acts) :=
  Machine.EveryStep.inv (M := machine cmp) (C := fun _ _ _ => True) (P := Conserved) (by unfold Conserved; rfl)
    (fun _ _ a h _ => h.step cmp a) fun _ _ _ _ => trivial

end

/-! ## The priority queue -/

section
variable [Store σ]

/-- An enqueued id is stored, and a call of the store neither removes a queued job nor changes its priority. -/
def KeepsPriorities (s : QueueState σ) : QueueAct → Prop
  | .enqueue id => ∃ j, Store.get s.store id = some j
  | .dequeue => True
  | .write w => ∀ id ∈ s.queue.ids, ∀ j, Store.get s.store id = some j →
      ∃ j', Store.get (Store.write s.store w).1 id = some j' ∧ j'.priority = j.priority

end

/-- The calls that keep the queued jobs and their priorities: an `Add` of a fresh id, an `Update` with the stored
priority, a `Delete` of an id that is not queued, and all others. -/
def SparesPriorities [Store σ] (s : QueueState σ) : Write → Prop
  | .add j => Store.get s.store j.id = none
  | .update j => ∀ old, Store.get s.store j.id = some old → j.priority = old.priority
  | .delete id => id ∉ s.queue.ids
  | .cancel _ | .addCron _ | .deleteCron _ | .addDLQ _ => True

theorem SparesPriorities.keepsPriorities [TableStore σ] {s : QueueState σ} (hk : Store.Keyed s.store) {w : Write}
    (h : s.SparesPriorities w) : s.KeepsPriorities (.write w) := by
  intro id hid j hj
  have hchange := Store.get_write hk w id
  generalize Store.get (Store.write s.store w).1 id = r at hchange
  cases hchange with
  | same => exact ⟨j, hj, rfl⟩
  | added => rw [h] at hj; cases hj
  | updated _ _ => exact ⟨_, rfl, h j hj⟩
  | deleted => exact absurd hid h
  | @cancelled k x hx _ =>
    -- the cancelled job is stored under its own id
    have hxk : x.id = k := hk k x hx
    have hxj : x = j := by
      rw [hxk] at hj
      exact Option.some.inj (hx.symm.trans hj)
    subst hxj
    exact ⟨_, rfl, rfl⟩

section
variable [Store σ]

/-- `Dequeue` returns, of a queue that is not empty, a stored job with the greatest priority of all queued ones. -/
def ReturnsGreatest (s : QueueState σ) : Prop :=
  s.queue.ids ≠ 0 → ∃ id j, (∃ q, s.queue.dequeue priorityComparator s.store = some (id, q)) ∧
    Store.get s.store id = some j ∧ ∀ k ∈ s.queue.ids, ∃ j', Store.get s.store k = some j' ∧ j'.priority ≤ j.priority

/-- The queued ids are stored and the heap is ordered by their priorities. -/
structure Ranked (s : QueueState σ) : Prop where
  stored : ∀ id ∈ s.queue.ids, ∃ j, Store.get s.store id = some j
  order : ByRank s.store s.queue

theorem Ranked.step {s : QueueState σ} (h : s.Ranked) {a : QueueAct} (ha : s.KeepsPriorities a) :
    (s.step priorityComparator a).1.Ranked := by
  cases a with
  | enqueue id =>
    refine ⟨fun k hk => ?_, h.order.enqueue id⟩
    rcases Multiset.mem_cons.1 ((JobQueue.ids_enqueue _ _ s.queue id) ▸ hk) with rfl | hk
    · exact ha
    · exact h.stored k hk
  | dequeue =>
    simp only [QueueState.step]
    cases hd : s.queue.dequeue priorityComparator s.store with
    | none => exact h
    | some p =>
      obtain ⟨id, q⟩ := p
      refine ⟨fun k hk => h.stored k ?_, h.order.dequeue hd⟩
      rw [(JobQueue.dequeue_some _ _ hd).2]
      exact Multiset.mem_cons_of_mem hk
  | write w =>
    refine ⟨fun id hid => ?_, h.order.store fun id hid => ?_⟩
    · obtain ⟨j, hj⟩ := h.stored id hid
      obtain ⟨j', hj', -⟩ := ha id hid j hj
      exact ⟨j', hj'⟩
    · obtain ⟨j, hj⟩ := h.stored id hid
      obtain ⟨j', hj', heq⟩ := ha id hid j hj
      show rank (Store.write s.store w).1 id = rank s.store id
      rw [rank_of_get hj', rank_of_get hj, heq]

theorem Ranked.returnsGreatest {s : QueueState σ} (h : s.Ranked) : s.ReturnsGreatest := by
  intro hne
  cases hpeek : s.queue.peek with
  | none => exact absurd (JobQueue.peek_eq_none.1 hpeek) hne
  | some id =>
    obtain ⟨q, hd, hids⟩ := JobQueue.dequeue_of_peek priorityComparator s.store hpeek
    obtain ⟨j, hj⟩ := h.stored id (hids ▸ Multiset.mem_cons_self id q.ids)
    refine ⟨id, j, ⟨q, hd⟩, hj, fun k hk => ?_⟩
    obtain ⟨j', hj'⟩ := h.stored k hk
    have hrank := h.order.head hpeek hk
    rw [rank_of_get hj, rank_of_get hj'] at hrank
    exact ⟨j', hj', by omega⟩

/-- Order and conservation: in every state of a run in which enqueued ids are stored and the store keeps the queued
jobs and their priorities, `Dequeue` returns a job of the greatest priority, and the ids returned so far and those
still queued are exactly the ids enqueued. -/
theorem dequeue_greatest_and_conserved (store : σ) (acts : List QueueAct)
    (hacts : (machine priorityComparator).EveryStep (fun _ s a => KeepsPriorities s a) (start store) acts)
    (pre : List QueueAct) (hpre : pre <+: acts) :
    ((machine priorityComparator).exec (start store) pre).ReturnsGreatest ∧
      QueueEvent.enqueuedIds ((machine priorityComparator).trace (start store) pre) =
        QueueEvent.returnedIds ((machine priorityComparator).trace (start store) pre) +
          ((machine priorityComparator).exec (start store) pre).queue.ids := by
  obtain ⟨post, rfl⟩ := hpre
  have hstart : (start store : QueueState σ).Ranked :=
    ⟨fun id hid => absurd hid (Multiset.notMem_zero id), JobQueue.ordered_new⟩
  have hranked := hacts.init.inv (P := fun _ s => s.Ranked) hstart fun _ s a hs ha => hs.step ha
  exact ⟨hranked.returnsGreatest, conserved priorityComparator store pre⟩

end

/-- Jobs 1 and 2 are added and enqueued, job 2 with the greater priority; job 1 is cancelled and job 2 is returned. -/
def twoJobs : List QueueAct :=
  [.write (.add (.newJob 1 "email" 1)), .enqueue 1, .write (.add (.newJob 2 "email" 5)), .enqueue 2,
    .write (.cancel 1), .dequeue]

theorem second_job_returned :
    (machine priorityComparator).trace (start MemoryStore.new) twoJobs = [.enqueued 1, .enqueued 2, .returned 2] ∧
      QueueEvent.enqueuedIds ((machine priorityComparator).trace (start MemoryStore.new) twoJobs) =
        QueueEvent.returnedIds ((machine priorityComparator).trace (start MemoryStore.new) twoJobs) +
          ((machine priorityComparator).exec (start MemoryStore.new) twoJobs).queue.ids := by
  refine ⟨by decide +kernel, (dequeue_greatest_and_conserved MemoryStore.new twoJobs ?_ twoJobs (List.prefix_refl _)).2⟩
  have hnew : Store.Keyed MemoryStore.new := Store.keyed_of_wf LawfulStore.wf_empty
  simp only [twoJobs, Machine.everyStep_cons, Machine.everyStep_nil, and_true]
  refine ⟨?_, ⟨_, rfl⟩, ?_, ⟨_, rfl⟩, ?_, trivial⟩
  · exact SparesPriorities.keepsPriorities hnew rfl
  · exact SparesPriorities.keepsPriorities (Store.keyed_write hnew _) rfl
  · exact SparesPriorities.keepsPriorities (Store.keyed_write (Store.keyed_write hnew _) _) trivial

end QueueState

end Quorum
