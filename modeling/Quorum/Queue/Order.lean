/-
In which order a job queue gives its ids back. The heap compares ids through the store at the moment of the
comparison, so its order is a relation between the array and the store: it is kept by `Enqueue` and `Dequeue`, and by
every change of the store that leaves the compared fields of the queued jobs alone.
-/
import Quorum.Lib.HeapOrder
import Quorum.Queue.JobQueue
import Mathlib.Algebra.Order.Group.Int
import Mathlib.Algebra.Order.Group.Unbundled.Basic

namespace Quorum

namespace JobQueue

/-! ## Ordered queues -/

/-- Each id of the heap is related to all ids below it. -/
def Ordered (R : Int → Int → Prop) (q : JobQueue) : Prop := ContainerHeap.Ordered R q.items.size q.items

variable {R : Int → Int → Prop} {q : JobQueue}

theorem mem_ids {id : Int} : id ∈ q.ids ↔ id ∈ q.items := by
  unfold ids
  rw [Multiset.mem_coe, Array.mem_toList_iff]

theorem ordered_new : Ordered R new := ContainerHeap.ordered_empty

theorem Ordered.imp {R' : Int → Int → Prop} (h : q.Ordered R) (hR : ∀ a ∈ q.ids, ∀ b ∈ q.ids, R a b → R' a b) :
    q.Ordered R' :=
  ContainerHeap.Ordered.imp (fun a b ha hb => hR a (mem_ids.2 ha) b (mem_ids.2 hb)) h

/-- The head is related to everything in the queue. -/
theorem Ordered.head (h : q.Ordered R) {id : Int} (hpeek : q.peek = some id) (hrefl : R id id) {k : Int}
    (hk : k ∈ q.ids) :
    R id k :=
  ContainerHeap.Ordered.root h hpeek hrefl (mem_ids.1 hk)

section
variable {σ : Type} {cmp : Comparator σ} {st : σ}

theorem Ordered.enqueue (hl : ContainerHeap.Laws (fun a b => cmp a b st) R) (h : q.Ordered R) {id : Int}
    (hstop : ∀ i k a p, ContainerHeap.Above i k → ContainerHeap.Above k q.items.size → q.items[i]? = some a →
      q.items[k]? = some p → cmp id p st = false → R a id) : (q.enqueue cmp st id).Ordered R :=
  ContainerHeap.push_ordered hl h hstop

theorem Ordered.dequeue (hl : ContainerHeap.Laws (fun a b => cmp a b st) R) (h : q.Ordered R) {id : Int} {q' : JobQueue}
    (hd : q.dequeue cmp st = some (id, q')) : q'.Ordered R := by
  unfold JobQueue.dequeue at hd
  rw [Option.map_eq_some_iff] at hd
  obtain ⟨⟨x, items⟩, hp, heq⟩ := hd
  cases heq
  exact ContainerHeap.pop_ordered hl h hp

/-! Queues whose comparator compares a key. -/

variable {key : Int → Int} (hkey : ∀ a b, cmp a b st = true ↔ key a < key b)

include hkey

theorem Ordered.enqueue_key (h : q.Ordered fun a b => key a ≤ key b) (id : Int) :
    (q.enqueue cmp st id).Ordered fun a b => key a ≤ key b :=
  ContainerHeap.push_ordered_key hkey h id

theorem Ordered.dequeue_key (h : q.Ordered fun a b => key a ≤ key b) {id : Int} {q' : JobQueue}
    (hd : q.dequeue cmp st = some (id, q')) : q'.Ordered fun a b => key a ≤ key b :=
  h.dequeue (ContainerHeap.laws_of_key hkey) hd

end

end JobQueue

/-! ## The two comparators -/

section
variable {σ : Type} [Store σ]

/-- `NextRunAt` as the comparator reads it: an id that is not stored has the zero time. -/
def runAt (st : σ) (id : Int) : Time := ((Store.get st id).getD Job.zero).nextRunAt

/-- The priority as the comparator reads it; the greatest one has the least rank. -/
def rank (st : σ) (id : Int) : Int := -((Store.get st id).getD Job.zero).priority

theorem runAt_of_get {st : σ} {id : Int} {j : Job} (h : Store.get st id = some j) : runAt st id = j.nextRunAt := by
  simp [runAt, h]

theorem rank_of_get {st : σ} {id : Int} {j : Job} (h : Store.get st id = some j) : rank st id = -j.priority := by
  simp [rank, h]

theorem delayComparator_iff (st : σ) (a b : Int) : delayComparator a b st = true ↔ runAt st a < runAt st b := by
  simp [delayComparator, runAt]

theorem priorityComparator_iff (st : σ) (a b : Int) : priorityComparator a b st = true ↔ rank st a < rank st b := by
  simp [priorityComparator, rank]

/-- The delay queue is ordered by `NextRunAt`. -/
def ByRunAt (st : σ) (q : JobQueue) : Prop := q.Ordered fun a b => runAt st a ≤ runAt st b

/-- The priority queue is ordered by descending priority. -/
def ByRank (st : σ) (q : JobQueue) : Prop := q.Ordered fun a b => rank st a ≤ rank st b

end

section
variable {σ : Type} [Store σ] {st st' : σ} {q q' : JobQueue} {id : Int}

theorem ByRunAt.enqueue (h : ByRunAt st q) (id : Int) : ByRunAt st (q.enqueue delayComparator st id) :=
  JobQueue.Ordered.enqueue_key (delayComparator_iff st) h id

theorem ByRunAt.dequeue (h : ByRunAt st q) (hd : q.dequeue delayComparator st = some (id, q')) : ByRunAt st q' :=
  JobQueue.Ordered.dequeue_key (delayComparator_iff st) h hd

/-- The head of the delay queue runs first. -/
theorem ByRunAt.head (h : ByRunAt st q) (hpeek : q.peek = some id) {k : Int} (hk : k ∈ q.ids) :
    runAt st id ≤ runAt st k :=
  JobQueue.Ordered.head h hpeek (Int.le_refl _) hk

theorem ByRunAt.store (h : ByRunAt st q) (hst : ∀ k ∈ q.ids, runAt st' k = runAt st k) : ByRunAt st' q :=
  JobQueue.Ordered.imp h fun a ha b hb hab => by rw [hst a ha, hst b hb]; exact hab

theorem ByRank.enqueue (h : ByRank st q) (id : Int) : ByRank st (q.enqueue priorityComparator st id) :=
  JobQueue.Ordered.enqueue_key (priorityComparator_iff st) h id

theorem ByRank.dequeue (h : ByRank st q) (hd : q.dequeue priorityComparator st = some (id, q')) : ByRank st q' :=
  JobQueue.Ordered.dequeue_key (priorityComparator_iff st) h hd

/-- The head of the priority queue has the greatest priority. -/
theorem ByRank.head (h : ByRank st q) (hpeek : q.peek = some id) {k : Int} (hk : k ∈ q.ids) : rank st id ≤ rank st k :=
  JobQueue.Ordered.head h hpeek (Int.le_refl _) hk

theorem ByRank.store (h : ByRank st q) (hst : ∀ k ∈ q.ids, rank st' k = rank st k) : ByRank st' q :=
  JobQueue.Ordered.imp h fun a ha b hb hab => by rw [hst a ha, hst b hb]; exact hab

end

end Quorum
