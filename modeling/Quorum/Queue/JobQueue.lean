/-
The two job queues (`internal/queue`): a `container/heap` of job ids compared through the store at
the moment of the comparison, and a one-slot signal channel. What a queue holds is a multiset of
ids; where an id sits in the heap never matters for which ids are there.
-/
import Quorum.Lib.ContainerHeap
import Quorum.Store.Interface
import Mathlib.Data.Multiset.AddSub

namespace Quorum

/-- `queue.Comparator`. -/
abbrev Comparator (σ : Type) := Int → Int → σ → Bool

section
variable {σ : Type} [Store σ]

/-- An id that is not stored compares as the zero job. -/
def priorityComparator : Comparator σ := fun aID bID store =>
  let a := (Store.get store aID).getD Job.zero
  let b := (Store.get store bID).getD Job.zero
  a.priority > b.priority

def delayComparator : Comparator σ := fun aID bID store =>
  let a := (Store.get store aID).getD Job.zero
  let b := (Store.get store bID).getD Job.zero
  a.nextRunAt < b.nextRunAt

end

/-- `queue.JobQueue`; `notify` says whether a signal is waiting in the channel. -/
structure JobQueue where
  items : Array Int
  notify : Bool
  deriving DecidableEq

namespace JobQueue

variable {σ : Type} (cmp : Comparator σ) (store : σ)

/-- `NewJobQueue`. -/
def new : JobQueue := ⟨#[], false⟩

def enqueue (q : JobQueue) (id : Int) : JobQueue :=
  ⟨ContainerHeap.push (fun a b => cmp a b store) q.items id, true⟩

def dequeue (q : JobQueue) : Option (Int × JobQueue) :=
  (ContainerHeap.pop (fun a b => cmp a b store) q.items).map fun p => (p.1, { q with items := p.2 })

def peek (q : JobQueue) : Option Int := q.items[0]?

/-- The ids in the queue, each as often as it was enqueued. -/
def ids (q : JobQueue) : Multiset Int := (q.items.toList : Multiset Int)

@[simp] theorem ids_new : new.ids = 0 := rfl

@[simp] theorem ids_enqueue (q : JobQueue) (id : Int) : (q.enqueue cmp store id).ids = id ::ₘ q.ids :=
  Multiset.coe_eq_coe.2 (ContainerHeap.push_perm _ q.items id)

theorem dequeue_some {q q' : JobQueue} {id : Int} (h : q.dequeue cmp store = some (id, q')) :
    q.peek = some id ∧ q.ids = id ::ₘ q'.ids := by
  unfold dequeue at h
  rw [Option.map_eq_some_iff] at h
  obtain ⟨⟨x, h'⟩, hp, heq⟩ := h
  cases heq
  obtain ⟨hroot, hperm⟩ := ContainerHeap.pop_some _ hp
  exact ⟨hroot, Multiset.coe_eq_coe.2 hperm⟩

theorem dequeue_none {q : JobQueue} : q.dequeue cmp store = none ↔ q.ids = 0 := by
  unfold dequeue ids
  rw [Option.map_eq_none_iff, ContainerHeap.pop_none, Multiset.coe_eq_zero, Array.toList_eq_nil_iff]

theorem peek_eq_none {q : JobQueue} : q.peek = none ↔ q.ids = 0 := by
  unfold peek ids
  rw [Multiset.coe_eq_zero, Array.toList_eq_nil_iff, Array.getElem?_eq_none_iff, Nat.le_zero, Array.size_eq_zero_iff]

/-- An id that does not sort before the head leaves the head in place. -/
theorem peek_enqueue {q : JobQueue} {head id : Int} (h : q.peek = some head) (hnot : cmp id head store = false) :
    (q.enqueue cmp store id).peek = some head :=
  ContainerHeap.push_root _ h hnot

/-- A queue with a head dequeues exactly that head. -/
theorem dequeue_of_peek {q : JobQueue} {id : Int} (h : q.peek = some id) :
    ∃ q', q.dequeue cmp store = some (id, q') ∧ q.ids = id ::ₘ q'.ids := by
  cases hd : q.dequeue cmp store with
  | none => rw [dequeue_none, ← peek_eq_none, h] at hd; cases hd
  | some p =>
    obtain ⟨x, q'⟩ := p
    obtain ⟨hx, hids⟩ := dequeue_some cmp store hd
    rw [h] at hx; cases hx
    exact ⟨q', rfl, hids⟩

theorem peek_of_dequeue_none {q : JobQueue} (h : q.dequeue cmp store = none) : q.peek = none :=
  peek_eq_none.2 ((dequeue_none cmp store).1 h)

end JobQueue

end Quorum
