/-
The signal between `JobQueue.Enqueue` and `dispatchLoop`. An `Enqueue` pushes under the lock and sends on
the one-slot channel afterwards, so other goroutines run in between; a send into a full slot is dropped. The
machine interleaves the two halves of any number of `Enqueue` calls with the receive and the pops of one
`dispatchLoop`, whose own re-enqueues are split in the same way. A job in the queue is always announced: by
the token, by a call that has yet to send, or because the loop is not waiting.
-/
import Quorum.Lib.Machine
import Quorum.Scheduler.Basic
import Quorum.Store.Memory

namespace Quorum

namespace JobQueue

variable {σ : Type} (cmp : Comparator σ) (store : σ)

/-- The locked half of `Enqueue`. -/
def push (q : JobQueue) (id : Int) : JobQueue :=
  { q with items := ContainerHeap.push (fun a b => cmp a b store) q.items id }

/-- The send of `Enqueue`; with a token in the slot it is dropped. -/
def signal (q : JobQueue) : JobQueue := { q with notify := true }

theorem enqueue_eq_signal_push (q : JobQueue) (id : Int) : q.enqueue cmp store id = (q.push cmp store id).signal := rfl

end JobQueue

namespace Wakeup

/-- Where `dispatchLoop` is. -/
inductive Point where
  /-- Blocked in the `select`. -/
  | waiting
  /-- In the inner loop, about to call `Dequeue`. -/
  | draining
  /-- Between a `Dequeue` and the end of `Dispatch`. -/
  | handling
  /-- In its own `Enqueue`, between the push and the send. -/
  | signalling
  deriving DecidableEq

/-- The queue, how many `Enqueue` calls of other goroutines are between their push and their send, and
where the loop is. -/
structure State where
  queue : JobQueue
  sending : Nat
  loop : Point
  deriving DecidableEq

/-- The steps; the store is the one the comparator reads at that moment. A step that is not possible in a
state does nothing there. -/
inductive Act (σ : Type) where
  | push (store : σ) (id : Int)
  | send
  | receive
  | dequeue (store : σ)
  | handled
  | requeue (store : σ) (id : Int)
  | signal

variable {σ : Type} (cmp : Comparator σ)

def step (s : State) : Act σ → State
  | .push store id => { s with queue := s.queue.push cmp store id, sending := s.sending + 1 }
  | .send => if s.sending = 0 then s else { s with queue := s.queue.signal, sending := s.sending - 1 }
  | .receive =>
    if s.loop = .waiting ∧ s.queue.notify = true then
      { s with queue := { s.queue with notify := false }, loop := .draining }
    else s
  | .dequeue store =>
    if s.loop = .draining then
      match s.queue.dequeue cmp store with
      | none => { s with loop := .waiting }
      | some (_, q) => { s with queue := q, loop := .handling }
    else s
  -- the job is gone, has ended or was accepted by a worker
  | .handled => if s.loop = .handling then { s with loop := .draining } else s
  | .requeue store id =>
    if s.loop = .handling then { s with queue := s.queue.push cmp store id, loop := .signalling } else s
  | .signal => if s.loop = .signalling then { s with queue := s.queue.signal, loop := .draining } else s

def machine : Machine State (Act σ) Unit := ⟨fun s a => (step cmp s a, [])⟩

/-- A new queue with the loop waiting for the first token. -/
def start : State := ⟨.new, 0, .waiting⟩

/-! ## What the loop and the callers do, as steps -/

section
variable [Store σ] (sched : Scheduler σ)

/-- `enqueueJob` run without interruption is its two halves. -/
theorem enqueueJob_steps (id : Int) (n : Nat) (p : Point) :
    (machine priorityComparator).exec ⟨sched.priorityQueue, n, p⟩ [.push sched.store id, .send] =
      ⟨(sched.enqueueJob id .priority).priorityQueue, n, p⟩ := rfl

/-- One round of the inner loop run without interruption is a `Dequeue` and what follows it. -/
theorem dispatchLoop_steps (now : Time) (submit : WorkerClient → Job → Option String) (n : Nat) :
    ∃ acts : List (Act σ), (machine priorityComparator).exec ⟨sched.priorityQueue, n, .draining⟩ acts =
      ⟨(sched.dispatchLoop false now submit).1.priorityQueue, n,
        if sched.priorityQueue.ids = 0 then .waiting else .draining⟩ := by
  cases hd : sched.priorityQueue.dequeue priorityComparator sched.store with
  | none =>
    refine ⟨[.dequeue sched.store], ?_⟩
    rw [if_pos ((JobQueue.dequeue_none _ _).1 hd)]
    simp [machine, step, Scheduler.dispatchLoop, hd]
  | some p =>
    obtain ⟨id, q⟩ := p
    have hne : sched.priorityQueue.ids ≠ 0 := fun h0 => by
      rw [← JobQueue.dequeue_none priorityComparator sched.store, hd] at h0
      cases h0
    rw [if_neg hne]
    -- the popped job is dropped or given away, or pushed and signalled again
    have hround : (sched.dispatchLoop false now submit).1.priorityQueue = q ∨
        ∃ k, (sched.dispatchLoop false now submit).1.priorityQueue = q.enqueue priorityComparator sched.store k := by
      simp only [Scheduler.dispatchLoop, hd]
      split
      · exact .inl rfl
      · rename_i j _
        split
        · exact .inl rfl
        · simp only [Scheduler.dispatch, Bool.false_eq_true, if_false]
          split
          · exact .inr ⟨j.id, rfl⟩
          · split
            · exact .inr ⟨j.id, rfl⟩
            · exact .inl rfl
    obtain heq | ⟨k, heq⟩ := hround
    · refine ⟨[.dequeue sched.store, .handled], ?_⟩
      simp [machine, step, hd, heq]
    · refine ⟨[.dequeue sched.store, .requeue sched.store k, .signal], ?_⟩
      simp [machine, step, hd, heq, JobQueue.enqueue_eq_signal_push]

end

/-! ## No lost wake-up -/

/-- A job in the queue is announced. -/
def Announced (s : State) : Prop :=
  s.queue.ids = 0 ∨ s.queue.notify = true ∨ 0 < s.sending ∨ s.loop ≠ .waiting

theorem step_announced {s : State} (h : Announced s) (a : Act σ) : Announced (step cmp s a) := by
  cases a with
  | push store id => exact .inr (.inr (.inl (Nat.succ_pos _)))
  | send =>
    simp only [step]
    split
    · exact h
    · exact .inr (.inl rfl)
  | receive =>
    simp only [step]
    split
    · exact .inr (.inr (.inr nofun))
    · exact h
  | dequeue store =>
    simp only [step]
    split
    · cases hd : s.queue.dequeue cmp store with
      -- the loop waits again only after it has found the queue empty
      | none => exact .inl ((JobQueue.dequeue_none cmp store).1 hd)
      | some p => exact .inr (.inr (.inr nofun))
    · exact h
  | handled =>
    simp only [step]
    split
    · exact .inr (.inr (.inr nofun))
    · exact h
  | requeue store id =>
    simp only [step]
    split
    · exact .inr (.inr (.inr nofun))
    · exact h
  | signal =>
    simp only [step]
    split
    · exact .inr (.inl rfl)
    · exact h

theorem announced (acts : List (Act σ)) : Announced ((machine cmp).exec start acts) :=
  Machine.exec_inv (P := Announced) (.inl rfl) (fun _ a h => step_announced cmp h a) acts

/-- No lost wake-up: whenever the loop is blocked and no token is there, the queue is empty or some `Enqueue`
has yet to send. -/
theorem blocked_empty_or_sending (acts : List (Act σ)) (hblocked : ((machine cmp).exec start acts).loop = .waiting)
    (htoken : ((machine cmp).exec start acts).queue.notify = false) :
    ((machine cmp).exec start acts).queue.ids = 0 ∨ 0 < ((machine cmp).exec start acts).sending := by
  rcases announced cmp acts with h | h | h | h
  · exact .inl h
  · rw [htoken] at h; cases h
  · exact .inr h
  · exact absurd hblocked h

/-- Job 1 has been handled and the loop waits again while the `Enqueue` of job 2 has pushed but not sent. -/
theorem blocked_before_second_send :
    let acts : List (Act MemoryStore) :=
      [.push .new 1, .send, .receive, .dequeue .new, .handled, .dequeue .new, .push .new 2]
    let s := (machine priorityComparator).exec start acts
    s.queue.peek = some 2 ∧ (s.queue.ids = 0 ∨ 0 < s.sending) := by
  refine ⟨by decide +kernel, blocked_empty_or_sending priorityComparator _ ?_ ?_⟩
  · decide +kernel
  · decide +kernel

end Wakeup

end Quorum
