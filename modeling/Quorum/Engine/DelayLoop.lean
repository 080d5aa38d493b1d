/-
`delayLoop` and the signal of the delay queue. The loop peeks at the head, reads the job, sets a timer for its time and
blocks; each of these is a call of its own, and any number of `Enqueue` calls, whose push and send are apart as well,
run in between. A push after the peek is announced by its token or by a call that has yet to send, so a loop that is
blocked without either has set its timer for the head of the queue as it is.
-/
import Quorum.Engine.Promotion
import Quorum.Queue.Order
import Quorum.Scheduler.Wakeup

namespace Quorum

/-- `time.Until`: the difference, within the range of a `time.Duration`. -/
def untilTime (now t : Time) : Duration :=
  max (-((1 <<< 63 : Nat) : Int)) (min (((1 <<< 63 : Nat) : Int) - 1) (t - now))

namespace DelayLoop

/-- Where the loop is. -/
inductive Point where
  /-- About to call `Peek`. -/
  | top
  /-- Blocked without a timer. -/
  | waiting
  /-- It has peeked at `id` and is about to read the job. -/
  | peeked (id : Int)
  /-- The job was not stored; about to call `Dequeue`. -/
  | dropping
  /-- It has read the job and is about to look at the clock. -/
  | read (j : Job)
  /-- In `ProcessDelayedJobs`. -/
  | promoting (p : Promotion.Point)
  /-- Blocked with a timer. -/
  | timed (t : Time)

/-- The loop is blocked in a `select`. -/
def Point.Blocked : Point → Prop
  | .waiting | .timed _ => True
  | _ => False

instance : DecidablePred Point.Blocked
  | .waiting | .timed _ => .isTrue trivial
  | .top | .peeked _ | .dropping | .read _ | .promoting _ => .isFalse id

/-- What the timer is set for. -/
def Point.timer : Point → Option Time
  | .timed t => some t
  | _ => none

/-- The scheduler, how many `Enqueue` calls on the delay queue are between their push and their send, and where the loop
is. -/
structure State (σ : Type) where
  sched : Scheduler σ
  sending : Nat
  loop : Point

/-- The two halves of an `Enqueue`; the next call of the loop with the clock reading it makes if it makes one; the
token or the timer of the `select`; or anything the other goroutines do besides: they leave the delay queue alone. A
step that is not possible in a state does nothing there. -/
inductive Act (σ : Type) where
  | push (id : Int)
  | send
  | loop (now : Time)
  | receive
  | fire
  | others (sched : Scheduler σ)

variable {σ : Type} [Store σ]

/-- `ProcessDelayedJobs` returns with this call: the queue is empty or the head is not due. -/
def returns (now : Time) (s : Promotion.State σ) : Bool :=
  match s.loop with
  | .idle => s.sched.delayQueue.peek.isNone
  | .peeked id => (Store.get s.sched.store id).any fun j => j.nextRunAt > now
  | _ => false

/-- The next call of the loop. -/
def loopStep (now : Time) (s : State σ) : State σ :=
  match s.loop with
  | .top =>
    match s.sched.delayQueue.peek with
    | none => { s with loop := .waiting }
    | some id => { s with loop := .peeked id }
  | .peeked id =>
    match Store.get s.sched.store id with
    | none => { s with loop := .dropping }
    | some j => { s with loop := .read j }
  | .dropping => { s with sched := s.sched.dropDelayed, loop := .top }
  | .read j =>
    let wait := untilTime now j.nextRunAt
    if wait ≤ 0 then { s with loop := .promoting .idle } else { s with loop := .timed (now + wait) }
  | .promoting p =>
    let p' := Promotion.loopStep now ⟨s.sched, p⟩
    { s with sched := p'.sched, loop := if returns now ⟨s.sched, p⟩ then .top else .promoting p'.loop }
  | .waiting | .timed _ => s

/-- The scheduler with another token. -/
def setNotify (sched : Scheduler σ) (notify : Bool) : Scheduler σ :=
  { sched with delayQueue := { sched.delayQueue with notify := notify } }

def step (s : State σ) : Act σ → State σ
  | .push id =>
    { s with
      sched := { s.sched with delayQueue := s.sched.delayQueue.push delayComparator s.sched.store id }
      sending := s.sending + 1 }
  | .send => if s.sending = 0 then s else { s with sched := setNotify s.sched true, sending := s.sending - 1 }
  | .loop now => loopStep now s
  | .receive =>
    match s.loop with
    | .waiting | .timed _ =>
      if s.sched.delayQueue.notify then { s with sched := setNotify s.sched false, loop := .top } else s
    | _ => s
  | .fire =>
    match s.loop with
    | .timed _ => { s with loop := .promoting .idle }
    | _ => s
  | .others sched => { s with sched := { sched with delayQueue := s.sched.delayQueue } }

def machine : Machine (State σ) (Act σ) Unit := ⟨fun s a => (step s a, [])⟩

/-- A scheduler with a new delay queue, and the loop at its start. -/
def start (sched : Scheduler σ) : State σ := ⟨{ sched with delayQueue := .new }, 0, .top⟩

/-- `enqueueJob` run without interruption is its two halves. -/
theorem enqueueJob_steps (sched : Scheduler σ) (id : Int) (p : Point) :
    machine.exec ⟨sched, 0, p⟩ [.push id, .send] = ⟨sched.enqueueJob id .delay, 0, p⟩ := rfl

/-! ## What the loop has seen -/

/-- The step does not change the time of a queued job as the comparator reads it. -/
def KeepsRunAt (s : State σ) (a : Act σ) : Prop :=
  ∀ id ∈ s.sched.delayQueue.ids, runAt (step s a).sched.store id = runAt s.sched.store id

/-- Nothing was pushed that the loop has not been told of. -/
def Quiet (s : State σ) : Prop := s.sched.delayQueue.notify = false ∧ s.sending = 0

/-- What the loop knows about the queue where nothing was pushed since its peek. -/
def Knows (sched : Scheduler σ) : Point → Prop
  | .waiting => sched.delayQueue.ids = 0
  | .peeked id => ∀ k ∈ sched.delayQueue.ids, runAt sched.store id ≤ runAt sched.store k
  | .read j => ∀ k ∈ sched.delayQueue.ids, j.nextRunAt ≤ runAt sched.store k
  | .timed t => ∀ k ∈ sched.delayQueue.ids, t ≤ runAt sched.store k
  | .top | .dropping | .promoting _ => True

structure Watches (s : State σ) : Prop where
  order : ByRunAt s.sched.store s.sched.delayQueue
  /-- Only the loop takes ids out, so the one it has peeked at is still there. -/
  queued : ∀ id, s.loop = .peeked id → id ∈ s.sched.delayQueue.ids
  knows : Quiet s → Knows s.sched s.loop

/-- What the loop knows stays true under a change of the store that keeps the times of the queued jobs. -/
theorem Knows.others {sched sched' : Scheduler σ} {p : Point} (h : Knows sched p)
    (hqueued : ∀ id, p = .peeked id → id ∈ sched.delayQueue.ids)
    (hsame : ∀ k ∈ sched.delayQueue.ids, runAt sched'.store k = runAt sched.store k) :
    Knows { sched' with delayQueue := sched.delayQueue } p := by
  cases p with
  | top | dropping | promoting => trivial
  | waiting => exact h
  | peeked id =>
    intro k hk
    rw [hsame id (hqueued id rfl), hsame k hk]
    exact h k hk
  | read j | timed t =>
    intro k hk
    rw [hsame k hk]
    exact h k hk

theorem dropDelayed_subset (sched : Scheduler σ) {k : Int} (hk : k ∈ sched.dropDelayed.delayQueue.ids) :
    k ∈ sched.delayQueue.ids := by
  cases hpeek : sched.delayQueue.peek with
  | none => rwa [Promotion.dropDelayed_of_empty hpeek] at hk
  | some id =>
    rw [Promotion.dropDelayed_ids hpeek]
    exact Multiset.mem_cons_of_mem hk

theorem dropDelayed_order {sched : Scheduler σ} (h : ByRunAt sched.store sched.delayQueue) :
    ByRunAt sched.store sched.dropDelayed.delayQueue := by
  unfold Scheduler.dropDelayed
  cases hd : sched.delayQueue.dequeue delayComparator sched.store with
  | none => exact h
  | some p => exact h.dequeue hd

/-- A job whose time is not past is waited for until its time, or for as long as a timer can wait. -/
theorem timer_le (now t : Time) (h : ¬ untilTime now t ≤ 0) : now + untilTime now t ≤ t := by
  unfold untilTime at h ⊢
  have hmin := Int.min_le_right (((1 <<< 63 : Nat) : Int) - 1) (t - now)
  generalize min (((1 <<< 63 : Nat) : Int) - 1) (t - now) = d at h hmin
  rcases Int.le_total d (-((1 <<< 63 : Nat) : Int)) with hd | hd
  · rw [Int.max_eq_left hd] at h
    exact absurd (by decide) h
  · rw [Int.max_eq_right hd]
    exact Int.add_le_of_le_sub_left hmin

/-- A call of `ProcessDelayedJobs`. It leaves the delay queue alone or dequeues, and then the store may change. -/
theorem Watches.promoting {s : State σ} (h : Watches s) {now : Time} {p : Promotion.Point}
    (hloop : s.loop = .promoting p) (hkeep : KeepsRunAt s (.loop now)) : Watches (loopStep now s) := by
  have hstep : DelayLoop.loopStep now s = { s with
      sched := (Promotion.loopStep now ⟨s.sched, p⟩).sched
      loop := if returns now ⟨s.sched, p⟩ then .top else .promoting (Promotion.loopStep now ⟨s.sched, p⟩).loop } := by
    simp only [DelayLoop.loopStep, hloop]
  have hkeep' : ∀ k ∈ s.sched.delayQueue.ids,
      runAt (Promotion.loopStep now ⟨s.sched, p⟩).sched.store k = runAt s.sched.store k := by
    have heq : (step s (.loop now)).sched = (Promotion.loopStep now ⟨s.sched, p⟩).sched := congrArg State.sched hstep
    unfold KeepsRunAt at hkeep
    rw [heq] at hkeep
    exact hkeep
  rw [hstep]
  have horder : ByRunAt (Promotion.loopStep now ⟨s.sched, p⟩).sched.store
      (Promotion.loopStep now ⟨s.sched, p⟩).sched.delayQueue := by
    rcases Promotion.loopStep_delayQueue now ⟨s.sched, p⟩ with heq | ⟨-, -, heq⟩
    · rw [heq]
      exact h.order.store hkeep'
    · rw [heq]
      exact (dropDelayed_order h.order).store fun k hk => hkeep' k (dropDelayed_subset s.sched hk)
  refine ⟨horder, ?_, ?_⟩
  · intro id hid
    dsimp only at hid
    split at hid <;> cases hid
  · intro _
    dsimp only
    split <;> trivial

/-- A step of the loop, one case for each place it can be at. -/
theorem Watches.loopStep {s : State σ} (h : Watches s) (now : Time) (hkeep : KeepsRunAt s (.loop now)) :
    Watches (loopStep now s) := by
  cases hloop : s.loop with
  | top =>
    simp only [DelayLoop.loopStep, hloop]
    cases hpeek : s.sched.delayQueue.peek with
    | none => exact ⟨h.order, nofun, fun _ => JobQueue.peek_eq_none.1 hpeek⟩
    | some id =>
      refine ⟨h.order, fun k hk => ?_, fun _ k hk => h.order.head hpeek hk⟩
      cases hk
      obtain ⟨q, -, hids⟩ := JobQueue.dequeue_of_peek delayComparator s.sched.store hpeek
      show id ∈ s.sched.delayQueue.ids
      rw [hids]
      exact Multiset.mem_cons_self id q.ids
  | peeked id =>
    have hknows := h.knows
    rw [hloop] at hknows
    simp only [DelayLoop.loopStep, hloop]
    cases hget : Store.get s.sched.store id with
    | none => exact ⟨h.order, nofun, fun _ => trivial⟩
    | some j =>
      refine ⟨h.order, nofun, fun hquiet k hk => ?_⟩
      have hle := hknows hquiet k hk
      rw [runAt_of_get hget] at hle
      exact hle
  | dropping =>
    simp only [DelayLoop.loopStep, hloop]
    have hstore : s.sched.dropDelayed.store = s.sched.store := by
      unfold Scheduler.dropDelayed
      split <;> rfl
    refine ⟨?_, nofun, fun _ => trivial⟩
    show ByRunAt s.sched.dropDelayed.store s.sched.dropDelayed.delayQueue
    rw [hstore]
    exact dropDelayed_order h.order
  | read j =>
    have hknows := h.knows
    rw [hloop] at hknows
    simp only [DelayLoop.loopStep, hloop]
    split
    · exact ⟨h.order, nofun, fun _ => trivial⟩
    · rename_i hwait
      exact ⟨h.order, nofun, fun hquiet k hk => Int.le_trans (timer_le now j.nextRunAt hwait) (hknows hquiet k hk)⟩
  | promoting p => exact h.promoting hloop hkeep
  | waiting =>
    simp only [DelayLoop.loopStep, hloop]
    exact h
  | timed t =>
    simp only [DelayLoop.loopStep, hloop]
    exact h

theorem Watches.step {s : State σ} (h : Watches s) {a : Act σ} (hkeep : KeepsRunAt s a) : Watches (step s a) := by
  cases a with
  | push id =>
    refine ⟨h.order.enqueue id, fun k hk => ?_, fun hquiet => ?_⟩
    · have hids : (s.sched.delayQueue.push delayComparator s.sched.store id).ids = id ::ₘ s.sched.delayQueue.ids :=
        JobQueue.ids_enqueue delayComparator s.sched.store s.sched.delayQueue id
      show k ∈ (s.sched.delayQueue.push delayComparator s.sched.store id).ids
      rw [hids]
      exact Multiset.mem_cons_of_mem (h.queued k hk)
    · exact absurd hquiet.2 (Nat.succ_ne_zero _)
  | send =>
    simp only [DelayLoop.step]
    split
    · exact h
    · exact ⟨h.order, h.queued, fun hquiet => by cases hquiet.1⟩
  | loop now => exact h.loopStep now hkeep
  | receive =>
    simp only [DelayLoop.step]
    split
    · split
      · exact ⟨h.order, nofun, fun _ => trivial⟩
      · exact h
    · split
      · exact ⟨h.order, nofun, fun _ => trivial⟩
      · exact h
    · exact h
  | fire =>
    simp only [DelayLoop.step]
    split
    · exact ⟨h.order, nofun, fun _ => trivial⟩
    · exact h
  | others sched =>
    have hsame : ∀ k ∈ s.sched.delayQueue.ids, runAt sched.store k = runAt s.sched.store k := hkeep
    exact ⟨h.order.store hsame, h.queued, fun hquiet => (h.knows hquiet).others h.queued hsame⟩

/-- `delayLoop` never oversleeps: in every state of a run that does not change the times of queued jobs in which the
loop is blocked, no token is there and no `Enqueue` has yet to send, the queue is empty or the timer is set for a time
that no queued job is before. -/
theorem blocked_empty_or_in_time (sched : Scheduler σ) (acts : List (Act σ))
    (hacts : machine.EveryStep (fun _ s a => KeepsRunAt s a) (start sched) acts)
    (hblocked : (machine.exec (start sched) acts).loop.Blocked)
    (htoken : (machine.exec (start sched) acts).sched.delayQueue.notify = false)
    (hsending : (machine.exec (start sched) acts).sending = 0) :
    let s := machine.exec (start sched) acts
    (s.loop = .waiting ∧ s.sched.delayQueue.ids = 0) ∨
      ∃ t, s.loop = .timed t ∧ ∀ id ∈ s.sched.delayQueue.ids, t ≤ runAt s.sched.store id := by
  have hstart : Watches (start sched) := ⟨JobQueue.ordered_new, nofun, fun _ => trivial⟩
  have hw := hacts.inv (P := fun _ s => Watches s) hstart fun _ s a hs ha => hs.step ha
  have hknows := hw.knows ⟨htoken, hsending⟩
  intro s
  cases hloop : s.loop with
  | waiting =>
    rw [hloop] at hknows
    exact .inl ⟨rfl, hknows⟩
  | timed t =>
    rw [hloop] at hknows
    exact .inr ⟨t, rfl, hknows⟩
  | top | peeked | dropping | read | promoting =>
    have hnot : s.loop.Blocked := hblocked
    rw [hloop] at hnot
    exact hnot.elim

/-- Job 1, to run at time 10, is enqueued while the loop starts: it receives the token of the push after it has set
its timer for the job, and sets it again. -/
def enqueuedAtStart : List (Act MemoryStore) :=
  [.push 1, .send, .loop 0, .loop 0, .loop 0, .receive, .loop 1, .loop 2, .loop 3]

theorem timer_set_for_head :
    let s := machine.exec (start Promotion.oneDelayed.scheduler) enqueuedAtStart
    s.loop.timer = some 10 ∧ s.sched.delayQueue.items = #[1] ∧ ((s.loop = .waiting ∧ s.sched.delayQueue.ids = 0) ∨
      ∃ t, s.loop = .timed t ∧ ∀ id ∈ s.sched.delayQueue.ids, t ≤ runAt s.sched.store id) := by
  refine ⟨by decide +kernel, by decide +kernel, blocked_empty_or_in_time _ enqueuedAtStart ?_ ?_ ?_ ?_⟩
  · simp only [enqueuedAtStart, Machine.everyStep_cons, Machine.everyStep_nil, and_true, KeepsRunAt]
    decide +kernel
  · decide +kernel
  · decide +kernel
  · decide +kernel

end DelayLoop

end Quorum
