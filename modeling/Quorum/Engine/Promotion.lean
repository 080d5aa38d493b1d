/-
`ProcessDelayedJobs` at the grain of its calls. It peeks at the head of the delay queue, reads the job, and then
dequeues whatever is the head by that time; each call takes the lock of the queue or of the store on its own, so
`SubmitJobAt` and `resultLoop` may push a job in between. A pushed job that takes the head is removed in place of
the one the loop has read: it is in no queue any more, and the promoted one is still in the delay queue.
-/
import Quorum.Engine.Basic
import Quorum.Store.Memory

namespace Quorum.Promotion

/-- Where the loop is. -/
inductive Point where
  /-- About to call `Peek`, in a round or waiting for the ticker. -/
  | idle
  /-- It has peeked at `id` and is about to read the job. -/
  | peeked (id : Int)
  /-- The job was not stored; about to call `Dequeue`. -/
  | dropping (id : Int)
  /-- The job is due; about to call `Dequeue`. -/
  | promoting (id : Int) (j : Job)
  /-- About to write the job as pending. -/
  | updating (id : Int) (j : Job)
  /-- About to push it onto the priority queue. -/
  | enqueueing (id : Int)

/-- The job the loop has peeked at and not dequeued yet. -/
def Point.head : Point → Option Int
  | .peeked id | .dropping id | .promoting id _ => some id
  | _ => none

structure State (σ : Type) where
  sched : Scheduler σ
  loop : Point

/-- A step of the loop, with the clock reading it makes if it makes one; the push of another goroutine onto the delay
queue; or anything the other goroutines do besides: they leave the delay queue alone. -/
inductive Act (σ : Type) where
  | loop (now : Time)
  | enqueue (id : Int)
  | others (sched : Scheduler σ)

variable {σ : Type} [Store σ]

/-- The next call of the loop. -/
def loopStep (now : Time) (s : State σ) : State σ :=
  match s.loop with
  | .idle =>
    match s.sched.delayQueue.peek with
    | none => s
    | some id => { s with loop := .peeked id }
  | .peeked id =>
    match Store.get s.sched.store id with
    | none => { s with loop := .dropping id }
    | some j => if j.nextRunAt > now then { s with loop := .idle } else { s with loop := .promoting id j }
  | .dropping _ => { sched := s.sched.dropDelayed, loop := .idle }
  | .promoting id j => { sched := s.sched.dropDelayed, loop := .updating id j }
  | .updating id j =>
    match Store.update s.sched.store { j with status := .pending } with
    | .error _ => { s with loop := .idle }
    | .ok st => { sched := { s.sched with store := st }, loop := .enqueueing id }
  | .enqueueing id => { sched := s.sched.enqueueJob id .priority, loop := .idle }

def step (s : State σ) : Act σ → State σ
  | .loop now => loopStep now s
  | .enqueue id => { s with sched := s.sched.enqueueJob id .delay }
  | .others sched => { s with sched := { sched with delayQueue := s.sched.delayQueue } }

def machine : Machine (State σ) (Act σ) Unit := ⟨fun s a => (step s a, [])⟩

/-! ## The atomic model as steps -/

section
variable (s : Scheduler σ) (now : Time)

/-- A round that nothing interrupts is at most five calls. -/
theorem processDelayedJob_steps : ∃ n ≤ 5, machine.exec ⟨s, .idle⟩ (List.replicate n (.loop now)) =
    ⟨(s.processDelayedJob now).getD s, .idle⟩ := by
  unfold Scheduler.processDelayedJob
  cases hpeek : s.delayQueue.peek with
  | none => exact ⟨0, by omega, rfl⟩
  | some id =>
    dsimp only
    cases hget : Store.get s.store id with
    | none =>
      refine ⟨3, by omega, ?_⟩
      simp [machine, step, loopStep, List.replicate, hpeek, hget]
    | some j =>
      by_cases hdue : j.nextRunAt > now
      · refine ⟨2, by omega, ?_⟩
        simp [machine, step, loopStep, List.replicate, hpeek, hget, hdue]
      · cases hup : Store.update s.dropDelayed.store { j with status := .pending } with
        | error e =>
          refine ⟨4, by omega, ?_⟩
          simp [machine, step, loopStep, List.replicate, hpeek, hget, hdue, hup]
        | ok st =>
          refine ⟨5, by omega, ?_⟩
          simp [machine, step, loopStep, List.replicate, hpeek, hget, hdue, hup]

/-- `SubmitJobAt` without Raft writes the store and pushes. -/
theorem submitJobAt_steps (e : Engine σ) (jobType : String) (priority : Int) (runAt : Time) (p : Point) :
    ∃ acts : List (Act σ), machine.exec ⟨e.scheduler, p⟩ acts =
      ⟨(e.submitJobAt none jobType priority runAt).2.scheduler, p⟩ := by
  unfold Engine.submitJobAt Engine.accept
  dsimp only
  split
  · exact ⟨[], rfl⟩
  · rename_i st _
    exact ⟨[.others { e.scheduler with store := st }, .enqueue (e.nextJobID + 1)], rfl⟩

/-- A round of `resultLoop` releases the lease and writes the store, and where it retries the job it pushes. -/
theorem resultLoop_steps (r : Result) (p : Point) :
    ∃ acts : List (Act σ), machine.exec ⟨s, p⟩ acts = ⟨s.resultLoop now r, p⟩ := by
  unfold Scheduler.resultLoop
  cases Store.get s.store r.jobID with
  | none => exact ⟨[], rfl⟩
  | some j =>
    dsimp only
    split
    · exact ⟨[], rfl⟩
    · split
      · exact ⟨[.others ((s.release r.jobID).tryUpdate { j with status := .completed })], rfl⟩
      · split
        · exact ⟨[.others ((s.release r.jobID).tryUpdate (Scheduler.retryJob now (r.error.getD "") j)),
            .enqueue j.id], rfl⟩
        · exact ⟨[.others
            (((s.release r.jobID).tryUpdate { j with status := .failed, lastError := r.error.getD "" }).bury
            { j with status := .failed, lastError := r.error.getD "" })], rfl⟩

end

/-! ## Which job is removed -/

/-- A job that leaves the delay queue with this step is the one the loop has peeked at. -/
def Keeps (s : State σ) (a : Act σ) : Prop :=
  ∀ id, (step s a).sched.delayQueue.ids.count id < s.sched.delayQueue.ids.count id → s.loop.head = some id

/-- The step is not a push that takes the head from the job the loop has peeked at. -/
def HeadKept (s : State σ) (a : Act σ) : Prop :=
  ∀ id head, a = .enqueue id → s.loop.head = some head → (step s a).sched.delayQueue.peek = some head

/-- What the loop has peeked at is still the head. -/
def AtHead (s : State σ) : Prop := ∀ head, s.loop.head = some head → s.sched.delayQueue.peek = some head

/-- A push of a job that does not run before the peeked one keeps the head. -/
theorem headKept_of_not_earlier {s : State σ} (hs : AtHead s) (id : Int)
    (h : ∀ head, s.loop.head = some head → delayComparator id head s.sched.store = false) :
    HeadKept s (.enqueue id) := by
  rintro k head hk hhead
  cases hk
  exact JobQueue.peek_enqueue delayComparator s.sched.store (hs head hhead) (h head hhead)

theorem dropDelayed_ids {sched : Scheduler σ} {id : Int} (h : sched.delayQueue.peek = some id) :
    sched.delayQueue.ids = id ::ₘ sched.dropDelayed.delayQueue.ids := by
  obtain ⟨q, hd, hids⟩ := JobQueue.dequeue_of_peek delayComparator sched.store h
  unfold Scheduler.dropDelayed
  rw [hd]
  exact hids

theorem dropDelayed_of_empty {sched : Scheduler σ} (h : sched.delayQueue.peek = none) : sched.dropDelayed = sched := by
  unfold Scheduler.dropDelayed
  rw [(JobQueue.dequeue_none delayComparator sched.store).2 (JobQueue.peek_eq_none.1 h)]

/-- A dequeue removes the head. -/
theorem head_of_dropDelayed {sched : Scheduler σ} {id : Int}
    (h : sched.dropDelayed.delayQueue.ids.count id < sched.delayQueue.ids.count id) :
    sched.delayQueue.peek = some id := by
  cases hpeek : sched.delayQueue.peek with
  | none =>
    rw [dropDelayed_of_empty hpeek] at h
    omega
  | some k =>
    rw [dropDelayed_ids hpeek, Multiset.count_cons] at h
    split at h
    · rename_i hk; rw [hk]
    · omega

/-- What a step of the loop does to the delay queue: only the two dequeues touch it. -/
theorem loopStep_delayQueue (now : Time) (s : State σ) :
    (loopStep now s).sched.delayQueue = s.sched.delayQueue ∨
      s.loop.head.isSome = true ∧ (loopStep now s).loop.head = none ∧
        (loopStep now s).sched.delayQueue = s.sched.dropDelayed.delayQueue := by
  unfold loopStep
  cases s.loop with
  | idle => dsimp only; split <;> exact .inl rfl
  | peeked id =>
    dsimp only
    split
    · exact .inl rfl
    · split <;> exact .inl rfl
  | dropping id => exact .inr ⟨rfl, rfl, rfl⟩
  | promoting id j => exact .inr ⟨rfl, rfl, rfl⟩
  | updating id j => dsimp only; split <;> exact .inl rfl
  | enqueueing id => exact .inl rfl

theorem AtHead.keeps {s : State σ} (h : AtHead s) (a : Act σ) : Keeps s a := by
  intro id hlt
  cases a with
  | loop now =>
    rcases loopStep_delayQueue now s with heq | ⟨hsome, -, heq⟩
    · rw [show step s (.loop now) = loopStep now s from rfl, heq] at hlt
      omega
    · rw [show step s (.loop now) = loopStep now s from rfl, heq] at hlt
      obtain ⟨head, hhead⟩ := Option.isSome_iff_exists.1 hsome
      rw [hhead, ← h head hhead]
      exact head_of_dropDelayed hlt
  | enqueue k =>
    simp only [step, Scheduler.enqueueJob, JobQueue.ids_enqueue, Multiset.count_cons] at hlt
    omega
  | others sched =>
    simp only [step] at hlt
    omega

theorem AtHead.step {s : State σ} (h : AtHead s) {a : Act σ} (ha : HeadKept s a) : AtHead (step s a) := by
  intro head hhead
  cases a with
  | loop now =>
    rcases loopStep_delayQueue now s with heq | ⟨-, hnone, -⟩
    · rw [show Promotion.step s (.loop now) = loopStep now s from rfl] at hhead ⊢
      rw [heq]
      -- the peeked job is the head when it is peeked at, and the same one afterwards
      cases hloop : s.loop with
      | idle =>
        cases hpeek : s.sched.delayQueue.peek with
        | none => simp [loopStep, hloop, hpeek, Point.head] at hhead
        | some id => simpa [loopStep, hloop, hpeek, Point.head] using hhead
      | peeked id =>
        have hid : s.sched.delayQueue.peek = some id := h id (by rw [hloop]; rfl)
        rw [hid]
        simp only [loopStep, hloop] at hhead
        split at hhead
        · exact hhead
        · split at hhead
          · cases hhead
          · exact hhead
      | dropping id => simp [loopStep, hloop, Point.head] at hhead
      | promoting id j => simp [loopStep, hloop, Point.head] at hhead
      | updating id j =>
        simp only [loopStep, hloop] at hhead
        split at hhead <;> cases hhead
      | enqueueing id => simp [loopStep, hloop, Point.head] at hhead
    · rw [show Promotion.step s (.loop now) = loopStep now s from rfl, hnone] at hhead
      cases hhead
  | enqueue id => exact ha id head rfl hhead
  | others sched => exact h head hhead

/-- A loop that has peeked at a job which is no longer the head removes another one with its next steps. -/
theorem not_keeps_of_head_taken {s : State σ} {head other : Int} (hhead : s.loop.head = some head)
    (hpeek : s.sched.delayQueue.peek = some other) (hne : other ≠ head) :
    ∃ times : List Time, ¬ machine.EveryStep (fun _ s a => Keeps s a) s (times.map .loop) := by
  -- about to dequeue
  have hdrop : ∀ t : State σ, t.loop.head = some head → t.sched.delayQueue = s.sched.delayQueue →
      (loopStep 0 t).sched.delayQueue = t.sched.dropDelayed.delayQueue → ¬ Keeps t (.loop 0) := by
    intro t ht hq hdq hkeeps
    rw [← hq] at hpeek
    have hlt := hkeeps other (by
      rw [show Promotion.step t (.loop 0) = loopStep 0 t from rfl, hdq, dropDelayed_ids hpeek, Multiset.count_cons_self]
      omega)
    rw [ht] at hlt
    cases hlt
    exact hne rfl
  cases hloop : s.loop with
  | idle => rw [hloop] at hhead; cases hhead
  | updating id j => rw [hloop] at hhead; cases hhead
  | enqueueing id => rw [hloop] at hhead; cases hhead
  | dropping id =>
    refine ⟨[0], fun h => hdrop s hhead rfl ?_ (h [] (.loop 0) [] rfl)⟩
    simp only [loopStep, hloop]
  | promoting id j =>
    refine ⟨[0], fun h => hdrop s hhead rfl ?_ (h [] (.loop 0) [] rfl)⟩
    simp only [loopStep, hloop]
  | peeked id =>
    have hid : id = head := by rw [hloop] at hhead; exact Option.some.inj hhead
    cases hget : Store.get s.sched.store id with
    | none =>
      have hstep : loopStep 0 s = { s with loop := .dropping id } := by simp only [loopStep, hloop, hget]
      refine ⟨[0, 0], fun h => hdrop (loopStep 0 s) ?_ ?_ ?_ (h [.loop 0] (.loop 0) [] rfl)⟩ <;> rw [hstep]
      · exact congrArg some hid
      · rfl
    | some j =>
      -- at the time the job is due the loop goes on to dequeue
      have hstep : loopStep j.nextRunAt s = { s with loop := .promoting id j } := by
        simp only [loopStep, hloop, hget]
        exact if_neg (Int.lt_irrefl _)
      refine ⟨[j.nextRunAt, 0], fun h =>
        hdrop (loopStep j.nextRunAt s) ?_ ?_ ?_ (h [.loop j.nextRunAt] (.loop 0) [] rfl)⟩ <;> rw [hstep]
      · exact congrArg some hid
      · rfl

/-- Along a run and however the loop goes on from any point of it, only the job the loop has peeked at is removed:
this is so for exactly the runs in which no push takes the head between a `Peek` and the `Dequeue` that follows it. -/
theorem keeps_iff_headKept (sched : Scheduler σ) (acts : List (Act σ)) :
    (∀ pre, pre <+: acts → ∀ times : List Time,
      machine.EveryStep (fun _ s a => Keeps s a) ⟨sched, .idle⟩ (pre ++ times.map .loop)) ↔
      machine.EveryStep (fun _ s a => HeadKept s a) ⟨sched, .idle⟩ acts := by
  have h0 : AtHead (⟨sched, .idle⟩ : State σ) := fun head hhead => by cases hhead
  have hinv : ∀ pre : List (Act σ), machine.EveryStep (fun _ s a => HeadKept s a) ⟨sched, .idle⟩ pre →
      AtHead (machine.exec ⟨sched, .idle⟩ pre) := fun pre h =>
    Machine.EveryStep.inv (P := fun _ s => AtHead s) h0 (fun _ _ _ hs ha => hs.step ha) h
  constructor
  · intro h pre a post heq id head ha hhead
    -- the first push that takes the head is followed by the dequeue of another job
    subst ha
    have hbefore : ∃ other, (step (machine.exec ⟨sched, .idle⟩ pre) (.enqueue id)).sched.delayQueue.peek =
        some other := by
      cases hp : (step (machine.exec ⟨sched, .idle⟩ pre) (.enqueue id)).sched.delayQueue.peek with
      | some other => exact ⟨other, rfl⟩
      | none =>
        have hids := JobQueue.peek_eq_none.1 hp
        simp only [step, Scheduler.enqueueJob, JobQueue.ids_enqueue] at hids
        exact absurd hids Multiset.cons_ne_zero
    obtain ⟨other, hother⟩ := hbefore
    by_contra htaken
    have hne : other ≠ head := fun he => htaken (by rw [hother, he])
    obtain ⟨times, hbad⟩ :=
      not_keeps_of_head_taken (s := step (machine.exec ⟨sched, .idle⟩ pre) (.enqueue id)) hhead hother hne
    refine hbad ?_
    have hrun := h (pre ++ [.enqueue id]) ⟨post, by simpa using heq.symm⟩ times
    have hrest := (Machine.everyStep_append.1 hrun).2
    rw [Machine.exec_append] at hrest
    exact hrest
  · rintro h pre ⟨post, rfl⟩ times
    have hall : machine.EveryStep (fun _ s a => HeadKept s a) ⟨sched, .idle⟩ (pre ++ times.map .loop) := by
      refine Machine.everyStep_append.2 ⟨h.init, ?_⟩
      rintro p a q heq id head rfl -
      have hmem : (Act.enqueue id : Act σ) ∈ times.map .loop := by rw [heq]; simp
      obtain ⟨t, -, ht⟩ := List.mem_map.1 hmem
      cases ht
    rintro p a q heq
    refine (hinv p ?_).keeps a
    rw [heq] at hall
    exact hall.init

/-- A standalone engine with job 1 to run at time 10, and the same engine after job 2, to run at time 5, was
submitted. -/
def oneDelayed : Engine MemoryStore := ((Engine.new Store.empty (Chan.make 0) none).submitJobAt none "report" 1 10).2

def twoDelayed : Engine MemoryStore := (oneDelayed.submitJobAt none "report" 1 5).2

/-- Job 2 is submitted while the loop has read job 1. It is removed in its place: it stays scheduled and in no queue,
and job 1 is in both. -/
theorem overtaking_job_stranded :
    let acts : List (Act MemoryStore) :=
      [.loop 20, .loop 20, .others twoDelayed.scheduler, .enqueue 2, .loop 20, .loop 20, .loop 20]
    let s := machine.exec ⟨oneDelayed.scheduler, .idle⟩ acts
    (Store.get s.sched.store 2).map Job.status = some .scheduled ∧ s.sched.delayQueue.items = #[1] ∧
      s.sched.priorityQueue.items = #[1] ∧
          ¬ machine.EveryStep (fun _ s a => Keeps s a) ⟨oneDelayed.scheduler, .idle⟩ acts := by
  refine ⟨by decide +kernel, by decide +kernel, by decide +kernel, fun h => ?_⟩
  have hkeeps := h [.loop 20, .loop 20, .others twoDelayed.scheduler, .enqueue 2] (.loop 20) [.loop 20, .loop 20] rfl
  have hhead := hkeeps 2 (by decide +kernel)
  exact absurd hhead (by decide +kernel)

end Quorum.Promotion
