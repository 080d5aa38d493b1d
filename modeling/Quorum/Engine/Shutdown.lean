/-
`Engine.Stop` on a standalone engine. It cancels the context and waits for the goroutines that `Start` has counted:
the in-process workers, `Monitor`, the cron scheduler and `Scheduler.Start`. The last one returns as soon as the
context is done and does not wait for its loops, so that `dispatchLoop` may still be in the middle of a `Dispatch`
when the workers go and when the store is closed. Where a `select` finds the context done and something else ready it
may take either.

The steps of `dispatchLoop`, of the workers and of the RPC handlers interleave freely. What the queue and the store
answer to `dispatchLoop` is an argument; the other loops, and the ticks of `Monitor` and of the cron scheduler, touch
nothing of this.
-/
import Mathlib.Algebra.Group.Action.Defs
import Mathlib.Algebra.Order.BigOperators.Group.Finset
import Quorum.Rpc.Pool

namespace Quorum

namespace Shutdown

/-- Where `dispatchLoop` is. -/
inductive DispatchLoop where
  /-- At its `select`. -/
  | waiting
  /-- In the inner loop, about to call `Dequeue`. -/
  | draining
  /-- In `Dispatch`, about to look whether the context is done. -/
  | entering (j : Job)
  /-- In `Dispatch`, behind that; the pool has the rest. -/
  | dispatching
  /-- `Dispatch` has returned false. -/
  | refused
  | ended
  deriving DecidableEq

/-- The other goroutines that `Stop` waits for. -/
inductive Service where
  | scheduler
  | monitor
  | cron
  deriving DecidableEq

inductive StopCall where
  | notCalled
  | waiting
  | returned
  deriving DecidableEq

/-- The engine: its workers with the channel `Available`, its context, the dispatcher, the services that run, and the
call of `Stop`. A worker whose goroutine has returned has none. -/
structure Process where
  pool : Pool
  cancelled : Bool
  loop : DispatchLoop
  services : List Service
  stop : StopCall

/-- The acts of the RPC handlers and of the worker nodes. -/
def isRemote : Pool.Act → Bool
  | .registerWorker _ _ _ | .remove _ | .nodeFinish _ _ _ | .forward _ | .reportResult _ _ => true
  | .dispatch _ | .selectNext | .submit _ | .advertise _ | .receive _ | .finish _ => false

inductive Act where
  | stop
  /-- `wg.Wait` returns, and `Stop` closes the store. -/
  | wait
  /-- The next step of the goroutine of an in-process worker; `done` says which branch its `select` takes. -/
  | worker (id : Int) (done : Bool)
  | service (s : Service)
  /-- `dispatchLoop` is notified. -/
  | wake
  /-- `dispatchLoop` finds the context done at its `select`. -/
  | loopDone
  /-- `dispatchLoop` takes a job that is to be dispatched from the queue, or finds the queue empty. -/
  | dequeue (found : Option Job)
  | dispatch
  | selectNext
  | submit (call : SubmitCall)
  /-- `dispatchLoop` goes on after a `Dispatch` that returned false. -/
  | next
  | remote (a : Pool.Act) (h : isRemote a = true)

/-- What can be seen: a goroutine that `Stop` waits for, or `Stop` itself, has made a step, and how a call of `Submit`
ended. -/
inductive Event where
  | moved
  | submitted (w : Client) (j : Job) (err : Option String)

def Event.isSubmitted : Event → Bool
  | .submitted _ _ _ => true
  | .moved => false

def Event.isMoved : Event → Bool
  | .moved => true
  | .submitted _ _ _ => false

namespace Process

/-- The goroutine of the worker returns. -/
def leave (p : Process) (id : Int) : Process :=
  { p with pool := { p.pool with goroutine := Function.update p.pool.goroutine id none } }

/-- The next step in `Worker.Start`. -/
def worker (p : Process) (id : Int) (done : Bool) : Process × List Event :=
  match p.pool.goroutine id with
  | none => (p, [])
  | some .advertising =>
    if done ∧ p.cancelled then (p.leave id, [.moved])
    -- the send blocks while the channel is full
    else if p.pool.available.buf.length < p.pool.available.cap then
      ({ p with pool := (p.pool.step (.advertise id)).1 }, [.moved])
    else (p, [])
  | some .advertised => ({ p with pool := (p.pool.step (.receive id)).1 }, [.moved])
  -- the worker gets a job by a step of the dispatcher
  | some .receiving => if done ∧ p.cancelled then (p.leave id, [.moved]) else (p, [])
  | some (.executing _) => ({ p with pool := (p.pool.step (.finish id)).1 }, [.moved])

/-- `Dispatch` returns false if `SelectWorker` has found no worker. -/
def settle (p : Process) : Process :=
  { p with loop := match p.pool.dispatcher with
    | .idle => .refused
    | _ => .dispatching }

/-- All goroutines that `Start` has counted have returned. -/
def finished (workerCount : Nat) (p : Process) : Bool :=
  p.services.isEmpty && (List.range workerCount).all fun i => (p.pool.goroutine ((i : Nat) + 1)).isNone

def step (workerCount : Nat) (p : Process) : Act → Process × List Event
  | .stop => ({ p with cancelled := true, stop := if p.stop = .notCalled then .waiting else p.stop }, [])
  | .wait => if p.stop = .waiting ∧ p.finished workerCount then ({ p with stop := .returned }, [.moved]) else (p, [])
  | .worker id done => p.worker id done
  | .service s =>
    if p.cancelled ∧ s ∈ p.services then ({ p with services := p.services.erase s }, [.moved]) else (p, [])
  | .wake => (if p.loop = .waiting then { p with loop := .draining } else p, [])
  | .loopDone => (if p.loop = .waiting ∧ p.cancelled then { p with loop := .ended } else p, [])
  | .dequeue found =>
    match p.loop, found with
    | .draining, none => ({ p with loop := .waiting }, [])
    | .draining, some j => ({ p with loop := .entering j }, [])
    | _, _ => (p, [])
  | .dispatch =>
    match p.loop with
    | .entering j =>
      (if p.cancelled then { p with loop := .refused } else { p with pool := p.pool.dispatch j }.settle, [])
    | _ => (p, [])
  | .selectNext =>
    match p.loop with
    | .dispatching => ({ p with pool := p.pool.selectNext }.settle, [])
    | _ => (p, [])
  | .submit call =>
    match p.loop, p.pool.dispatcher with
    | .dispatching, .submitting j w =>
      let q := p.pool.submit { call with ctxDone := call.ctxDone && p.cancelled } w j
      ({ p with pool := { q.1 with dispatcher := .idle }, loop := if q.2.isNone then .draining else .refused },
        [.submitted w j q.2])
    | _, _ => (p, [])
  | .next =>
    match p.loop with
    | .refused => ({ p with loop := if p.cancelled then .ended else .draining }, [])
    | _ => (p, [])
  | .remote a _ => ({ p with pool := (p.pool.step a).1 }, [])

/-- The engine after `Start`. -/
def start (workerCount : Nat) (buffer : Int → Nat) : Process :=
  ⟨.start workerCount buffer, false, .waiting, [.monitor, .scheduler, .cron], .notCalled⟩

end Process

def engine (workerCount : Nat) : Machine Process Act Event := ⟨Process.step workerCount⟩

end Shutdown

/-- How many steps a goroutine has before it at most until it gets to a `select` and returns there. -/
def Goroutine.rank : Goroutine → Nat
  | .executing _ => 4
  | .advertising => 3
  | .advertised => 2
  | .receiving => 1

namespace Pool

variable {s : Pool}

theorem goroutine_dispatch (j : Job) : (s.dispatch j).goroutine = s.goroutine := by
  unfold dispatch
  split
  · dsimp only
    split <;> rfl
  · rfl

theorem goroutine_selectNext : s.selectNext.goroutine = s.goroutine := by
  unfold selectNext
  split
  · rfl
  · split
    · rfl
    · split <;> rfl
  · rfl
  · rfl
  · rfl
  · rfl
  · rfl

theorem goroutine_remote {a : Act} (h : Shutdown.isRemote a = true) : (s.step a).1.goroutine = s.goroutine := by
  cases a with
  | dispatch | selectNext | submit | advertise | receive | finish => cases h
  | registerWorker id topics dialed =>
    dsimp only [step, registerWorker]
    split <;> rfl
  | remove id => rfl
  | nodeFinish id i err =>
    dsimp only [step]
    split <;> rfl
  | forward id =>
    dsimp only [step]
    split <;> rfl
  | reportResult id delivered =>
    dsimp only [step]
    split
    · split
      · unfold requeue
        split <;> rfl
      · rfl
    · rfl

/-- `Submit` leaves the workers alone, or the one that is receiving has the job. -/
theorem goroutine_submit (call : SubmitCall) (w : Client) (j : Job) :
    (s.submit call w j).1.goroutine = s.goroutine ∨
      ∃ id, s.goroutine id = some .receiving ∧
        (s.submit call w j).1.goroutine = Function.update s.goroutine id (some (.executing j)) := by
  unfold submit
  cases w with
  | inProcess id =>
    dsimp only
    split
    · exact .inl rfl
    · split
      · rename_i hreceiving
        exact .inr ⟨id, hreceiving, rfl⟩
      · exact .inl rfl
  | remote id =>
    dsimp only
    split <;> exact .inl rfl

end Pool

namespace Shutdown

namespace Process

/-! ## What a step does -/

/-- What a step comes to, in as far as `Stop` waits for it. -/
inductive Outcome (workerCount : Nat) (p : Process) : Process × List Event → Prop
  | idle : Outcome workerCount p (p, [])
  | called {stop : StopCall} : stop ≠ .notCalled → (stop = .returned ↔ p.stop = .returned) →
      Outcome workerCount p ({ p with cancelled := true, stop := stop }, [])
  | returned : p.stop = .waiting → p.finished workerCount = true →
      Outcome workerCount p ({ p with stop := .returned }, [.moved])
  | advanced {id : Int} {g : Goroutine} {x : Option Goroutine} {pool : Pool} : p.pool.goroutine id = some g →
      x.elim 0 Goroutine.rank < g.rank → pool.goroutine = Function.update p.pool.goroutine id x →
      Outcome workerCount p ({ p with pool := pool }, [.moved])
  | serviceDone {s : Service} : s ∈ p.services →
      Outcome workerCount p ({ p with services := p.services.erase s }, [.moved])
  | looped {loop : DispatchLoop} : loop ≠ .dispatching → Outcome workerCount p ({ p with loop := loop }, [])
  | entered {pool : Pool} {loop : DispatchLoop} : p.cancelled = false → pool.goroutine = p.pool.goroutine →
      Outcome workerCount p ({ p with pool := pool, loop := loop }, [])
  | selected {pool : Pool} {loop : DispatchLoop} : p.loop = .dispatching → pool.goroutine = p.pool.goroutine →
      Outcome workerCount p ({ p with pool := pool, loop := loop }, [])
  | refused {pool : Pool} {loop : DispatchLoop} {w : Client} {j : Job} {err : Option String} : p.loop = .dispatching →
      loop ≠ .dispatching → pool.goroutine = p.pool.goroutine →
      Outcome workerCount p ({ p with pool := pool, loop := loop }, [.submitted w j err])
  | handed {pool : Pool} {loop : DispatchLoop} {w : Client} {j : Job} {err : Option String} {id : Int} :
      p.loop = .dispatching → loop ≠ .dispatching → p.pool.goroutine id = some .receiving →
      pool.goroutine = Function.update p.pool.goroutine id (some (.executing j)) →
      Outcome workerCount p ({ p with pool := pool, loop := loop }, [.submitted w j err])
  | remote {pool : Pool} : pool.goroutine = p.pool.goroutine → Outcome workerCount p ({ p with pool := pool }, [])

theorem worker_outcome (workerCount : Nat) (p : Process) (id : Int) (done : Bool) :
    Outcome workerCount p (p.worker id done) := by
  unfold worker
  cases hg : p.pool.goroutine id with
  | none => exact .idle
  | some g =>
    cases g with
    | advertising =>
      dsimp only
      split
      · exact .advanced (x := none) hg (by decide) rfl
      · split
        · rename_i hroom
          refine .advanced (x := some .advertised) hg (by decide) ?_
          simp only [Pool.step, hg, if_pos hroom]
          rfl
        · exact .idle
    | advertised =>
      refine .advanced (x := some .receiving) hg (by decide) ?_
      simp only [Pool.step, hg]
      rfl
    | receiving =>
      dsimp only
      split
      · exact .advanced (x := none) hg (by decide) rfl
      · exact .idle
    | executing j =>
      refine .advanced (x := some .advertising) hg (Nat.lt_succ_self 3) ?_
      simp only [Pool.step, hg]
      rfl

theorem step_outcome (workerCount : Nat) (p : Process) (a : Act) : Outcome workerCount p (p.step workerCount a) := by
  cases a with
  | stop =>
    refine .called ?_ ?_ <;> split
    · decide
    · assumption
    · rename_i hnot
      rw [hnot]
      decide
    · rfl
  | wait =>
    dsimp only [step]
    split
    · rename_i hwait
      exact .returned hwait.1 hwait.2
    · exact .idle
  | worker id done => exact worker_outcome workerCount p id done
  | service s =>
    dsimp only [step]
    split
    · rename_i hdone
      exact .serviceDone hdone.2
    · exact .idle
  | wake | loopDone =>
    dsimp only [step]
    split
    · exact .looped (by decide)
    · exact .idle
  | dequeue found =>
    dsimp only [step]
    split
    · exact .looped (by decide)
    · exact .looped (by simp)
    · exact .idle
  | dispatch =>
    dsimp only [step]
    split
    · split
      · exact .looped (by decide)
      · rename_i hopen
        exact .entered (Bool.eq_false_iff.2 hopen) (Pool.goroutine_dispatch _)
    · exact .idle
  | selectNext =>
    dsimp only [step]
    split
    · rename_i hloop
      exact .selected hloop Pool.goroutine_selectNext
    · exact .idle
  | submit call =>
    dsimp only [step]
    split
    · rename_i j w hloop _
      have hnot : (if (p.pool.submit { call with ctxDone := call.ctxDone && p.cancelled } w j).2.isNone then
          DispatchLoop.draining else .refused) ≠ .dispatching := by split <;> decide
      rcases Pool.goroutine_submit { call with ctxDone := call.ctxDone && p.cancelled } w j with
        hsame | ⟨id, hreceiving, hgiven⟩
      · exact .refused hloop hnot hsame
      · exact .handed hloop hnot hreceiving hgiven
    · exact .idle
  | next =>
    dsimp only [step]
    split
    · exact .looped (by split <;> decide)
    · exact .idle
  | remote a h => exact .remote (Pool.goroutine_remote h)

/-! ## Calls of `Submit` -/

/-- Whether the dispatcher is behind the check of the context. -/
def inDispatch (p : Process) : Nat := if p.loop = .dispatching then 1 else 0

theorem submits_step (workerCount : Nat) {p : Process} (hc : p.cancelled = true) (a : Act) :
    (p.step workerCount a).1.cancelled = true ∧
      (p.step workerCount a).2.countP Event.isSubmitted + (p.step workerCount a).1.inDispatch ≤ p.inDispatch := by
  have hstep := step_outcome workerCount p a
  generalize p.step workerCount a = r at hstep
  cases hstep with
  | idle | returned | advanced | serviceDone | remote => exact ⟨hc, Nat.le_of_eq (Nat.zero_add _)⟩
  | called => exact ⟨rfl, Nat.le_of_eq (Nat.zero_add _)⟩
  | looped hloop =>
    refine ⟨hc, ?_⟩
    simp [inDispatch, hloop]
  | entered hopen => cases hc.symm.trans hopen
  | selected hloop =>
    refine ⟨hc, ?_⟩
    simp only [inDispatch, hloop, if_true, List.countP_nil]
    split <;> omega
  | refused hloop hloop' | handed hloop hloop' =>
    refine ⟨hc, ?_⟩
    simp [inDispatch, hloop, hloop', Event.isSubmitted]

theorem submits_run (workerCount : Nat) {p : Process} (hc : p.cancelled = true) (acts : List Act) :
    ((engine workerCount).trace p acts).countP Event.isSubmitted ≤ p.inDispatch := by
  induction acts generalizing p with
  | nil => exact Nat.zero_le _
  | cons a acts ih =>
    obtain ⟨hc', hstep⟩ := submits_step workerCount hc a
    have hrest := ih hc'
    rw [Machine.trace_cons, List.countP_append]
    change List.countP _ (p.step workerCount a).2 +
      List.countP _ ((engine workerCount).trace (p.step workerCount a).1 acts) ≤ _
    omega

/-- From the call of `Stop` on, `Submit` is called at most once, and not at all unless `dispatchLoop` was in
`Dispatch` behind its look at the context. -/
theorem submits_after_stop (workerCount : Nat) (p : Process) (acts : List Act) :
    ((engine workerCount).trace (p.step workerCount .stop).1 acts).countP Event.isSubmitted ≤
      if p.loop = .dispatching then 1 else 0 :=
  submits_run workerCount (p := (p.step workerCount .stop).1) rfl acts

/-- A worker is given a job after `Stop` was called. -/
example :
    let p := (engine 1).exec (start 1 fun _ => 1)
      [.worker 1 false, .worker 1 false, .wake, .dequeue (some (.newJob 1 "email" 0)), .dispatch, .selectNext,
        .selectNext, .stop]
    ((engine 1).trace p [.submit ⟨false, .accepted⟩, .worker 1 true]).countP Event.isSubmitted = 1 := by
  decide +kernel

/-! ## The return of `Stop` -/

/-- The steps that the workers have before them. -/
def ranks (workerCount : Nat) (g : Int → Option Goroutine) : Nat :=
  ∑ i ∈ Finset.range workerCount, (g ((i : Nat) + 1)).elim 0 Goroutine.rank

theorem ranks_update {workerCount : Nat} {g : Int → Option Goroutine} {id : Int} (hid : 1 ≤ id ∧ id ≤ workerCount)
    (x : Option Goroutine) :
    ranks workerCount (Function.update g id x) + (g id).elim 0 Goroutine.rank =
      ranks workerCount g + x.elim 0 Goroutine.rank := by
  obtain ⟨i, rfl⟩ : ∃ i : Nat, id = i + 1 := ⟨(id - 1).toNat, by omega⟩
  have hmem : i ∈ Finset.range workerCount := Finset.mem_range.2 (by omega)
  unfold ranks
  rw [← Finset.add_sum_erase _ _ hmem, ← Finset.add_sum_erase _ (fun i : Nat => (g (i + 1)).elim 0 Goroutine.rank) hmem,
    Function.update_self]
  have hrest : ∑ k ∈ (Finset.range workerCount).erase i, (Function.update g (i + 1) x (k + 1)).elim 0 Goroutine.rank =
      ∑ k ∈ (Finset.range workerCount).erase i, (g (k + 1)).elim 0 Goroutine.rank := by
    refine Finset.sum_congr rfl fun k hk => ?_
    have hne := Finset.ne_of_mem_erase hk
    rw [Function.update_of_ne (by omega)]
  omega

theorem ranks_le (workerCount : Nat) (g : Int → Option Goroutine) : ranks workerCount g ≤ 4 * workerCount := by
  have hle : ∀ x : Option Goroutine, x.elim 0 Goroutine.rank ≤ 4 := by
    rintro (_ | _ | _ | _ | _) <;> simp [Goroutine.rank]
  have hsum :=
    Finset.sum_le_card_nsmul (Finset.range workerCount) (fun i => (g ((i : Nat) + 1)).elim 0 Goroutine.rank) 4
    fun i _ => hle _
  rw [Finset.card_range, smul_eq_mul, Nat.mul_comm] at hsum
  exact hsum

/-- The steps that `Stop` may have to wait for. A dispatch that is under way may give one worker a job to execute. -/
def left (workerCount : Nat) (p : Process) : Nat :=
  ranks workerCount p.pool.goroutine + 4 * p.inDispatch + p.services.length + if p.stop = .returned then 0 else 1

/-- In every state of an engine. -/
structure Sound (workerCount : Nat) (p : Process) : Prop where
  counted : ∀ id g, p.pool.goroutine id = some g → 1 ≤ id ∧ id ≤ workerCount
  services : p.services.length ≤ 3
  cancelled : p.cancelled = true ↔ p.stop ≠ .notCalled
  quiet : p.stop = .returned → p.services = [] ∧ ∀ id, p.pool.goroutine id = none

theorem sound_start (workerCount : Nat) (buffer : Int → Nat) : (start workerCount buffer).Sound workerCount where
  counted := by
    intro id g hg
    change (if 1 ≤ id ∧ id ≤ (workerCount : Int) then some Goroutine.advertising else none) = some g at hg
    split at hg
    · assumption
    · cases hg
  services := Nat.le_refl 3
  cancelled := by simp [start]
  quiet := fun h => by cases h

theorem finished_iff {workerCount : Nat} {p : Process} (hs : p.Sound workerCount) :
    p.finished workerCount = true ↔ p.services = [] ∧ ∀ id, p.pool.goroutine id = none := by
  unfold finished
  rw [Bool.and_eq_true, List.isEmpty_iff, List.all_eq_true]
  refine and_congr_right fun _ => ⟨fun hall id => ?_, fun hnone i _ => by rw [hnone]; rfl⟩
  cases hg : p.pool.goroutine id with
  | none => rfl
  | some g =>
    -- the worker is one of those that are counted
    obtain ⟨hlo, hhi⟩ := hs.counted id g hg
    have hi := hall (id - 1).toNat (List.mem_range.2 (by omega))
    rw [show (((id - 1).toNat : Nat) : Int) + 1 = id by omega, hg] at hi
    cases hi

theorem sound_step {workerCount : Nat} {p : Process} (hs : p.Sound workerCount) (a : Act) :
    (p.step workerCount a).1.Sound workerCount := by
  have hstep := step_outcome workerCount p a
  generalize p.step workerCount a = r at hstep
  -- a worker that steps is counted, and `Stop` has not returned
  have hworker : ∀ {id : Int} {g : Goroutine} {x : Option Goroutine} {pool : Pool}, p.pool.goroutine id = some g →
      pool.goroutine = Function.update p.pool.goroutine id x →
      (∀ i g', pool.goroutine i = some g' → 1 ≤ i ∧ i ≤ workerCount) ∧ p.stop ≠ .returned := by
    intro id g x pool hg hpool
    refine ⟨fun i g' hi => ?_, fun hret => ?_⟩
    · rw [hpool, Function.update_apply] at hi
      split at hi
      · rename_i heq
        exact heq ▸ hs.counted id g hg
      · exact hs.counted i g' hi
    · cases ((hs.quiet hret).2 id).symm.trans hg
  have hsame : ∀ {pool : Pool} {loop : DispatchLoop}, pool.goroutine = p.pool.goroutine →
      ({ p with pool := pool, loop := loop } : Process).Sound workerCount := by
    intro pool loop hpool
    exact ⟨fun id g hg => hs.counted id g (hpool ▸ hg), hs.services, hs.cancelled,
      fun hret => ⟨(hs.quiet hret).1, fun id => hpool ▸ (hs.quiet hret).2 id⟩⟩
  cases hstep with
  | idle => exact hs
  | called hcalled hret => exact ⟨hs.counted, hs.services, iff_of_true rfl hcalled, fun h => hs.quiet (hret.1 h)⟩
  | returned hwait hfin =>
    have hc : p.cancelled = true := hs.cancelled.2 (by rw [hwait]; decide)
    exact ⟨hs.counted, hs.services, iff_of_true hc (by simp), fun _ => (finished_iff hs).1 hfin⟩
  | advanced hg _ hpool =>
    obtain ⟨hcounted, hret⟩ := hworker hg hpool
    exact ⟨hcounted, hs.services, hs.cancelled, fun h => absurd h hret⟩
  | serviceDone hmem =>
    refine ⟨hs.counted, (List.length_erase_le ..).trans hs.services, hs.cancelled, fun hret => ?_⟩
    rw [(hs.quiet hret).1] at hmem
    cases hmem
  | looped => exact hsame rfl
  | entered _ hpool | selected _ hpool | refused _ _ hpool => exact hsame hpool
  | remote hpool => exact hsame hpool
  | handed _ _ hg hpool =>
    obtain ⟨hcounted, hret⟩ := hworker hg hpool
    exact ⟨hcounted, hs.services, hs.cancelled, fun h => absurd h hret⟩

/-- Each step that can be seen is one less to wait for, and no step makes more of them. -/
theorem left_step {workerCount : Nat} {p : Process} (hs : p.Sound workerCount) (hc : p.cancelled = true) (a : Act) :
    (p.step workerCount a).2.countP Event.isMoved + (p.step workerCount a).1.left workerCount ≤ p.left workerCount := by
  have hstep := step_outcome workerCount p a
  generalize p.step workerCount a = r at hstep
  -- what a step of a worker does to the ranks, and that it comes before the return
  have hworker : ∀ {id : Int} {g : Goroutine} (x : Option Goroutine), p.pool.goroutine id = some g →
      ranks workerCount (Function.update p.pool.goroutine id x) + g.rank =
        ranks workerCount p.pool.goroutine + x.elim 0 Goroutine.rank := by
    intro id g x hg
    have hupdate := ranks_update (g := p.pool.goroutine) (hs.counted id g hg) x
    rwa [hg] at hupdate
  have hmoved : [Event.moved].countP Event.isMoved = 1 := rfl
  have hsubmitted : ∀ w j err, [Event.submitted w j err].countP Event.isMoved = 0 := fun _ _ _ => rfl
  unfold left inDispatch
  cases hstep with
  | idle => exact Nat.le_of_eq (Nat.zero_add _)
  | called _ hret => simp [hret]
  | returned hwait =>
    simp only [hwait, hmoved, if_true, if_neg (show StopCall.waiting ≠ .returned by decide)]
    omega
  | @advanced id g x pool hg hlt hpool =>
    have hranks := hworker x hg
    simp only [hpool, hmoved]
    omega
  | serviceDone hmem =>
    have hpos := List.length_pos_of_mem hmem
    simp only [List.length_erase_of_mem hmem, hmoved]
    omega
  | looped hloop =>
    simp only [hloop, List.countP_nil, if_false]
    omega
  | entered hopen => cases hc.symm.trans hopen
  | selected hloop hpool =>
    simp only [hloop, hpool, List.countP_nil, if_true]
    split <;> omega
  | refused hloop hloop' hpool =>
    simp only [hloop, hloop', hpool, hsubmitted, if_true, if_false]
    omega
  | @handed pool loop w j err id hloop hloop' hg hpool =>
    -- the worker was receiving, and the dispatch is over
    have hranks := hworker (some (.executing j)) hg
    simp only [hloop, hloop', hpool, hsubmitted, if_true, if_false, Option.elim_some, Goroutine.rank] at hranks ⊢
    omega
  | remote hpool =>
    simp only [hpool, List.countP_nil]
    omega

theorem left_run {workerCount : Nat} {p : Process} (hs : p.Sound workerCount) (hc : p.cancelled = true)
    (acts : List Act) :
    ((engine workerCount).trace p acts).countP Event.isMoved ≤ p.left workerCount := by
  induction acts generalizing p with
  | nil => exact Nat.zero_le _
  | cons a acts ih =>
    have hstep := left_step hs hc a
    have hrest := ih (sound_step hs a) (submits_step workerCount hc a).1
    rw [Machine.trace_cons, List.countP_append]
    change List.countP _ (p.step workerCount a).2 +
      List.countP _ ((engine workerCount).trace (p.step workerCount a).1 acts) ≤ _
    omega

theorem left_le {workerCount : Nat} {p : Process} (hs : p.Sound workerCount) :
    p.left workerCount ≤ 4 * workerCount + 8 := by
  have hranks := ranks_le workerCount p.pool.goroutine
  have hservices := hs.services
  unfold left inDispatch
  split <;> split <;> omega

/-- While `Stop` waits, something that it waits for can make a step, or it can return. -/
theorem exists_moved {workerCount : Nat} {p : Process} (hs : p.Sound workerCount) (hwait : p.stop = .waiting) :
    ∃ a, .moved ∈ (p.step workerCount a).2 := by
  have hc : p.cancelled = true := hs.cancelled.2 (by rw [hwait]; decide)
  cases hfin : p.finished workerCount with
  | true => exact ⟨.wait, by simp [step, hwait, hfin]⟩
  | false =>
    by_cases hservices : p.services = []
    · have hworker : ∃ id, p.pool.goroutine id ≠ none := by
        by_contra hnone
        rw [(finished_iff hs).2 ⟨hservices, fun id => by_contra fun hsome => hnone ⟨id, hsome⟩⟩] at hfin
        cases hfin
      obtain ⟨id, hsome⟩ := hworker
      refine ⟨.worker id true, ?_⟩
      dsimp only [step, worker]
      cases hg : p.pool.goroutine id with
      | none => exact absurd hg hsome
      | some g => cases g <;> simp [hc]
    · obtain ⟨s, services, hcons⟩ := List.exists_cons_of_ne_nil hservices
      exact ⟨.service s, by simp [step, hc, hcons]⟩

/-- Whatever the engine was doing, from the call of `Stop` on the goroutines it waits for make at most
`4 * workerCount + 8` steps, ticks apart. As long as `Stop` has not returned one of them, or `Stop`, can make its
next; and when it has returned no in-process worker is there that could execute a job. -/
theorem stop_returns (workerCount : Nat) (buffer : Int → Nat) (acts later : List Act) :
    let stopped := (((engine workerCount).exec (start workerCount buffer) acts).step workerCount .stop).1
    let p := (engine workerCount).exec stopped later
    ((engine workerCount).trace stopped later).countP Event.isMoved ≤ 4 * workerCount + 8 ∧
      (p.stop = .returned ∧ p.services = [] ∧ (∀ id, p.pool.goroutine id = none) ∨
        p.stop = .waiting ∧ ∃ a, .moved ∈ (p.step workerCount a).2) := by
  intro stopped p
  have hsound : stopped.Sound workerCount :=
    sound_step (Machine.exec_inv (sound_start workerCount buffer) (fun _ a h => sound_step h a) acts) .stop
  obtain ⟨hp, hc⟩ : p.Sound workerCount ∧ p.cancelled = true :=
    Machine.exec_inv (P := fun p : Process => p.Sound workerCount ∧ p.cancelled = true) ⟨hsound, rfl⟩
      (fun _ a h => ⟨sound_step h.1 a, (submits_step workerCount h.2 a).1⟩) later
  refine ⟨(left_run hsound rfl later).trans (left_le hsound), ?_⟩
  cases hstop : p.stop with
  | notCalled => exact absurd hstop (hp.cancelled.1 hc)
  | waiting => exact .inr ⟨rfl, exists_moved hp hstop⟩
  | returned => exact .inl ⟨rfl, hp.quiet hstop⟩

end Process

end Shutdown

end Quorum
