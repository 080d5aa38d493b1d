/-
The executors of the workers put together (`New` of `internal/engine/engine.go`,
`internal/executor/ratelimited.go`): each worker has a circuit breaker of its own, all of them share one limiter,
and the limiter has a goroutine that ranges over a ticker. A call of `Execute` is let in by the breaker, waits for
a token, and then runs the base executor and tells the breaker how it went; `Acquire` takes no context, so that a
call that waits for its token cannot be cancelled. The machine interleaves all of these, and between the receive
of the token and the call of the base executor every other goroutine may go on.

In a stretch of time the base executors of all workers together are started at most as often as the burst, three
and the periods of the ticker in it allow, and once more for each call that has its token already when the stretch
begins. A worker that makes one call after the other, as the workers of the engine do, leaves its base executor
alone for `resetTimeout` after every trip of its breaker.
-/
import Mathlib.Algebra.BigOperators.Group.Finset.Basic
import Quorum.Lib.Ticker
import Quorum.Worker.Breaker
import Quorum.Worker.TokenBucket

namespace Quorum

namespace Pipeline

open TokenBucketLimiter

/-- The executor of one worker: the breaker, and the calls that it has let in. Those `holding` have their token and
have not called the base executor yet. -/
structure Station where
  breaker : CircuitBreakerExecutor
  calls : Nat
  acquiring : List Nat
  holding : List Nat
  executing : List Nat

/-- The calls that have not returned. -/
def Station.running (st : Station) : List Nat := st.acquiring ++ st.holding ++ st.executing

structure State where
  limiter : TokenBucketLimiter
  ticker : Ticker
  stations : Nat → Station

/-- The runtime looks at the ticker, the goroutine of the limiter receives a tick, and the steps of `Execute`: the
breaker's check, the receive of `Acquire`, the call of the base executor and its return. -/
inductive Act where
  | fire (now : Time)
  | refill
  | execute (worker : Nat) (now : Time)
  | acquire (worker call : Nat)
  | start (worker call : Nat) (now : Time)
  | finish (worker call : Nat) (now : Time) (err : Option ExecError)

/-- What is seen of it. `acquired` is a token taken, `started` a call of the base executor. -/
inductive Event where
  | refilled
  | rejected (worker : Nat)
  | admitted (worker call : Nat) (now : Time)
  | acquired (worker call : Nat)
  | started (worker call : Nat) (now : Time)
  | returned (worker call : Nat)
  | tripped (worker : Nat) (now : Time)
  deriving DecidableEq

def State.put (worker : Nat) (st : Station) (s : State) : State :=
  { s with stations := fun w => if w = worker then st else s.stations w }

def step (s : State) : Act → State × List Event
  | .fire now => ({ s with ticker := s.ticker.fire now }, [])
  | .refill =>
    match s.ticker.receive with
    | none => (s, [])
    | some ticker => ({ s with ticker := ticker, limiter := s.limiter.refill }, [.refilled])
  | .execute worker now =>
    let st := s.stations worker
    match st.breaker.beginExecute now with
    | .error _ => (s, [.rejected worker])
    | .ok c =>
      (s.put worker { st with breaker := c, calls := st.calls + 1, acquiring := st.calls :: st.acquiring },
        [.admitted worker st.calls now])
  | .acquire worker call =>
    let st := s.stations worker
    if call ∈ st.acquiring then
      match s.limiter.acquire with
      | none => (s, [])
      | some l =>
        ({ s with limiter := l }.put worker
            { st with acquiring := st.acquiring.erase call, holding := call :: st.holding }, [.acquired worker call])
    else (s, [])
  | .start worker call now =>
    let st := s.stations worker
    if call ∈ st.holding then
      (s.put worker { st with holding := st.holding.erase call, executing := call :: st.executing },
        [.started worker call now])
    else (s, [])
  | .finish worker call now err =>
    let st := s.stations worker
    if call ∈ st.executing then
      (s.put worker { st with breaker := st.breaker.finishExecute now err, executing := st.executing.erase call },
        .returned worker call :: if st.breaker.trips err then [.tripped worker now] else [])
    else (s, [])

def machine : Machine State Act Event := ⟨step⟩

/-- The limiter and its ticker are made at the time `now`, and a breaker for each worker. -/
def start (l : TokenBucketLimiter) (rate threshold : Int) (resetTimeout : Duration) (now : Time) : State where
  limiter := l
  ticker := .new now (tickInterval (orOne rate)) (tickInterval_pos _)
  stations := fun _ => ⟨.new threshold resetTimeout, 0, [], [], []⟩

/-! ## What a step does -/

/-- What an act is for the ticker. -/
def Act.ticker : Act → Option Ticker.Act
  | .fire now => some (.fire now)
  | .refill => some .receive
  | _ => none

inductive Outcome (s : State) : Act → State → List Event → Prop
  | idle {a : Act} (hticker : a.ticker = none) : Outcome s a s []
  | fired {now : Time} : Outcome s (.fire now) { s with ticker := s.ticker.fire now } []
  | notDue (hreceive : s.ticker.receive = none) : Outcome s .refill s []
  | refilled {ticker : Ticker} (hreceive : s.ticker.receive = some ticker) :
      Outcome s .refill { s with ticker := ticker, limiter := s.limiter.refill } [.refilled]
  | rejected {worker : Nat} {now : Time} : Outcome s (.execute worker now) s [.rejected worker]
  | admitted {worker : Nat} {now : Time} {c : CircuitBreakerExecutor}
      (hbegin : (s.stations worker).breaker.beginExecute now = .ok c) :
      Outcome s (.execute worker now)
        (s.put worker
          { s.stations worker with
            breaker := c
            calls := (s.stations worker).calls + 1
            acquiring := (s.stations worker).calls :: (s.stations worker).acquiring })
        [.admitted worker (s.stations worker).calls now]
  | acquired {worker call : Nat} {l : TokenBucketLimiter} (hcall : call ∈ (s.stations worker).acquiring)
      (hlimiter : s.limiter.acquire = some l) :
      Outcome s (.acquire worker call)
        ({ s with limiter := l }.put worker
          { s.stations worker with
            acquiring := (s.stations worker).acquiring.erase call
            holding := call :: (s.stations worker).holding })
        [.acquired worker call]
  | started {worker call : Nat} {now : Time} (hcall : call ∈ (s.stations worker).holding) :
      Outcome s (.start worker call now)
        (s.put worker
          { s.stations worker with
            holding := (s.stations worker).holding.erase call
            executing := call :: (s.stations worker).executing })
        [.started worker call now]
  | returned {worker call : Nat} {now : Time} {err : Option ExecError}
      (hcall : call ∈ (s.stations worker).executing) :
      Outcome s (.finish worker call now err)
        (s.put worker
          { s.stations worker with
            breaker := (s.stations worker).breaker.finishExecute now err
            executing := (s.stations worker).executing.erase call })
        (.returned worker call :: if (s.stations worker).breaker.trips err then [.tripped worker now] else [])

theorem step_outcome (s : State) (a : Act) : Outcome s a (step s a).1 (step s a).2 := by
  cases a with
  | fire now => exact .fired
  | refill =>
    simp only [step]
    split
    · exact .notDue ‹_›
    · exact .refilled ‹_›
  | execute worker now =>
    simp only [step]
    split
    · exact .rejected
    · exact .admitted ‹_›
  | acquire worker call =>
    simp only [step]
    split
    · split
      · exact .idle rfl
      · exact .acquired ‹_› ‹_›
    · exact .idle rfl
  | start worker call now =>
    simp only [step]
    split
    · exact .started ‹_›
    · exact .idle rfl
  | finish worker call now err =>
    simp only [step]
    split
    · exact .returned ‹_›
    · exact .idle rfl

/-! ## The tokens -/

/-- What an event is for the limiter. -/
def Event.token : Event → Option TokenBucket.Event
  | .refilled => some .ticked
  | .acquired worker _ => some (.acquired worker)
  | _ => none

/-- The limiter after a step, by the events of the step. -/
inductive Tokens (s : State) : State → List Event → Prop where
  | same {s' : State} {es : List Event} (hlimiter : s'.limiter = s.limiter) (hnone : es.filterMap Event.token = []) :
      Tokens s s' es
  | refilled {s' : State} (hlimiter : s'.limiter = s.limiter.refill) : Tokens s s' [.refilled]
  | acquired {s' : State} {worker call : Nat} (hlimiter : s.limiter.acquire = some s'.limiter) :
      Tokens s s' [.acquired worker call]

theorem Outcome.limiter {s s' : State} {a : Act} {es : List Event} (h : Outcome s a s' es) : Tokens s s' es := by
  cases h with
  | refilled => exact .refilled rfl
  | acquired _ hlimiter => exact .acquired hlimiter
  | returned =>
    refine .same rfl ?_
    split <;> rfl
  | _ => exact .same rfl rfl

theorem tracks_step {burst : Int} {es : List Event} {s : State}
    (h : TokenBucket.Tracks burst (es.filterMap Event.token) ⟨s.limiter, []⟩) (a : Act) :
    TokenBucket.Tracks burst ((es ++ (step s a).2).filterMap Event.token) ⟨(step s a).1.limiter, []⟩ := by
  have hstep := (step_outcome s a).limiter
  rw [List.filterMap_append]
  generalize (step s a).1 = s' at hstep
  generalize (step s a).2 = shown at hstep
  cases hstep with
  | same hlimiter hnone =>
    rw [hnone, List.append_nil, hlimiter]
    exact h
  | refilled hlimiter =>
    rw [hlimiter]
    exact h.step .tick
  | @acquired worker call hlimiter =>
    obtain ⟨hcount, hcap⟩ := acquire_eq_some hlimiter
    have hle : s.limiter.count ≤ s.limiter.tokens.cap := s.limiter.tokens.le_cap
    refine h.snoc (.acquired worker) hcap ?_
    simp only [TokenBucket.Event.gain]
    omega

/-- The refills and the tokens taken are within the bound of the limiter. -/
theorem rateBound_trace {rate burst : Int} {l : TokenBucketLimiter} (hnew : TokenBucketLimiter.new rate burst = some l)
    (threshold : Int) (resetTimeout : Duration) (now : Time) (acts : List Act) :
    TokenBucket.RateBound (orOne burst)
      ((machine.trace (start l rate threshold resetTimeout now) acts).filterMap Event.token) := by
  obtain ⟨l', hnew', hcount, hcap⟩ := new_spec rate burst
  cases hnew.symm.trans hnew'
  have hstart : TokenBucket.Tracks (orOne burst) [] ⟨l, []⟩ := TokenBucket.tracks_exec hcount hcap []
  have hevery : machine.EveryStep (fun _ _ _ => True) (start l rate threshold resetTimeout now) acts :=
    fun _ _ _ _ => trivial
  have htracks := Machine.EveryStep.inv (M := machine) (s := start l rate threshold resetTimeout now)
    (P := fun es s => TokenBucket.Tracks (orOne burst) (es.filterMap Event.token) ⟨s.limiter, []⟩) hstart
    (fun _ _ a h _ => tracks_step h a) hevery
  exact TokenBucket.rateBound_iff.2 htracks.nonneg

/-! ## The ticks -/

def Event.isRefill : Event → Bool
  | .refilled => true
  | _ => false

def Event.isToken : Event → Bool
  | .acquired _ _ => true
  | _ => false

def Event.isStart : Event → Bool
  | .started _ _ _ => true
  | _ => false

/-- How many calls of the base executors there are among the events. -/
def starts (es : List Event) : Nat := es.countP Event.isStart

/-- How many tokens are taken among the events. -/
def tokens (es : List Event) : Nat := es.countP Event.isToken

theorem Outcome.ticker {s s' : State} {a : Act} {es : List Event} (h : Outcome s a s' es) :
    s'.ticker = Ticker.machine.exec s.ticker a.ticker.toList ∧
      es.countP Event.isRefill = (Ticker.machine.trace s.ticker a.ticker.toList).length := by
  have hone : Ticker.machine.trace s.ticker [.receive] = (Ticker.step s.ticker .receive).2 := List.append_nil _
  cases h with
  | idle hticker =>
    rw [hticker]
    exact ⟨rfl, rfl⟩
  | notDue hreceive | refilled hreceive =>
    show _ = (Ticker.step s.ticker .receive).1 ∧ _ = (Ticker.machine.trace s.ticker [.receive]).length
    rw [hone, Ticker.step, hreceive]
    exact ⟨rfl, rfl⟩
  | returned =>
    refine ⟨rfl, ?_⟩
    split <;> rfl
  | _ => exact ⟨rfl, rfl⟩

theorem ticker_cons (a : Act) (acts : List Act) :
    (a :: acts).filterMap Act.ticker = a.ticker.toList ++ acts.filterMap Act.ticker := by
  cases ha : a.ticker <;> simp [ha]

theorem ticker_run (s : State) (acts : List Act) :
    (machine.exec s acts).ticker = Ticker.machine.exec s.ticker (acts.filterMap Act.ticker) ∧
      (machine.trace s acts).countP Event.isRefill =
        (Ticker.machine.trace s.ticker (acts.filterMap Act.ticker)).length := by
  induction acts generalizing s with
  | nil => exact ⟨rfl, rfl⟩
  | cons a acts ih =>
    obtain ⟨hticker, hrefills⟩ := (step_outcome s a).ticker
    obtain ⟨hrest, hcount⟩ := ih (step s a).1
    rw [hticker] at hrest hcount
    rw [ticker_cons, Machine.exec_append, Machine.trace_append, Machine.trace_cons, List.countP_append,
      List.length_append]
    exact ⟨hrest, congrArg₂ (· + ·) hrefills hcount⟩

theorem acquires_token (es : List Event) : TokenBucket.acquires (es.filterMap Event.token) = tokens es := by
  unfold TokenBucket.acquires tokens
  rw [List.countP_filterMap]
  exact List.countP_congr fun e _ => by cases e <;> exact Iff.rfl

theorem ticked_token (es : List Event) : (es.filterMap Event.token).count .ticked = es.countP Event.isRefill := by
  unfold List.count
  rw [List.countP_filterMap]
  exact List.countP_congr fun e _ => by cases e <;> exact Iff.rfl

/-- At most as many tokens are taken as there were to begin with and refills since. -/
theorem tokens_le {rate burst : Int} {l : TokenBucketLimiter} (hnew : TokenBucketLimiter.new rate burst = some l)
    (threshold : Int) (resetTimeout : Duration) (now : Time) (pre window : List Act) :
    let tr := machine.trace (machine.exec (start l rate threshold resetTimeout now) pre) window
    (tokens tr : Int) ≤ orOne burst + tr.countP Event.isRefill := by
  intro tr
  have hbound := rateBound_trace hnew threshold resetTimeout now (pre ++ window)
  rw [Machine.trace_append, List.filterMap_append] at hbound
  have hwindow := hbound (tr.filterMap Event.token) (List.suffix_append _ _).isInfix
  rwa [acquires_token, ticked_token] at hwindow

/-! ## The starts -/

/-- The worker whose call an act takes on. -/
def Act.worker : Act → Option Nat
  | .execute worker _ | .acquire worker _ | .start worker _ _ | .finish worker _ _ _ => some worker
  | .fire _ | .refill => none

/-- How many calls of the first `workers` workers have their token and have not called the base executor yet. -/
def State.held (workers : Nat) (s : State) : Nat := ∑ w ∈ Finset.range workers, (s.stations w).holding.length

theorem put_same (worker : Nat) (st : Station) (s : State) : (s.put worker st).stations worker = st := if_pos rfl

theorem put_other {worker w : Nat} (h : w ≠ worker) (st : Station) (s : State) :
    (s.put worker st).stations w = s.stations w := if_neg h

theorem held_put {workers worker : Nat} (hw : worker < workers) (st : Station) (s : State) :
    (s.put worker st).held workers + (s.stations worker).holding.length = s.held workers + st.holding.length := by
  have hmem : worker ∈ Finset.range workers := Finset.mem_range.2 hw
  have hrest : ∑ w ∈ (Finset.range workers).erase worker, ((s.put worker st).stations w).holding.length =
      ∑ w ∈ (Finset.range workers).erase worker, (s.stations w).holding.length := by
    refine Finset.sum_congr rfl fun w hmem => ?_
    rw [put_other (Finset.ne_of_mem_erase hmem)]
  unfold State.held
  rw [← Finset.add_sum_erase _ (fun w => ((s.put worker st).stations w).holding.length) hmem,
    ← Finset.add_sum_erase _ (fun w => (s.stations w).holding.length) hmem, hrest, put_same]
  omega

/-- A start uses a token that was taken before. -/
theorem Outcome.held {workers : Nat} {s s' : State} {a : Act} {es : List Event} (h : Outcome s a s' es)
    (ha : ∀ w, a.worker = some w → w < workers) : s'.held workers + starts es = s.held workers + tokens es := by
  cases h with
  | @admitted worker => exact Nat.add_right_cancel (held_put (ha worker rfl) _ s)
  | @acquired worker call l =>
    have hput := held_put (ha worker rfl)
      { s.stations worker with
        acquiring := (s.stations worker).acquiring.erase call, holding := call :: (s.stations worker).holding }
      { s with limiter := l }
    rw [List.length_cons, ← Nat.add_assoc, Nat.add_right_comm] at hput
    exact Nat.add_right_cancel hput
  | @started worker call now hcall =>
    have hput := held_put (ha worker rfl)
      { s.stations worker with
        holding := (s.stations worker).holding.erase call, executing := call :: (s.stations worker).executing } s
    have hlen := List.length_erase_add_one hcall
    dsimp only at hput ⊢
    rw [show starts [Event.started worker call now] = 1 from rfl,
      show tokens [Event.started worker call now] = 0 from rfl]
    omega
  | @returned worker call now err =>
    have hput := held_put (ha worker rfl)
      { s.stations worker with
        breaker := (s.stations worker).breaker.finishExecute now err
        executing := (s.stations worker).executing.erase call } s
    refine congrArg₂ (· + ·) (Nat.add_right_cancel hput) ?_
    split <;> rfl
  | _ => rfl

theorem held_run {workers : Nat} (s : State) {acts : List Act}
    (hacts : ∀ a ∈ acts, ∀ w, a.worker = some w → w < workers) :
    (machine.exec s acts).held workers + starts (machine.trace s acts) =
      s.held workers + tokens (machine.trace s acts) := by
  induction acts generalizing s with
  | nil => rfl
  | cons a acts ih =>
    have hone := (step_outcome s a).held (hacts a List.mem_cons_self)
    have hrest := ih (step s a).1 fun a' ha' => hacts a' (List.mem_cons_of_mem a ha')
    have htrace : machine.trace s (a :: acts) = (step s a).2 ++ machine.trace (step s a).1 acts := rfl
    unfold starts tokens at hone hrest ⊢
    rw [htrace, List.countP_append, List.countP_append]
    show (machine.exec (step s a).1 acts).held workers + _ = _
    omega

/-- In a stretch of time in which the runtime looks at the ticker only between `a` and `b`, all base executors
together are started at most as often as the burst, three more than the periods that fit into it, and the calls that
have their token when it begins. -/
theorem starts_lt {rate burst : Int} {l : TokenBucketLimiter} (hnew : TokenBucketLimiter.new rate burst = some l)
    (threshold : Int) (resetTimeout : Duration) (now : Time) {workers : Nat} (pre window : List Act)
    (hworkers : ∀ act ∈ window, ∀ w, act.worker = some w → w < workers) {a b : Time} (hab : a ≤ b)
    (hwindow : ∀ t, .fire t ∈ window → a ≤ t ∧ t ≤ b) :
    let s := machine.exec (start l rate threshold resetTimeout now) pre
    (starts (machine.trace s window) - s.held workers - orOne burst - 3) * tickInterval (orOne rate) < b - a := by
  have hle := tokens_le hnew threshold resetTimeout now pre window
  have hticker := (ticker_run (start l rate threshold resetTimeout now) pre).1
  dsimp only at hle ⊢
  generalize machine.exec (start l rate threshold resetTimeout now) pre = s at hle hticker
  have hheld := held_run s hworkers
  have hinterval : s.ticker.interval = tickInterval (orOne rate) := by
    rw [hticker, Ticker.interval_exec]
    rfl
  have hfire : ∀ t, .fire t ∈ window.filterMap Act.ticker → a ≤ t ∧ t ≤ b := by
    intro t ht
    obtain ⟨act, hact, heq⟩ := List.mem_filterMap.1 ht
    cases act with
    | fire t' =>
      cases heq
      exact hwindow t hact
    | refill | execute | acquire | start | finish => cases heq
  have hlt := Ticker.received_lt s.ticker hab hfire
  rw [(ticker_run s window).2] at hle
  rw [hinterval] at hlt
  refine lt_of_le_of_lt (mul_le_mul_of_nonneg_right ?_ (tickInterval_pos _).le) hlt
  omega

/-- A limiter for a thousand starts a second and two at once. -/
def thousand : TokenBucketLimiter := ⟨⟨2, [(), ()], by decide⟩, 1000000⟩

/-- Worker 1 has taken a token and not started. In the stretch that follows worker 2 takes the other one and starts,
worker 1 starts, and worker 2 starts once more with a token of the next tick. -/
theorem three_starts_lt :
    let s := machine.exec (start thousand 1000 3 (30 * second) 0) [.execute 1 0, .execute 2 0, .acquire 1 0]
    let tr := machine.trace s
      [.acquire 2 0, .start 2 0 1, .start 1 0 2, .finish 2 0 5 none, .execute 2 6, .acquire 2 1, .fire 1000000, .refill,
        .acquire 2 1, .start 2 1 1000000]
    s.held 3 = 1 ∧ starts tr = 3 ∧ (starts tr - s.held 3 - orOne 2 - 3) * tickInterval (orOne 1000) < 1000000 - 0 := by
  intro s tr
  refine ⟨by decide +kernel, by decide +kernel,
    starts_lt (show TokenBucketLimiter.new 1000 2 = some thousand from rfl) 3 (30 * second) 0 _ _ ?_ (by decide) ?_⟩
  · simp [Act.worker]
  · intro t ht
    have heq : t = 1000000 := by simpa using ht
    rw [heq]
    decide

/-! ## The rest after a trip -/

/-- The time of an event, where it is one that the breaker knows of. -/
def Event.time : Event → Option Time
  | .admitted _ _ now | .started _ _ now | .tripped _ now => some now
  | _ => none

def Act.now : Act → Option Time
  | .execute _ now | .start _ _ now | .finish _ _ now _ => some now
  | _ => none

/-- The act is not a call of the worker while it has another one running. -/
def Act.alone (worker : Nat) (s : State) : Act → Bool
  | .execute w _ => w ≠ worker || (s.stations worker).running.isEmpty
  | _ => true

/-- The worker makes a call only when it has none running, and the clock does not go back. -/
def InTurn (worker : Nat) (tr : List Event) (s : State) (a : Act) : Prop :=
  a.alone worker s = true ∧ ∀ e ∈ tr, ∀ t ∈ e.time, ∀ now ∈ a.now, t ≤ now

instance (worker : Nat) (tr : List Event) (s : State) (a : Act) : Decidable (InTurn worker tr s a) :=
  inferInstanceAs (Decidable (_ ∧ _))

/-- What is known of the executor of a worker that makes one call after the other. -/
structure Rests (worker : Nat) (resetTimeout : Duration) (tr : List Event) (st : Station) : Prop where
  reset : st.breaker.resetTimeout = resetTimeout
  one : st.running.length ≤ 1
  flying : st.running ≠ [] → st.breaker.state ≠ .opened
  trips : ∀ t, .tripped worker t ∈ tr → t ≤ st.breaker.openedAt
  /-- A breaker that is not open any more was asked for a call when the rest was over. -/
  rested : st.breaker.state ≠ .opened → ∀ t, .tripped worker t ∈ tr →
    ∃ e ∈ tr, ∃ u, e.time = some u ∧ t + resetTimeout ≤ u
  shown : tr.Pairwise fun x y => ∀ t call now, x = .tripped worker t → y = .started worker call now →
    t + resetTimeout ≤ now

/-- A breaker that lets a call in is not open afterwards, and if it was its rest is over. -/
theorem beginExecute_ok {b c : CircuitBreakerExecutor} {now : Time} (h : b.beginExecute now = .ok c) :
    c.state ≠ .opened ∧ c.openedAt = b.openedAt ∧ c.resetTimeout = b.resetTimeout ∧
      (b.state = .opened → b.openedAt + b.resetTimeout ≤ now) := by
  unfold CircuitBreakerExecutor.beginExecute at h
  cases hstate : b.state with
  | closed =>
    rw [hstate] at h
    cases h
    exact ⟨by rw [hstate]; exact BreakerState.noConfusion, rfl, rfl, BreakerState.noConfusion⟩
  | halfOpen =>
    rw [hstate] at h
    dsimp only at h
    split at h
    · cases h
    · cases h
      exact ⟨BreakerState.noConfusion, rfl, rfl, BreakerState.noConfusion⟩
  | opened =>
    rw [hstate] at h
    dsimp only at h
    split at h
    · cases h
    · rename_i hrest
      cases h
      refine ⟨BreakerState.noConfusion, rfl, rfl, fun _ => ?_⟩
      exact not_not.1 fun hlt => hrest ((CircuitBreakerExecutor.since_lt_iff _ _ _).2 hlt)

section
variable {worker : Nat} {resetTimeout : Duration} {tr : List Event} {st : Station}

/-- The order of the events stays, if what comes next is no start of the worker before its rest is over. -/
theorem Rests.shown_append (h : Rests worker resetTimeout tr st) {es : List Event}
    (hone : ∀ x ∈ es, ∀ y ∈ es, ∀ t call now, x = .tripped worker t → y ≠ .started worker call now)
    (hstart : ∀ call now, .started worker call now ∈ es → ∀ t, .tripped worker t ∈ tr → t + resetTimeout ≤ now) :
    (tr ++ es).Pairwise fun x y => ∀ t call now, x = .tripped worker t → y = .started worker call now →
      t + resetTimeout ≤ now := by
  refine List.pairwise_append.2 ⟨h.shown, List.pairwise_of_forall_mem_list ?_, ?_⟩
  · intro x hx y hy t call now hxt hyt
    exact absurd hyt (hone x hx y hy t call now hxt)
  · rintro x hx y hy t call now rfl rfl
    exact hstart call now hy t hx

/-- A call goes on without a trip or a start of the worker. -/
theorem Rests.other (h : Rests worker resetTimeout tr st) {st' : Station} (hbreaker : st'.breaker = st.breaker)
    (hrunning : st'.running.length ≤ st.running.length) {es : List Event} (htrip : ∀ t, .tripped worker t ∉ es)
    (hstart : ∀ call now, .started worker call now ∉ es) : Rests worker resetTimeout (tr ++ es) st' := by
  have hmem : ∀ t, .tripped worker t ∈ tr ++ es → .tripped worker t ∈ tr := by
    intro t ht
    exact (List.mem_append.1 ht).resolve_right (htrip t)
  have hone := h.one
  constructor
  · exact hbreaker ▸ h.reset
  · omega
  · intro hne
    have hpos := List.length_pos_iff.2 hne
    exact hbreaker ▸ h.flying (List.length_pos_iff.1 (by omega))
  · exact fun t ht => hbreaker ▸ h.trips t (hmem t ht)
  · intro hstate t ht
    rw [hbreaker] at hstate
    obtain ⟨e, he, hu⟩ := h.rested hstate t (hmem t ht)
    exact ⟨e, List.mem_append_left _ he, hu⟩
  · refine h.shown_append ?_ fun call now hmem => absurd hmem (hstart call now)
    rintro x hx y _ t call now rfl
    exact absurd hx (htrip t)

theorem Rests.admitted (h : Rests worker resetTimeout tr st) (halone : st.running = []) {now : Time}
    {c : CircuitBreakerExecutor} (hbegin : st.breaker.beginExecute now = .ok c) :
    Rests worker resetTimeout (tr ++ [.admitted worker st.calls now])
      { st with breaker := c, calls := st.calls + 1, acquiring := st.calls :: st.acquiring } := by
  obtain ⟨hstate, hopened, hreset, hrest⟩ := beginExecute_ok hbegin
  have hmem : ∀ t, .tripped worker t ∈ tr ++ [.admitted worker st.calls now] → .tripped worker t ∈ tr := by simp
  have hone : (st.calls :: st.running).length ≤ 1 := by rw [halone]; exact Nat.le_refl 1
  refine ⟨hreset.trans h.reset, hone, fun _ => hstate, ?_, ?_, ?_⟩
  · intro t ht
    exact hopened ▸ h.trips t (hmem t ht)
  · intro _ t ht
    by_cases hopen : st.breaker.state = .opened
    · refine ⟨_, List.mem_append_right _ (List.mem_singleton_self _), now, rfl, ?_⟩
      have htrip := h.trips t (hmem t ht)
      have hover := hrest hopen
      rw [h.reset] at hover
      exact le_trans (add_le_add_left htrip _) hover
    · obtain ⟨e, he, hu⟩ := h.rested hopen t (hmem t ht)
      exact ⟨e, List.mem_append_left _ he, hu⟩
  · exact h.shown_append (by simp) (by simp)

theorem Rests.start (h : Rests worker resetTimeout tr st) {call : Nat} (hcall : call ∈ st.holding) {now : Time}
    (hclock : ∀ e ∈ tr, ∀ t, e.time = some t → t ≤ now) :
    Rests worker resetTimeout (tr ++ [.started worker call now])
      { st with holding := st.holding.erase call, executing := call :: st.executing } := by
  have hin : call ∈ st.running := List.mem_append_left _ (List.mem_append_right _ hcall)
  have hflying : st.breaker.state ≠ .opened := h.flying (List.ne_nil_of_mem hin)
  have hmem : ∀ t, .tripped worker t ∈ tr ++ [.started worker call now] → .tripped worker t ∈ tr := by simp
  refine ⟨h.reset, ?_, fun _ => hflying, fun t ht => h.trips t (hmem t ht), fun _ t ht => ?_, ?_⟩
  · have hlen := List.length_erase_add_one hcall
    have hone := h.one
    simp only [Station.running, List.length_append, List.length_cons] at hone ⊢
    omega
  · obtain ⟨e, he, hu⟩ := h.rested hflying t (hmem t ht)
    exact ⟨e, List.mem_append_left _ he, hu⟩
  · refine h.shown_append (by simp) fun call' now' hstart t ht => ?_
    cases List.mem_singleton.1 hstart
    obtain ⟨e, he, u, htime, hle⟩ := h.rested hflying t ht
    exact le_trans hle (hclock e he u htime)

theorem Rests.finish (h : Rests worker resetTimeout tr st) {call : Nat} (hcall : call ∈ st.executing) {now : Time}
    (hclock : ∀ e ∈ tr, ∀ t, e.time = some t → t ≤ now) (err : Option ExecError) :
    Rests worker resetTimeout
      (tr ++ .returned worker call :: if st.breaker.trips err then [.tripped worker now] else [])
      { st with breaker := st.breaker.finishExecute now err, executing := st.executing.erase call } := by
  have hin : call ∈ st.running := List.mem_append_right _ hcall
  have hflying : st.breaker.state ≠ .opened := h.flying (List.ne_nil_of_mem hin)
  -- no other call of the worker is running
  have hidle : (st.acquiring ++ st.holding ++ st.executing.erase call).length = 0 := by
    have hlen := List.length_erase_add_one hcall
    have hone := h.one
    simp only [Station.running, List.length_append] at hone ⊢
    omega
  have hnone : ¬ st.acquiring ++ st.holding ++ st.executing.erase call ≠ [] :=
    not_not.2 (List.length_eq_zero_iff.1 hidle)
  have hzero : (st.acquiring ++ st.holding ++ st.executing.erase call).length ≤ 1 := by omega
  cases htrips : st.breaker.trips err with
  | true =>
    rw [CircuitBreakerExecutor.finishExecute_of_trips htrips]
    refine ⟨h.reset, hzero, fun hno => absurd hno hnone, fun t ht => ?_, fun hno => absurd rfl hno, ?_⟩
    · simp only [if_true, List.mem_append, List.mem_cons, List.not_mem_nil, or_false, reduceCtorEq, false_or,
        Event.tripped.injEq, true_and] at ht
      rcases ht with ht | rfl
      · exact hclock _ ht t rfl
      · exact le_refl _
    · exact h.shown_append (by simp) (by simp)
  | false =>
    have hbreaker : (st.breaker.finishExecute now err).resetTimeout = st.breaker.resetTimeout ∧
        (st.breaker.finishExecute now err).openedAt = st.breaker.openedAt := by
      cases err with
      | none => exact ⟨rfl, rfl⟩
      | some e =>
        rw [CircuitBreakerExecutor.finishExecute_of_not_trips htrips]
        exact ⟨rfl, rfl⟩
    have hmem : ∀ t, .tripped worker t ∈ tr ++ [.returned worker call] → .tripped worker t ∈ tr := by simp
    refine ⟨hbreaker.1.trans h.reset, hzero, fun hno => absurd hno hnone, fun t ht => ?_, fun _ t ht => ?_, ?_⟩
    · exact hbreaker.2 ▸ h.trips t (hmem t ht)
    · obtain ⟨e, he, hu⟩ := h.rested hflying t (hmem t ht)
      exact ⟨e, List.mem_append_left _ he, hu⟩
    · exact h.shown_append (by simp) (by simp)

end

theorem Outcome.rests {worker : Nat} {resetTimeout : Duration} {tr : List Event} {s s' : State} {a : Act}
    {es : List Event} (hstep : Outcome s a s' es) (h : Rests worker resetTimeout tr (s.stations worker))
    (ha : InTurn worker tr s a) : Rests worker resetTimeout (tr ++ es) (s'.stations worker) := by
  have hsame : ∀ {es : List Event}, (∀ t, .tripped worker t ∉ es) → (∀ call now, .started worker call now ∉ es) →
      Rests worker resetTimeout (tr ++ es) (s.stations worker) :=
        fun htrip hstart => h.other rfl (Nat.le_refl _) htrip hstart
  cases hstep with
  | idle | fired | notDue => exact hsame (fun _ => List.not_mem_nil) fun _ _ => List.not_mem_nil
  | refilled | rejected => exact hsame (by simp) (by simp)
  | @admitted w now c hbegin =>
    by_cases hw : w = worker
    · subst hw
      rw [put_same]
      have halone : (s.stations w).running = [] := by simpa [Act.alone] using ha.1
      exact h.admitted halone hbegin
    · rw [put_other (Ne.symm hw)]
      exact hsame (by simp) (by simp)
  | @acquired w call l hcall hlimiter =>
    by_cases hw : w = worker
    · subst hw
      rw [put_same]
      have hlen := List.length_erase_add_one hcall
      refine h.other ?_ ?_ (by simp) (by simp)
      · rfl
      · simp only [Station.running, List.length_append, List.length_cons]
        omega
    · rw [put_other (Ne.symm hw)]
      exact hsame (by simp) (by simp)
  | @started w call now hcall =>
    by_cases hw : w = worker
    · subst hw
      rw [put_same]
      exact h.start hcall fun e he t ht => ha.2 e he t ht now rfl
    · rw [put_other (Ne.symm hw)]
      exact hsame (by simp) (by simp [Ne.symm hw])
  | @returned w call now err hcall =>
    by_cases hw : w = worker
    · subst hw
      rw [put_same]
      exact h.finish hcall (fun e he t ht => ha.2 e he t ht now rfl) err
    · rw [put_other (Ne.symm hw)]
      refine hsame ?_ ?_
      · split <;> simp [Ne.symm hw]
      · split <;> simp

/-- A worker that makes its calls one after the other does not start its base executor within `resetTimeout` of a trip
of its breaker, whatever the other workers do. -/
theorem rest_after_trip (l : TokenBucketLimiter) (rate threshold : Int) (resetTimeout : Duration) (now : Time)
    {worker : Nat} {acts : List Act}
    (hturn : machine.EveryStep (InTurn worker) (start l rate threshold resetTimeout now) acts) {tr₁ tr₂ : List Event}
    {call : Nat} {later : Time}
    (htrace : machine.trace (start l rate threshold resetTimeout now) acts = tr₁ ++ .started worker call later :: tr₂) :
    ∀ t, .tripped worker t ∈ tr₁ → t + resetTimeout ≤ later := by
  have hstart : Rests worker resetTimeout [] ⟨.new threshold resetTimeout, 0, [], [], []⟩ := by
    refine ⟨rfl, Nat.zero_le 1, fun _ => BreakerState.noConfusion, ?_, ?_, List.Pairwise.nil⟩
    · exact fun _ h => absurd h List.not_mem_nil
    · exact fun _ _ h => absurd h List.not_mem_nil
  have hrests := Machine.EveryStep.inv (M := machine) (s := start l rate threshold resetTimeout now)
    (P := fun tr s => Rests worker resetTimeout tr (s.stations worker)) hstart
    (fun _ s a h ha => (step_outcome s a).rests h ha) hturn
  have hpairs := hrests.shown
  rw [htrace] at hpairs
  intro t ht
  exact (List.pairwise_append.1 hpairs).2.2 _ ht _ List.mem_cons_self t call later rfl rfl

/-- The first failure of worker 1 trips its breaker. A second call is rejected, and a third one starts when the rest
is over. -/
theorem third_call_rested :
    let acts :=
      [.execute 1 1, .acquire 1 0, .start 1 0 2, .finish 1 0 3 (some ⟨"simulated failure", false⟩), .execute 1 4,
        .execute 1 (3 + 30 * second), .acquire 1 1, .start 1 1 (4 + 30 * second)]
    machine.trace (start thousand 1000 1 (30 * second) 0) acts =
        [.admitted 1 0 1, .acquired 1 0, .started 1 0 2, .returned 1 0, .tripped 1 3, .rejected 1,
          .admitted 1 1 (3 + 30 * second), .acquired 1 1] ++ .started 1 1 (4 + 30 * second) :: [] ∧
      3 + 30 * second ≤ 4 + 30 * second := by
  intro acts
  have htrace : machine.trace (start thousand 1000 1 (30 * second) 0) acts =
      [.admitted 1 0 1, .acquired 1 0, .started 1 0 2, .returned 1 0, .tripped 1 3, .rejected 1,
        .admitted 1 1 (3 + 30 * second), .acquired 1 1] ++ .started 1 1 (4 + 30 * second) :: [] := by decide +kernel
  have hturn : machine.EveryStep (InTurn 1) (start thousand 1000 1 (30 * second) 0) acts := by
    simp only [acts, Machine.everyStep_cons, Machine.everyStep_nil, and_true]
    refine ⟨?_, ?_, ?_, ?_, ?_, ?_, ?_, ?_⟩ <;> decide +kernel
  exact ⟨htrace, rest_after_trip thousand 1000 1 (30 * second) 0 hturn htrace 3 (by simp)⟩

end Pipeline

end Quorum
