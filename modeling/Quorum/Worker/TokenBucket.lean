/-
The limiter in front of the executors (`internal/executor/token_bucket.go`): a channel of tokens that starts full, a
goroutine that sends a token at each tick of its ticker unless the channel is full, and callers that each take a token
or wait for one. The machine interleaves the ticks with the calls of any number of callers.

A tick that finds the bucket full is lost, so the tokens are a walk under the ceiling `burst`. Its rule for windows is
the rate bound, and the bound is all there is to the limiter: every sequence of ticks and acquires that keeps it is
one of its runs.
-/
import Mathlib.Algebra.Order.Group.Int
import Quorum.Job.Basic
import Quorum.Lib.CappedWalk
import Quorum.Lib.Chan
import Quorum.Lib.Machine

namespace Quorum

/-- `time.Millisecond`. -/
def millisecond : Duration := 1000000

/-- `TokenBucketLimiter`, and the interval of the ticker that its goroutine ranges over. -/
structure TokenBucketLimiter where
  tokens : Chan Unit
  interval : Duration

namespace TokenBucketLimiter

/-- The default for a rate or a burst that is not positive. -/
def orOne (n : Int) : Int := if n ≤ 0 then 1 else n

/-- The interval the goroutine computes. A rate of more than one a nanosecond would make it zero. -/
def tickInterval (rate : Int) : Duration :=
  let interval := second.tdiv rate
  if interval ≤ 0 then millisecond else interval

/-- The loop of the constructor; none if one of its sends waits. -/
def fill : Nat → Chan Unit → Option (Chan Unit)
  | 0, tokens => some tokens
  | n + 1, tokens => (tokens.send ()).bind (fill n)

/-- `NewTokenBucketLimiter`; none if it does not return. -/
def new (rate burst : Int) : Option TokenBucketLimiter :=
  let rate := orOne rate
  let burst := orOne burst
  (fill burst.toNat (.make burst.toNat)).map fun tokens => ⟨tokens, tickInterval rate⟩

/-- The body of the goroutine's loop. -/
def refill (l : TokenBucketLimiter) : TokenBucketLimiter := { l with tokens := l.tokens.trySend () }

/-- The receive of `Acquire`; none while the bucket is empty and the caller waits. -/
def acquire (l : TokenBucketLimiter) : Option TokenBucketLimiter :=
  l.tokens.tryRecv.map fun p => { l with tokens := p.2 }

/-- How many tokens there are. -/
def count (l : TokenBucketLimiter) : Nat := l.tokens.buf.length

/-! ## The constructor -/

theorem one_le_orOne (n : Int) : 1 ≤ orOne n := by
  unfold orOne
  split <;> omega

/-- `time.NewTicker` panics on an interval that is not positive. -/
theorem tickInterval_pos (rate : Int) : 0 < tickInterval rate := by
  unfold tickInterval
  dsimp only
  split
  · decide
  · rename_i hpos
    exact Int.not_le.1 hpos

/-- As long as there is room none of the sends waits. -/
theorem fill_spec (n : Nat) (tokens : Chan Unit) (h : tokens.buf.length + n ≤ tokens.cap) :
    ∃ full, fill n tokens = some full ∧ full.buf.length = tokens.buf.length + n ∧ full.cap = tokens.cap := by
  induction n generalizing tokens with
  | zero => exact ⟨tokens, rfl, rfl, rfl⟩
  | succ n ih =>
    obtain ⟨next, hsend, hbuf, hcap⟩ := Chan.send_of_lt (x := ()) (show tokens.buf.length < tokens.cap by omega)
    have hlen : next.buf.length = tokens.buf.length + 1 := by
      rw [hbuf, List.length_append, List.length_singleton]
    obtain ⟨full, hfill, hfull, hcap'⟩ := ih next (by omega)
    refine ⟨full, ?_, by omega, by omega⟩
    rw [fill, hsend]
    exact hfill

/-- The constructor returns, with a full bucket. -/
theorem new_spec (rate burst : Int) :
    ∃ l, new rate burst = some l ∧ (l.count : Int) = orOne burst ∧ (l.tokens.cap : Int) = orOne burst := by
  have hone := one_le_orOne burst
  obtain ⟨tokens, hfill, hlen, hcap⟩ := fill_spec (orOne burst).toNat (.make (orOne burst).toNat) (Nat.zero_add _).le
  have hlen : tokens.buf.length = (orOne burst).toNat := hlen.trans (Nat.zero_add _)
  have hcap : tokens.cap = (orOne burst).toNat := hcap
  refine ⟨⟨tokens, tickInterval (orOne rate)⟩, ?_, ?_, ?_⟩
  · unfold new
    dsimp only
    rw [hfill]
    rfl
  · show (tokens.buf.length : Int) = orOne burst
    omega
  · show (tokens.cap : Int) = orOne burst
    omega

/-! ## A tick and a receive -/

theorem count_refill (l : TokenBucketLimiter) : l.refill.count = min l.tokens.cap (l.count + 1) := by
  have hle := l.tokens.le_cap
  unfold count refill
  rw [Chan.buf_trySend]
  split
  · rw [List.length_append, List.length_singleton]
    omega
  · omega

theorem cap_refill (l : TokenBucketLimiter) : l.refill.tokens.cap = l.tokens.cap := Chan.cap_trySend ..

theorem acquire_eq_none {l : TokenBucketLimiter} : l.acquire = none ↔ l.count = 0 := by
  unfold acquire count
  rw [Option.map_eq_none_iff, Chan.tryRecv_eq_none, List.length_eq_zero_iff]

theorem acquire_eq_some {l l' : TokenBucketLimiter} (h : l.acquire = some l') :
    l.count = l'.count + 1 ∧ l'.tokens.cap = l.tokens.cap := by
  unfold acquire at h
  obtain ⟨⟨x, tokens⟩, hrecv, rfl⟩ := Option.map_eq_some_iff.1 h
  refine ⟨?_, Chan.tryRecv_cap hrecv⟩
  unfold count
  rw [Chan.tryRecv_eq_some hrecv, List.length_cons]

end TokenBucketLimiter

namespace TokenBucket

open TokenBucketLimiter

/-- The limiter, and the callers that are in `Acquire`. -/
structure State where
  limiter : TokenBucketLimiter
  waiting : List Nat

/-- A tick of the ticker, a call of `Acquire`, and the receive that completes one. Which of the callers gets a token
is open. -/
inductive Act where
  | tick
  | call (caller : Nat)
  | receive (caller : Nat)
  deriving DecidableEq

/-- What is counted. -/
inductive Event where
  | ticked
  | acquired (caller : Nat)
  deriving DecidableEq

/-- A receive of a caller that is not in `Acquire`, or that has to wait, does nothing. -/
def step (s : State) : Act → State × List Event
  | .tick => ({ s with limiter := s.limiter.refill }, [.ticked])
  | .call caller => ({ s with waiting := s.waiting ++ [caller] }, [])
  | .receive caller =>
    if caller ∈ s.waiting then
      match s.limiter.acquire with
      | none => (s, [])
      | some l => (⟨l, s.waiting.erase caller⟩, [.acquired caller])
    else (s, [])

def machine : Machine State Act Event := ⟨step⟩

def start (l : TokenBucketLimiter) : State := ⟨l, []⟩

def Event.isAcquired : Event → Bool
  | .ticked => false
  | .acquired _ => true

/-- How many acquires there are among the events. -/
def acquires (es : List Event) : Nat := es.countP Event.isAcquired

/-- How many ticks there are among the steps. -/
def ticks (acts : List Act) : Nat := acts.count .tick

/-- What an event adds to the bucket, but for the ceiling. -/
def Event.gain : Event → Int
  | .ticked => 1
  | .acquired _ => -1

/-! ## What a step does -/

/-- The limiter after a step, by the event of the step. -/
inductive Outcome (s : State) : Act → State × List Event → Prop where
  | ticked : Outcome s .tick ({ s with limiter := s.limiter.refill }, [.ticked])
  | quiet (a : Act) (h : a ≠ .tick) (waiting : List Nat) : Outcome s a ({ s with waiting := waiting }, [])
  | acquired (caller : Nat) (l : TokenBucketLimiter) (h : s.limiter.acquire = some l) (waiting : List Nat) :
      Outcome s (.receive caller) (⟨l, waiting⟩, [.acquired caller])

theorem step_outcome (s : State) (a : Act) : Outcome s a (step s a) := by
  cases a with
  | tick => exact .ticked
  | call caller => exact .quiet _ (fun h => by cases h) _
  | receive caller =>
    unfold step
    dsimp only
    split
    · split
      · exact .quiet _ (fun h => by cases h) s.waiting
      · rename_i l hl
        exact .acquired caller l hl _
    · exact .quiet _ (fun h => by cases h) s.waiting

/-- A caller in `Acquire` can take a token that is there. -/
theorem receive_of_pos {s : State} {caller : Nat} (hcaller : caller ∈ s.waiting) (hpos : 0 < s.limiter.count) :
    (step s (.receive caller)).2 = [.acquired caller] := by
  unfold step
  dsimp only
  rw [if_pos hcaller]
  cases hl : s.limiter.acquire with
  | none => exact absurd (acquire_eq_none.1 hl) hpos.ne'
  | some l => rfl

/-! ## The tokens are a walk under the ceiling -/

/-- After these events the bucket holds what the walk says, and it has never said less than nothing. -/
structure Tracks (burst : Int) (es : List Event) (s : State) : Prop where
  cap : (s.limiter.tokens.cap : Int) = burst
  count : (s.limiter.count : Int) = CappedWalk.level Event.gain burst es
  nonneg : ∀ pre, pre <+: es → 0 ≤ CappedWalk.level Event.gain burst pre

section
variable {burst : Int} {es : List Event} {s : State}

theorem Tracks.snoc (h : Tracks burst es s) (e : Event) {s' : State}
    (hcap : s'.limiter.tokens.cap = s.limiter.tokens.cap)
    (hcount : (s'.limiter.count : Int) = min (s.limiter.tokens.cap : Int) (s.limiter.count + e.gain)) :
    Tracks burst (es ++ [e]) s' := by
  rw [h.cap, h.count, ← CappedWalk.level_snoc] at hcount
  refine ⟨by rw [hcap, h.cap], hcount, fun pre hpre => ?_⟩
  obtain rfl | hpre := List.prefix_concat_iff.1 hpre
  · rw [← hcount]
    exact Int.natCast_nonneg _
  · exact h.nonneg pre hpre

theorem Tracks.step (h : Tracks burst es s) (a : Act) : Tracks burst (es ++ (step s a).2) (step s a).1 := by
  have hstep := step_outcome s a
  generalize TokenBucket.step s a = p at hstep
  cases hstep with
  | ticked =>
    -- the send into a full bucket is the walk at its ceiling
    refine h.snoc .ticked (cap_refill _) ?_
    rw [count_refill]
    simp only [Event.gain]
    omega
  | quiet a ha waiting =>
    rw [List.append_nil]
    exact ⟨h.cap, h.count, h.nonneg⟩
  | acquired caller l hl waiting =>
    -- a token less is below the ceiling, and it was there to be taken
    obtain ⟨hcount, hcap⟩ := acquire_eq_some hl
    have hle : s.limiter.count ≤ s.limiter.tokens.cap := s.limiter.tokens.le_cap
    refine h.snoc (.acquired caller) hcap ?_
    simp only [Event.gain]
    omega

theorem tracks_exec {l : TokenBucketLimiter} (hcount : (l.count : Int) = burst) (hcap : (l.tokens.cap : Int) = burst)
    (acts : List Act) : Tracks burst (machine.trace (start l) acts) (machine.exec (start l) acts) := by
  refine Machine.EveryStep.inv (M := machine) (C := fun _ _ _ => True) (P := fun es s => Tracks burst es s) ?_
    (fun _ _ a h _ => h.step a) fun _ _ _ _ => trivial
  refine ⟨hcap, hcount, fun pre hpre => ?_⟩
  rw [List.prefix_nil.1 hpre]
  show 0 ≤ burst
  omega

end

/-! ## Counting in windows -/

theorem acquires_append (es fs : List Event) : acquires (es ++ fs) = acquires es + acquires fs := List.countP_append

theorem total_gain (es : List Event) : CappedWalk.total Event.gain es = es.count .ticked - acquires es := by
  induction es using List.reverseRecOn with
  | nil => rfl
  | append_singleton es e ih =>
    rw [CappedWalk.total_snoc, ih, List.count_append, acquires_append]
    cases e with
    | ticked =>
      show (es.count .ticked : Int) - acquires es + 1 = ((es.count .ticked + 1 : Nat) : Int) -
        ((acquires es + 0 : Nat) : Int)
      omega
    | acquired caller =>
      show (es.count .ticked : Int) - acquires es + -1 = ((es.count .ticked + 0 : Nat) : Int) -
        ((acquires es + 1 : Nat) : Int)
      omega

theorem count_ticked_step (s : State) (a : Act) : (step s a).2.count .ticked = ticks [a] := by
  have hstep := step_outcome s a
  generalize step s a = p at hstep
  cases hstep with
  | ticked => rfl
  | quiet a ha waiting => simp [ticks, ha]
  | acquired caller l hl waiting => rfl

theorem count_ticked_trace (s : State) (acts : List Act) : (machine.trace s acts).count .ticked = ticks acts := by
  induction acts generalizing s with
  | nil => rfl
  | cons a acts ih =>
    rw [Machine.trace_cons, List.count_append, ih]
    show (step s a).2.count .ticked + ticks acts = ([a] ++ acts).count .tick
    rw [count_ticked_step, List.count_append]
    rfl

/-- In no window are there more acquires than the burst and the ticks in it. -/
def RateBound (burst : Int) (es : List Event) : Prop :=
  ∀ window, window <:+: es → (acquires window : Int) ≤ burst + window.count .ticked

theorem rateBound_iff {burst : Int} {es : List Event} :
    RateBound burst es ↔ ∀ pre, pre <+: es → 0 ≤ CappedWalk.level Event.gain burst pre := by
  rw [CappedWalk.le_levels_iff]
  refine forall_congr' fun window => forall_congr' fun _ => ?_
  rw [total_gain]
  omega

/-- The rate bound, and the bound on the tokens. The window is what follows any beginning of a run. -/
theorem acquires_le_burst_add_ticks (rate burst : Int) :
    ∃ l, TokenBucketLimiter.new rate burst = some l ∧ ∀ pre window : List Act,
      (acquires (machine.trace (machine.exec (start l) pre) window) : Int) ≤ orOne burst + ticks window ∧
        ((machine.exec (start l) pre).limiter.count : Int) ≤ orOne burst := by
  obtain ⟨l, hnew, hcount, hcap⟩ := new_spec rate burst
  refine ⟨l, hnew, fun pre window => ⟨?_, ?_⟩⟩
  · have hrun := rateBound_iff.2 (tracks_exec hcount hcap (pre ++ window)).nonneg
    rw [Machine.trace_append] at hrun
    rw [← count_ticked_trace (machine.exec (start l) pre)]
    exact hrun _ (List.suffix_append _ _).isInfix
  · rw [← (tracks_exec hcount hcap pre).cap]
    exact Int.ofNat_le.2 (Chan.le_cap _)

/-! ## The bound is exact -/

theorem RateBound.init {burst : Int} {es : List Event} {e : Event} (h : RateBound burst (es ++ [e])) :
    RateBound burst es :=
  fun window hwindow => h window (hwindow.trans (List.prefix_append _ _).isInfix)

/-- An acquire that keeps the bound finds a token. -/
theorem RateBound.level_pos {burst : Int} {es : List Event} {caller : Nat}
    (h : RateBound burst (es ++ [.acquired caller])) : 1 ≤ CappedWalk.level Event.gain burst es := by
  refine CappedWalk.le_level_iff.2 fun late hlate => ?_
  have hwindow := h (late ++ [.acquired caller]) (List.suffix_concat_iff.2 (.inr ⟨late, rfl, hlate⟩)).isInfix
  rw [acquires_append, List.count_append] at hwindow
  have hone : acquires [.acquired caller] = 1 := rfl
  have hzero : [Event.acquired caller].count .ticked = 0 := rfl
  rw [total_gain]
  omega

theorem trace_call_receive {s : State} (caller : Nat) (hpos : 0 < s.limiter.count) :
    machine.trace s [.call caller, .receive caller] = [.acquired caller] := by
  have hcaller : caller ∈ s.waiting ++ [caller] := List.mem_append_right _ (List.mem_singleton_self _)
  rw [Machine.trace_cons, Machine.trace_cons, Machine.trace_nil, List.append_nil]
  exact receive_of_pos (s := (step s (.call caller)).1) hcaller hpos

/-- The sequences of ticks and acquires that the limiter can show are those within the bound: a caller waits only if
its acquire would break it. -/
theorem trace_iff_rateBound (rate burst : Int) :
    ∃ l, TokenBucketLimiter.new rate burst = some l ∧ ∀ es : List Event,
      (∃ acts, machine.trace (start l) acts = es) ↔ RateBound (orOne burst) es := by
  obtain ⟨l, hnew, hcount, hcap⟩ := new_spec rate burst
  refine ⟨l, hnew, fun es => ⟨?_, fun h => ?_⟩⟩
  · rintro ⟨acts, rfl⟩
    exact rateBound_iff.2 (tracks_exec hcount hcap acts).nonneg
  · induction es using List.reverseRecOn with
    | nil => exact ⟨[], rfl⟩
    | append_singleton es e ih =>
      obtain ⟨acts, rfl⟩ := ih h.init
      cases e with
      | ticked => exact ⟨acts ++ [.tick], Machine.trace_append ..⟩
      | acquired caller =>
        have hpos := h.level_pos
        rw [← (tracks_exec hcount hcap acts).count] at hpos
        refine ⟨acts ++ [.call caller, .receive caller], ?_⟩
        rw [Machine.trace_append, trace_call_receive caller (by omega)]

/-- One tick is enough for any caller that waits. -/
theorem waiting_served (rate burst : Int) :
    ∃ l, TokenBucketLimiter.new rate burst = some l ∧ ∀ acts :
      List Act, ∀ caller ∈ (machine.exec (start l) acts).waiting, machine.trace (machine.exec (start l) acts)
        [.tick, .receive caller] = [.ticked, .acquired caller] := by
  obtain ⟨l, hnew, hcount, hcap⟩ := new_spec rate burst
  refine ⟨l, hnew, fun acts caller hcaller => ?_⟩
  have hone := one_le_orOne burst
  have hcap := (tracks_exec hcount hcap acts).cap
  have hpos : 0 < (machine.exec (start l) acts).limiter.refill.count := by
    rw [count_refill]
    omega
  rw [Machine.trace_cons, Machine.trace_cons, Machine.trace_nil, List.append_nil]
  exact congrArg _ (receive_of_pos hcaller hpos)

end TokenBucket

end Quorum
