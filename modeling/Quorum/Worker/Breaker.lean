/-
The circuit breaker in front of a worker's executor (`internal/executor/breaker.go`). `Execute` holds the lock
twice: once to let the call in and once to note its outcome, with the wrapped executor running in between. The
machine interleaves the two halves of any number of calls. Next to the breaker it keeps what the breaker is
meant to be doing: when it tripped, and whether it waits for a trial or for the end of one.

Every completion writes the breaker, whatever state its call was admitted in. A run in which none of the calls
of before a trip succeeds before the trial, or ends during it, isolates the wrapped executor; any other does not.
-/
import Quorum.Lib.Machine
import Quorum.Worker.Runner

namespace Quorum

/-- `BreakerState`; `opened` is `Open`. -/
inductive BreakerState where
  | closed
  | opened
  | halfOpen
  deriving DecidableEq, Repr

/-- `CircuitBreakerExecutor` without the wrapped executor. -/
structure CircuitBreakerExecutor where
  state : BreakerState
  failures : Int
  failureThreshold : Int
  resetTimeout : Duration
  openedAt : Time
  halfOpenTesting : Bool
  deriving DecidableEq, Repr

namespace CircuitBreakerExecutor

/-- `NewCircuitBreakerExecutor`. -/
def new (threshold : Int) (resetTimeout : Duration) : CircuitBreakerExecutor :=
  { state := .closed, failures := 0, failureThreshold := threshold, resetTimeout := resetTimeout, openedAt := 0,
    halfOpenTesting := false }

def errCircuitOpen : String := "circuit breaker is open"

/-- The first half of `Execute`: the error it returns at once, or the breaker with which the call is forwarded. -/
def beginExecute (c : CircuitBreakerExecutor) (now : Time) : Except String CircuitBreakerExecutor :=
  match c.state with
  | .opened =>
    if now - c.openedAt < c.resetTimeout then .error errCircuitOpen
    else .ok { c with state := .halfOpen, halfOpenTesting := true }
  | .halfOpen =>
    -- a trial is running
    if c.halfOpenTesting then .error errCircuitOpen else .ok { c with halfOpenTesting := true }
  | .closed => .ok c

/-- The second half of `Execute`, after the wrapped executor has answered `err`. -/
def finishExecute (c : CircuitBreakerExecutor) (now : Time) (err : Option ExecError) : CircuitBreakerExecutor :=
  let c := { c with halfOpenTesting := false }
  match err with
  | none => { c with failures := 0, state := .closed }
  | some _ =>
    let c := { c with failures := c.failures + 1 }
    if c.failures ≥ c.failureThreshold then { c with state := .opened, openedAt := now } else c

/-- `Execute` with no other call in between. -/
def execute (c : CircuitBreakerExecutor) (admitted completed : Time) (err : Option ExecError) :
    CircuitBreakerExecutor × Option String :=
  match c.beginExecute admitted with
  | .error e => (c, some e)
  | .ok c => (c.finishExecute completed err, err.map ExecError.message)

/-- The outcome is one that `finishExecute` opens the breaker for. -/
def trips (c : CircuitBreakerExecutor) (err : Option ExecError) : Bool :=
  err.isSome && decide (c.failureThreshold ≤ c.failures + 1)

/-- A call that arrives now is forwarded to the wrapped executor. -/
def Forwards (c : CircuitBreakerExecutor) (now : Time) : Prop := ∃ c', c.beginExecute now = .ok c'

theorem since_lt_iff (now opened timeout : Int) : now - opened < timeout ↔ ¬ opened + timeout ≤ now := by omega

variable {c : CircuitBreakerExecutor} {now : Time}

theorem finishExecute_of_trips {err : Option ExecError} (h : c.trips err = true) :
    c.finishExecute now err =
      { c with halfOpenTesting := false, failures := c.failures + 1, state := .opened, openedAt := now } := by
  unfold trips at h
  cases err with
  | none => cases h
  | some e =>
    simp only [Option.isSome_some, Bool.true_and, decide_eq_true_eq] at h
    exact if_pos h

theorem finishExecute_of_not_trips {e : ExecError} (h : c.trips (some e) = false) :
    c.finishExecute now (some e) = { c with halfOpenTesting := false, failures := c.failures + 1 } := by
  simp only [trips, Option.isSome_some, Bool.true_and, decide_eq_false_iff_not] at h
  exact if_neg h

/-- Without a trial that is running some later call is forwarded. -/
theorem forwards_later (h : c.halfOpenTesting = false) : ∃ later, c.Forwards later := by
  unfold Forwards beginExecute
  cases c.state with
  | closed => exact ⟨0, c, rfl⟩
  | halfOpen => exact ⟨0, _, if_neg (by rw [h]; exact Bool.false_ne_true)⟩
  | opened => exact ⟨c.openedAt + c.resetTimeout, _, if_neg fun h => (since_lt_iff _ _ _).1 h (Int.le_refl _)⟩

theorem finishExecute_halfOpenTesting (c : CircuitBreakerExecutor) (now : Time) (err : Option ExecError) :
    (c.finishExecute now err).halfOpenTesting = false := by
  cases err with
  | none => rfl
  | some e =>
    cases htrip : c.trips (some e) with
    | true => rw [finishExecute_of_trips htrip]
    | false => rw [finishExecute_of_not_trips htrip]

end CircuitBreakerExecutor

/-! ## Overlapping calls -/

namespace Circuit

/-- What the breaker is meant to be doing since its last trip. -/
inductive Phase where
  | untripped
  /-- It has tripped and no call has been forwarded since. -/
  | tripped
  /-- The first call forwarded since is running. -/
  | trial (call : Nat)
  deriving DecidableEq, Repr

/-- The phase after a call has returned. -/
def Phase.returned (call : Nat) (trips : Bool) : Phase → Phase
  | .untripped => if trips then .tripped else .untripped
  | .tripped => .tripped
  | .trial k => if k = call then (if trips then .tripped else .untripped) else .trial k

/-- The breaker with the calls the wrapped executor is busy with, by number, and next to it the times of the
trips, the phase and the last clock reading. -/
structure State where
  breaker : CircuitBreakerExecutor
  running : List Nat
  calls : Nat
  trips : List Time
  phase : Phase
  clock : Time

inductive Act where
  | arrive (now : Time)
  | answer (call : Nat) (now : Time) (err : Option ExecError)

def Act.time : Act → Time
  | .arrive now => now
  | .answer _ now _ => now

/-- What a call sees: it is forwarded, or `Execute` returns with an error or without. -/
inductive Event where
  | forwarded (call : Nat)
  | returned (err : Option String)
  deriving DecidableEq

def step (s : State) : Act → State × List Event
  | .arrive now =>
    match s.breaker.beginExecute now with
    | .error e => ({ s with clock := now }, [.returned (some e)])
    | .ok c =>
      ({ s with
          breaker := c, running := s.calls :: s.running, calls := s.calls + 1
          phase := if s.phase = .tripped then .trial s.calls else s.phase
          clock := now },
        [.forwarded s.calls])
  | .answer call now err =>
    if call ∈ s.running then
      let trips := s.breaker.trips err
      ({ s with
          breaker := s.breaker.finishExecute now err, running := s.running.erase call
          trips := if trips then now :: s.trips else s.trips
          phase := s.phase.returned call trips
          clock := now },
        [.returned (err.map ExecError.message)])
    else (s, [])

def machine : Machine State Act Event := ⟨step⟩

def start (threshold : Int) (resetTimeout : Duration) (clock : Time) : State :=
  { breaker := .new threshold resetTimeout, running := [], calls := 0, trips := [], phase := .untripped,
    clock := clock }

/-- A call that runs alone takes one or two steps of the machine. -/
theorem execute_steps (s : State) (admitted completed : Time) (err : Option ExecError) :
    ∃ rest, (rest = [] ∨ rest = [.answer s.calls completed err]) ∧
      (machine.exec s (.arrive admitted :: rest)).breaker = (s.breaker.execute admitted completed err).1 ∧
      .returned (s.breaker.execute admitted completed err).2 ∈ machine.trace s (.arrive admitted :: rest) := by
  unfold CircuitBreakerExecutor.execute
  cases hbegin : s.breaker.beginExecute admitted with
  | error e =>
    refine ⟨[], .inl rfl, ?_, ?_⟩
    · simp [machine, step, hbegin]
    · simp [machine, step, hbegin]
  | ok c =>
    refine ⟨[.answer s.calls completed err], .inr rfl, ?_, ?_⟩
    · simp [machine, step, hbegin]
    · simp [machine, step, hbegin]

/-! ## Isolation -/

/-- What the breaker is for, at one step. After a trip no call is forwarded for `resetTimeout`, then the first one is
and no other one until it has returned; a call of before the trip neither closes the breaker nor lets another call in
during the trial. -/
def Isolates (s : State) : Act → Prop
  | .arrive now =>
    (s.breaker.Forwards now → (∀ t ∈ s.trips, t + s.breaker.resetTimeout ≤ now) ∧ ∀ k, s.phase ≠ .trial k) ∧
      (s.phase = .tripped → (∀ t ∈ s.trips, t + s.breaker.resetTimeout ≤ now) → s.breaker.Forwards now)
  | .answer call now err => call ∈ s.running →
    (s.phase = .tripped → (s.breaker.finishExecute now err).state ≠ .closed) ∧
      ∀ k, s.phase = .trial k → k ≠ call →
        (s.breaker.finishExecute now err).state ≠ .closed ∧ ∀ later, ¬ (s.breaker.finishExecute now err).Forwards later

/-- The step is not the success of an earlier call before the trial, nor the end of an earlier call during it. -/
def Undisturbed (s : State) : Act → Prop
  | .arrive _ => True
  | .answer call _ err =>
    call ∈ s.running → (s.phase = .tripped → err.isSome = true) ∧ ∀ k, s.phase = .trial k → k = call

/-- A disturbed step closes the breaker or lets another call in. -/
theorem Isolates.undisturbed {s : State} {a : Act} (h : Isolates s a) : Undisturbed s a := by
  cases a with
  | arrive now => trivial
  | answer call now err =>
    intro hrun
    obtain ⟨htripped, htrial⟩ := h hrun
    constructor
    · intro hphase
      cases err with
      | none => exact absurd rfl (htripped hphase)
      | some e => rfl
    · intro k hphase
      by_contra hne
      obtain ⟨later, hlater⟩ :=
        CircuitBreakerExecutor.forwards_later (s.breaker.finishExecute_halfOpenTesting now err)
      exact (htrial k hphase hne).2 later hlater

/-- In an undisturbed run the breaker is in the state of its phase. -/
structure InPhase (s : State) : Prop where
  past : ∀ t ∈ s.trips, t ≤ s.clock
  elapsed : s.phase ≠ .tripped → ∀ t ∈ s.trips, t + s.breaker.resetTimeout ≤ s.clock
  untripped : s.phase = .untripped → s.breaker.state = .closed
  tripped : s.phase = .tripped → s.breaker.state = .opened ∧ s.breaker.failureThreshold ≤ s.breaker.failures ∧
    s.breaker.openedAt ∈ s.trips ∧ ∀ t ∈ s.trips, t ≤ s.breaker.openedAt
  trial : ∀ k, s.phase = .trial k → s.breaker.state = .halfOpen ∧ s.breaker.failureThreshold ≤ s.breaker.failures ∧
    s.breaker.halfOpenTesting = true

namespace InPhase

variable {s : State}

/-- What the breaker answers in each phase. -/
theorem forwards_iff (h : InPhase s) (now : Time) : s.breaker.Forwards now ↔
    s.phase = .untripped ∨ s.phase = .tripped ∧ s.breaker.openedAt + s.breaker.resetTimeout ≤ now := by
  unfold CircuitBreakerExecutor.Forwards CircuitBreakerExecutor.beginExecute
  cases hphase : s.phase with
  | untripped =>
    rw [h.untripped hphase]
    exact iff_of_true ⟨_, rfl⟩ (.inl rfl)
  | tripped =>
    rw [(h.tripped hphase).1]
    dsimp only
    split
    · rename_i hlt
      refine iff_of_false ?_ ?_
      · rintro ⟨c, hc⟩; cases hc
      · rintro (hc | ⟨-, hle⟩)
        · cases hc
        · exact (CircuitBreakerExecutor.since_lt_iff _ _ _).1 hlt hle
    · rename_i hlt
      rw [CircuitBreakerExecutor.since_lt_iff, not_not] at hlt
      exact iff_of_true ⟨_, rfl⟩ (.inr ⟨rfl, hlt⟩)
  | trial k =>
    obtain ⟨hstate, -, htest⟩ := h.trial k hphase
    rw [hstate, htest]
    refine iff_of_false ?_ ?_
    · rintro ⟨c, hc⟩; cases hc
    · rintro (hc | ⟨hc, -⟩) <;> cases hc

theorem isolates (h : InPhase s) {a : Act} (hclock : s.clock ≤ a.time) (hund : Undisturbed s a) : Isolates s a := by
  cases a with
  | arrive now =>
    have hclock : s.clock ≤ now := hclock
    constructor
    · intro hfwd
      obtain hphase | ⟨hphase, hle⟩ := (h.forwards_iff now).1 hfwd
      · refine ⟨fun t ht => ?_, fun k hk => by rw [hphase] at hk; cases hk⟩
        exact Int.le_trans (h.elapsed (by rw [hphase]; exact nofun) t ht) hclock
      · refine ⟨fun t ht => ?_, fun k hk => by rw [hphase] at hk; cases hk⟩
        exact Int.le_trans (Int.add_le_add_right ((h.tripped hphase).2.2.2 t ht) _) hle
    · intro hphase hreset
      exact (h.forwards_iff now).2 (.inr ⟨hphase, hreset _ (h.tripped hphase).2.2.1⟩)
  | answer call now err =>
    intro hrun
    obtain ⟨herr, hcall⟩ := hund hrun
    constructor
    · intro hphase
      have htrip : s.breaker.trips err = true := by
        have := (h.tripped hphase).2.1
        simp only [CircuitBreakerExecutor.trips, herr hphase, Bool.true_and, decide_eq_true_eq]
        omega
      rw [CircuitBreakerExecutor.finishExecute_of_trips htrip]
      exact nofun
    · intro k hphase hne
      exact absurd (hcall k hphase) hne

/-- A rejected call changes nothing. -/
theorem later (h : InPhase s) {now : Time} (hclock : s.clock ≤ now) : InPhase { s with clock := now } :=
  ⟨fun t ht => Int.le_trans (h.past t ht) hclock, fun hp t ht => Int.le_trans (h.elapsed hp t ht) hclock,
    h.untripped, h.tripped, h.trial⟩

theorem arrive (h : InPhase s) {now : Time} (hclock : s.clock ≤ now) : InPhase (step s (.arrive now)).1 := by
  cases hphase : s.phase with
  | untripped =>
    have hbegin : s.breaker.beginExecute now = .ok s.breaker := by
      unfold CircuitBreakerExecutor.beginExecute; rw [h.untripped hphase]
    have hlater := h.later hclock
    simp only [step, hbegin, hphase] at hlater ⊢
    exact ⟨hlater.past, hlater.elapsed, hlater.untripped, nofun, nofun⟩
  | tripped =>
    obtain ⟨hstate, hfail, hmem, hle⟩ := h.tripped hphase
    by_cases hearly : now - s.breaker.openedAt < s.breaker.resetTimeout
    · have hbegin : s.breaker.beginExecute now = .error CircuitBreakerExecutor.errCircuitOpen := by
        unfold CircuitBreakerExecutor.beginExecute; rw [hstate]; exact if_pos hearly
      simp only [step, hbegin]
      exact h.later hclock
    · have hbegin : s.breaker.beginExecute now =
          .ok { s.breaker with state := .halfOpen, halfOpenTesting := true } := by
        unfold CircuitBreakerExecutor.beginExecute; rw [hstate]; exact if_neg hearly
      simp only [step, hbegin, hphase, if_true]
      rw [CircuitBreakerExecutor.since_lt_iff, not_not] at hearly
      exact ⟨(h.later hclock).past, fun _ t ht => Int.le_trans (Int.add_le_add_right (hle t ht) _) hearly, nofun, nofun,
        fun _ _ => ⟨rfl, hfail, rfl⟩⟩
  | trial k =>
    obtain ⟨hstate, hfail, htest⟩ := h.trial k hphase
    have hbegin : s.breaker.beginExecute now = .error CircuitBreakerExecutor.errCircuitOpen := by
      unfold CircuitBreakerExecutor.beginExecute; rw [hstate]; exact if_pos htest
    simp only [step, hbegin]
    exact h.later hclock

/-- A trip at this moment starts the wait. -/
theorem trip {now : Time} {running : List Nat} {err : Option ExecError} (h : InPhase s) (hclock : s.clock ≤ now)
    (htrip : s.breaker.trips err = true) :
    InPhase { s with
      breaker := s.breaker.finishExecute now err
      running := running
      trips := now :: s.trips
      phase := .tripped
      clock := now } := by
  have hthreshold : s.breaker.failureThreshold ≤ s.breaker.failures + 1 := by
    unfold CircuitBreakerExecutor.trips at htrip
    simp only [Bool.and_eq_true, decide_eq_true_eq] at htrip
    exact htrip.2
  have hle : ∀ t ∈ now :: s.trips, t ≤ now := by
    intro t ht
    obtain rfl | ht := List.mem_cons.1 ht
    · exact Int.le_refl _
    · exact Int.le_trans (h.past t ht) hclock
  rw [CircuitBreakerExecutor.finishExecute_of_trips htrip]
  exact ⟨hle, fun hp => absurd rfl hp, nofun, fun _ => ⟨rfl, hthreshold, List.mem_cons_self, hle⟩, nofun⟩

theorem answer (h : InPhase s) {call : Nat} {now : Time} {err : Option ExecError} (hclock : s.clock ≤ now)
    (hund : Undisturbed s (.answer call now err)) : InPhase (step s (.answer call now err)).1 := by
  by_cases hrun : call ∈ s.running
  · obtain ⟨herr, hcall⟩ := hund hrun
    simp only [step, hrun, if_true]
    have hlater := h.later hclock
    -- the trial is the only call that returns during the trial
    have hafter : s.phase.returned call (s.breaker.trips err) =
        if s.breaker.trips err = true ∨ s.phase = .tripped then .tripped else .untripped := by
      cases hphase : s.phase with
      | untripped => simp [Phase.returned]
      | tripped => simp [Phase.returned]
      | trial k =>
        rw [hcall k hphase]
        simp [Phase.returned]
    rw [hafter]
    by_cases htrip : s.breaker.trips err = true
    · simp only [htrip, if_true, true_or]
      exact h.trip hclock htrip
    · -- what does not trip the breaker closes it, or is a failure below the threshold
      have hnot : s.phase ≠ .tripped := by
        intro hphase
        refine htrip ?_
        have := (h.tripped hphase).2.1
        simp only [CircuitBreakerExecutor.trips, herr hphase, Bool.true_and, decide_eq_true_eq]
        omega
      simp only [htrip, hnot, or_self, if_false, Bool.false_eq_true]
      refine ⟨hlater.past, ?_, ?_, nofun, nofun⟩
      · intro _ t ht
        refine Int.le_trans (Int.le_of_eq ?_) (hlater.elapsed hnot t ht)
        cases err with
        | none => rfl
        | some e => rw [CircuitBreakerExecutor.finishExecute_of_not_trips (Bool.eq_false_iff.2 htrip)]
      · intro _
        cases err with
        | none => rfl
        | some e =>
          rw [CircuitBreakerExecutor.finishExecute_of_not_trips (Bool.eq_false_iff.2 htrip)]
          cases hphase : s.phase with
          | untripped => exact h.untripped hphase
          | tripped => exact absurd hphase hnot
          | trial k =>
            refine absurd ?_ htrip
            have := (h.trial k hphase).2.1
            simp only [CircuitBreakerExecutor.trips, Option.isSome_some, Bool.true_and, decide_eq_true_eq]
            omega
  · simpa only [step, hrun, if_false] using h

theorem start (threshold : Int) (resetTimeout : Duration) (clock : Time) :
    InPhase (start threshold resetTimeout clock) :=
  ⟨nofun, nofun, fun _ => rfl, nofun, nofun⟩

end InPhase

/-- Under clock readings that do not go back, the breaker isolates the wrapped executor in exactly the undisturbed
runs. -/
theorem isolates_iff_undisturbed (threshold : Int) (resetTimeout : Duration) (clock : Time) (acts : List Act)
    (hclock : machine.EveryStep (fun _ s a => s.clock ≤ a.time) (start threshold resetTimeout clock) acts) :
    machine.EveryStep (fun _ s a => Isolates s a) (start threshold resetTimeout clock) acts ↔
      machine.EveryStep (fun _ s a => Undisturbed s a) (start threshold resetTimeout clock) acts := by
  constructor
  · intro h pre a post heq
    exact (h pre a post heq).undisturbed
  · intro h
    have hboth : machine.EveryStep (fun _ s a => s.clock ≤ a.time ∧ Undisturbed s a)
        (start threshold resetTimeout clock) acts :=
      fun pre a post heq => ⟨hclock pre a post heq, h pre a post heq⟩
    refine Machine.EveryStep.imp (P := fun _ s => InPhase s) (InPhase.start threshold resetTimeout clock) ?_ ?_ hboth
    · rintro - s a hs ⟨hle, hund⟩
      cases a with
      | arrive now => exact hs.arrive hle
      | answer call now err => exact hs.answer hle hund
    · rintro - s a hs ⟨hle, hund⟩
      exact hs.isolates hle hund

/-- Two failures trip the breaker at time 3; a call at time 10 is rejected, the one at time 40 is the trial. -/
theorem isolates_two_failures : machine.EveryStep (fun _ s a => Isolates s a) (start 2 30 0)
    [.arrive 0, .answer 0 1 (some ⟨"refused", false⟩), .arrive 2, .answer 1 3 (some ⟨"refused", false⟩),
      .arrive 10, .arrive 40, .arrive 41, .answer 2 42 none] := by
  refine (isolates_iff_undisturbed 2 30 0 _ ?_).2 ?_
  · simp only [Machine.everyStep_cons, Machine.everyStep_nil, and_true]
    decide
  · simp only [Machine.everyStep_cons, Machine.everyStep_nil, and_true]
    refine ⟨trivial, fun _ => ⟨fun _ => rfl, fun k hk => ?_⟩, trivial, fun _ => ⟨fun _ => rfl, fun k hk => ?_⟩,
      trivial, trivial, trivial, fun _ => ⟨fun hp => ?_, fun k hk => ?_⟩⟩
    · cases hk
    · cases hk
    · cases hp
    · cases hk; rfl

/-- Two calls overlap; the first one fails and trips the breaker at time 2, the second one succeeds and closes it, and a
call at time 4 is forwarded. -/
theorem closed_by_earlier_call :
    let acts : List Act := [.arrive 0, .arrive 1, .answer 0 2 (some ⟨"refused", false⟩), .answer 1 3 none]
    (machine.exec (start 1 30 0) acts).trips = [2] ∧
      machine.trace (machine.exec (start 1 30 0) acts) [.arrive 4] = [.forwarded 2] ∧
      ¬ machine.EveryStep (fun _ s a => Isolates s a) (start 1 30 0) acts := by
  refine ⟨by decide, by decide, fun h => ?_⟩
  have hlast := h [.arrive 0, .arrive 1, .answer 0 2 (some ⟨"refused", false⟩)] (.answer 1 3 none) [] rfl
  exact (hlast (by decide)).1 (by decide) rfl

end Circuit

end Quorum
