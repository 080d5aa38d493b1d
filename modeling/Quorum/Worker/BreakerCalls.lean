/-
The circuit breaker when no two calls overlap. It has a state, a failure count, an opening time and a trial flag, and
the count is not reset when it opens. What it shows is what a machine with two states shows: closed, with the failures
in a row, or open since the failure that tripped it. The first call after the timeout is a trial.
-/
import Quorum.Worker.Breaker

namespace Quorum

namespace BreakerCalls

/-- A call that no other one overlaps: when it arrives and, if it is forwarded, what the wrapped executor answers and
when. -/
structure Call where
  arrived : Time
  completed : Time
  err : Option ExecError

/-- What is seen of a call: whether it was forwarded, and what `Execute` returned. -/
structure Answer where
  forwarded : Bool
  err : Option String
  deriving DecidableEq

/-- The breaker, one `Execute` after the other. -/
def breaker : Machine CircuitBreakerExecutor Call Answer :=
  ⟨fun c call =>
    ((c.execute call.arrived call.completed call.err).1,
      [⟨(c.beginExecute call.arrived).toBool, (c.execute call.arrived call.completed call.err).2⟩])⟩

/-! ## What it is for -/

/-- The reference: closed after so many failures in a row, or open since a time. -/
inductive Reference where
  | closed (failures : Int)
  | opened (since : Time)
  deriving DecidableEq

namespace Reference

/-- An open one forwards nothing until the timeout has elapsed. -/
def forwards (timeout : Duration) (now : Time) : Reference → Bool
  | .closed _ => true
  | .opened since => decide (since + timeout ≤ now)

/-- After a call that was forwarded: a success closes it with a zero count; the failure that makes the count reach the
threshold opens it, and so does the failure of a trial, from the time at which it completed. -/
def returned (threshold : Int) (now : Time) (err : Option ExecError) (r : Reference) : Reference :=
  match err, r with
  | none, _ => .closed 0
  | some _, .closed failures => if failures + 1 = threshold then .opened now else .closed (failures + 1)
  | some _, .opened _ => .opened now

def step (threshold : Int) (timeout : Duration) (r : Reference) (call : Call) : Reference × List Answer :=
  if r.forwards timeout call.arrived then
    (r.returned threshold call.completed call.err, [⟨true, call.err.map ExecError.message⟩])
  else (r, [⟨false, some CircuitBreakerExecutor.errCircuitOpen⟩])

end Reference

def reference (threshold : Int) (timeout : Duration) : Machine Reference Call Answer :=
  ⟨Reference.step threshold timeout⟩

/-! ## The four variables -/

/-- What the variables of the breaker are between two calls. An open breaker keeps the count it tripped with, or a
greater one, so the failure of a trial is at the threshold as well. -/
def Reference.Shows (c : CircuitBreakerExecutor) : Reference → Prop
  | .closed failures => c.state = .closed ∧ c.failures = failures ∧ failures < c.failureThreshold
  | .opened since => c.state = .opened ∧ c.openedAt = since ∧ c.failureThreshold ≤ c.failures

/-- What they are while a call is forwarded. -/
def Reference.Runs (c : CircuitBreakerExecutor) : Reference → Prop
  | .closed failures => c.state = .closed ∧ c.failures = failures ∧ failures < c.failureThreshold
  | .opened _ => c.failureThreshold ≤ c.failures

/-- The breaker is configured so, and its variables are as the state of the reference says. -/
structure Refines (threshold : Int) (timeout : Duration) (Vars : CircuitBreakerExecutor → Reference → Prop)
    (c : CircuitBreakerExecutor) (r : Reference) : Prop where
  threshold_eq : c.failureThreshold = threshold
  timeout_eq : c.resetTimeout = timeout
  vars : Vars c r

section
variable {threshold : Int} {timeout : Duration} {c : CircuitBreakerExecutor} {r : Reference}

/-- A call is rejected, or it is forwarded and the breaker waits for its end. -/
theorem Refines.beginExecute (h : Refines threshold timeout Reference.Shows c r) (now : Time) :
    (r.forwards timeout now = false ∧ c.beginExecute now = .error CircuitBreakerExecutor.errCircuitOpen) ∨
      r.forwards timeout now = true ∧ ∃ c', c.beginExecute now = .ok c' ∧
        Refines threshold timeout Reference.Runs c' r := by
  have hvars := h.vars
  unfold CircuitBreakerExecutor.beginExecute
  cases r with
  | closed failures =>
    rw [hvars.1]
    exact .inr ⟨rfl, c, rfl, h.threshold_eq, h.timeout_eq, hvars⟩
  | opened since =>
    obtain ⟨hstate, hsince, hfailures⟩ := hvars
    rw [hstate, hsince, h.timeout_eq]
    dsimp only
    by_cases hearly : now - since < timeout
    · refine .inl ⟨?_, if_pos hearly⟩
      exact decide_eq_false ((CircuitBreakerExecutor.since_lt_iff now since timeout).1 hearly)
    · refine .inr ⟨?_, _, if_neg hearly, h.threshold_eq, rfl, hfailures⟩
      rw [CircuitBreakerExecutor.since_lt_iff, not_not] at hearly
      exact decide_eq_true hearly

/-- The end of a forwarded call. -/
theorem Refines.finishExecute (hthreshold : 1 ≤ threshold) (h : Refines threshold timeout Reference.Runs c r)
    (now : Time) (err : Option ExecError) :
    Refines threshold timeout Reference.Shows (c.finishExecute now err) (r.returned threshold now err) := by
  have hconfig := h.threshold_eq
  cases err with
  | none => exact ⟨hconfig, h.timeout_eq, rfl, rfl, by rw [← hconfig] at hthreshold; exact hthreshold⟩
  | some e =>
    have hvars := h.vars
    have htrips : c.trips (some e) = decide (threshold ≤ c.failures + 1) := by
      unfold CircuitBreakerExecutor.trips
      rw [hconfig]
      rfl
    cases r with
    | opened since =>
      have hat : threshold ≤ c.failures := by rw [← hconfig]; exact hvars
      rw [CircuitBreakerExecutor.finishExecute_of_trips (htrips.trans (decide_eq_true (by omega)))]
      refine ⟨hconfig, h.timeout_eq, rfl, rfl, ?_⟩
      dsimp only
      omega
    | closed failures =>
      obtain ⟨hstate, hfailures, hlt⟩ := hvars
      rw [hconfig] at hlt
      unfold Reference.returned
      dsimp only
      split
      · rename_i heq
        rw [CircuitBreakerExecutor.finishExecute_of_trips (htrips.trans (decide_eq_true (by omega)))]
        refine ⟨hconfig, h.timeout_eq, rfl, rfl, ?_⟩
        dsimp only
        omega
      · rename_i hne
        rw [CircuitBreakerExecutor.finishExecute_of_not_trips (htrips.trans (decide_eq_false (by omega)))]
        refine ⟨hconfig, h.timeout_eq, hstate, ?_, ?_⟩
        · show c.failures + 1 = failures + 1
          rw [hfailures]
        · show failures + 1 < c.failureThreshold
          omega

theorem Refines.step (hthreshold : 1 ≤ threshold) (h : Refines threshold timeout Reference.Shows c r) (call : Call) :
    Refines threshold timeout Reference.Shows (breaker.step c call).1 (r.step threshold timeout call).1 ∧
      (breaker.step c call).2 = (r.step threshold timeout call).2 := by
  simp only [breaker, Reference.step, CircuitBreakerExecutor.execute]
  rcases h.beginExecute call.arrived with ⟨hrejects, hbegin⟩ | ⟨hforwards, c', hbegin, hruns⟩
  · rw [hrejects, hbegin]
    exact ⟨h, rfl⟩
  · rw [hforwards, hbegin]
    exact ⟨hruns.finishExecute hthreshold call.completed call.err, rfl⟩

end

/-- One call at a time, the breaker forwards and rejects exactly the calls that the reference does, and returns what
it returns. -/
theorem breaker_trace_eq_reference (threshold : Int) (hthreshold : 1 ≤ threshold) (timeout : Duration)
    (calls : List Call) :
    breaker.trace (.new threshold timeout) calls = (reference threshold timeout).trace (.closed 0) calls := by
  have hnew : Refines threshold timeout Reference.Shows (.new threshold timeout) (.closed 0) :=
    ⟨rfl, rfl, rfl, rfl, hthreshold⟩
  exact Machine.trace_sim hnew (fun c r call h => h.step hthreshold call) calls

/-- Two failures trip the breaker at 2; the call at 31 comes too early, the one at 32 is a trial and fails at 33, the
next trial at 63 succeeds. -/
def twoTrials : List Call :=
  let failed : Option ExecError := some ⟨"boom", false⟩
  [⟨0, 1, failed⟩, ⟨1, 2, failed⟩, ⟨31, 31, none⟩, ⟨32, 33, failed⟩, ⟨62, 62, none⟩, ⟨63, 64, none⟩, ⟨64, 65, failed⟩,
    ⟨65, 66, none⟩]

theorem breaker_trace_twoTrials :
    (breaker.trace (.new 2 30) twoTrials).map Answer.forwarded = [true, true, false, true, false, true, true, true] ∧
      breaker.trace (.new 2 30) twoTrials = (reference 2 30).trace (.closed 0) twoTrials :=
  ⟨by decide +kernel, breaker_trace_eq_reference 2 (by decide) 30 twoTrials⟩

end BreakerCalls

end Quorum
