/-
`watchLeadership` (`internal/engine/engine.go`): the loop that starts the schedulers on a leadership claim
and stops them on a loss. It keeps one cancel function; a claim read while the previous context is live
overwrites that function, and the previous context is never cancelled again.
-/
import Quorum.Lib.Machine
import Quorum.Scheduler.Refine
import Quorum.Store.Memory

namespace Quorum

/-- The loop's state: the scheduler it starts, the contexts it has created, oldest first, each with whether
it is cancelled, the context `schedCancel` cancels, and whether the loop has returned. -/
structure Watch (σ : Type) where
  scheduler : Scheduler σ
  cancelled : List Bool
  schedCancel : Option Nat
  returned : Bool

namespace Watch

variable {σ : Type}

/-- What the loop can see or miss: a value from `LeaderCh`, the end of the engine's context, and anything
the scheduler does in between. -/
inductive Event where
  | received (isLeader : Bool) (ord₁ ord₂ : RangeOrder Int)
  | done
  | round (r : Scheduler.Round)

def new (s : Scheduler σ) : Watch σ := { scheduler := s, cancelled := [], schedCancel := none, returned := false }

/-- `if schedCancel != nil { schedCancel(); schedCancel = nil }`. -/
def cancelHeld (w : Watch σ) : Watch σ :=
  match w.schedCancel with
  | some k => { w with cancelled := w.cancelled.set k true, schedCancel := none }
  | none => w

@[simp] theorem cancelHeld_schedCancel (w : Watch σ) : w.cancelHeld.schedCancel = none := by
  unfold cancelHeld
  cases hk : w.schedCancel with
  | none => exact hk
  | some k => rfl

/-- How many contexts are not cancelled. -/
def live (w : Watch σ) : Nat := w.cancelled.count false

/-- In every run: the loop holds a cancel function exactly if the last value was a claim, and then the
context it cancels is live. -/
structure Holds (received : List Bool) (w : Watch σ) : Prop where
  idle : w.returned = false → w.schedCancel = none → received.getLast? ≠ some true
  held : ∀ k, w.schedCancel = some k → w.cancelled[k]? = some false ∧ received.getLast? = some true

/-- In runs without repeated claims: nothing is live but the context whose cancel function is held. -/
structure OneLive (w : Watch σ) : Prop where
  idle : w.schedCancel = none → w.live = 0
  held : ∀ k, w.schedCancel = some k → w.live = 1

theorem live_cancelHeld {received : List Bool} {w : Watch σ} (h : Holds received w) (h1 : OneLive w) :
    w.cancelHeld.live = 0 := by
  unfold cancelHeld
  cases hk : w.schedCancel with
  | none => exact h1.idle hk
  | some k =>
    have hlive : w.cancelled.count false = 1 := h1.held k hk
    obtain ⟨hlt, hget⟩ := List.getElem?_eq_some_iff.1 (h.held k hk).1
    show (w.cancelled.set k true).count false = 0
    rw [List.count_set hlt, hget, hlive]
    rfl

variable [Store σ]

/-- A claim: rebuild the queues, create a context, keep its cancel function, start the schedulers on it. -/
def claim (ord₁ ord₂ : RangeOrder Int) (w : Watch σ) : Watch σ :=
  { w with scheduler := (w.scheduler.rebuildQueuesFromStore ord₁ ord₂).1
           cancelled := w.cancelled ++ [false]
           schedCancel := some w.cancelled.length }

/-- A loss: cancel the context whose cancel function is held, clear the leases. -/
def lose (w : Watch σ) : Watch σ := { w.cancelHeld with scheduler := w.scheduler.clearLeases }

/-- One event, with the value that was received. The contexts are derived from the engine's, so they end
with it. -/
def step (w : Watch σ) : Event → Watch σ × List Bool
  | .received isLeader ord₁ ord₂ =>
    if w.returned then (w, [])
    else if isLeader then (w.claim ord₁ ord₂, [true])
    else (w.lose, [false])
  | .done => ({ w with cancelled := w.cancelled.map fun _ => true, schedCancel := none, returned := true }, [])
  | .round r => ({ w with scheduler := (w.scheduler.round r).1 }, [])

def machine : Machine (Watch σ) Event Bool := ⟨step⟩

/-- After the event, if it is a received value: at most one context is live, and after a loss none is and
no lease is held. -/
def LeaderOnly (w : Watch σ) (ev : Event) : Prop :=
  ∀ isLeader ord₁ ord₂, ev = .received isLeader ord₁ ord₂ → w.returned = false →
    (w.step ev).1.live ≤ 1 ∧
      (isLeader = false → (w.step ev).1.live = 0 ∧ ∀ id, (w.step ev).1.scheduler.leases.get id = none)

/-- The event is not a claim received right after another claim. -/
def NotRepeated (w : Watch σ) (received : List Bool) (ev : Event) : Prop :=
  ∀ ord₁ ord₂, ev = .received true ord₁ ord₂ → w.returned = false → received.getLast? ≠ some true

theorem step_claim {w : Watch σ} (hr : w.returned = false) (ord₁ ord₂ : RangeOrder Int) :
    w.step (.received true ord₁ ord₂) = (w.claim ord₁ ord₂, [true]) := by
  simp [step, hr]

theorem step_lose {w : Watch σ} (hr : w.returned = false) (ord₁ ord₂ : RangeOrder Int) :
    w.step (.received false ord₁ ord₂) = (w.lose, [false]) := by
  simp [step, hr]

theorem step_returned {w : Watch σ} (hr : w.returned = true) (isLeader : Bool) (ord₁ ord₂ : RangeOrder Int) :
    w.step (.received isLeader ord₁ ord₂) = (w, []) := by
  simp [step, hr]

theorem live_claim (w : Watch σ) (ord₁ ord₂ : RangeOrder Int) : (w.claim ord₁ ord₂).live = w.live + 1 := by
  simp [live, claim, List.count_append]

theorem step_holds {received : List Bool} {w : Watch σ} (h : Holds received w) (ev : Event) :
    Holds (received ++ (w.step ev).2) (w.step ev).1 := by
  cases ev with
  | received isLeader ord₁ ord₂ =>
    cases hr : w.returned with
    | true =>
      rw [step_returned hr]
      simpa using h
    | false =>
      cases isLeader with
      | true =>
        rw [step_claim hr]
        refine ⟨(fun _ hn => nomatch hn), fun k hk => ?_⟩
        cases hk
        simp [claim]
      | false =>
        rw [step_lose hr]
        refine ⟨fun _ _ => by simp, fun k hk => ?_⟩
        have hn : w.lose.schedCancel = none := cancelHeld_schedCancel w
        rw [hn] at hk; cases hk
  | done =>
    refine ⟨fun hr => ?_, fun k hk => ?_⟩
    · cases hr
    · cases hk
  | round r => simpa [step] using (⟨h.idle, h.held⟩ : Holds received { w with scheduler := (w.scheduler.round r).1 })

theorem step_oneLive {received : List Bool} {w : Watch σ} (h : Holds received w) (h1 : OneLive w) {ev : Event}
    (hn : w.NotRepeated received ev) : OneLive (w.step ev).1 := by
  cases ev with
  | received isLeader ord₁ ord₂ =>
    cases hr : w.returned with
    | true => rw [step_returned hr]; exact h1
    | false =>
      cases isLeader with
      | true =>
        rw [step_claim hr]
        -- the value before was no claim, so no cancel function is held and nothing is live
        have hidle : w.schedCancel = none := by
          cases hk : w.schedCancel with
          | none => rfl
          | some k => exact absurd (h.held k hk).2 (hn ord₁ ord₂ rfl hr)
        refine ⟨(fun hk => nomatch hk), fun k _ => ?_⟩
        rw [live_claim, h1.idle hidle]
      | false =>
        rw [step_lose hr]
        refine ⟨fun _ => live_cancelHeld h h1, fun k hk => ?_⟩
        have hnone : w.lose.schedCancel = none := cancelHeld_schedCancel w
        rw [hnone] at hk; cases hk
  | done =>
    refine ⟨fun _ => ?_, fun k hk => by cases hk⟩
    show (w.cancelled.map fun _ => true).count false = 0
    simp [List.count_eq_zero]
  | round r => exact ⟨h1.idle, h1.held⟩

/-- Leader-only scheduling holds for exactly those sequences of received values in which no claim directly
follows a claim, whatever the scheduler does in between. -/
theorem leaderOnly_iff (s : Scheduler σ) (evs : List Event) :
    machine.EveryStep (fun _ w ev => w.LeaderOnly ev) (new s) evs ↔
      machine.EveryStep (fun received w ev => w.NotRepeated received ev) (new s) evs := by
  have h0 : Holds [] (new s) := ⟨fun _ _ => by simp, fun k hk => by cases hk⟩
  constructor
  · intro hgood
    refine Machine.EveryStep.imp (P := Holds) h0 (fun received w ev h _ => step_holds h ev) ?_ hgood
    rintro received w ev h hgood ord₁ ord₂ rfl hr hlast
    -- a claim is pending, so its context is live and stays live next to the new one
    have hlive : 1 ≤ w.live := by
      cases hk : w.schedCancel with
      | none => exact absurd hlast (h.idle hr hk)
      | some k => exact List.count_pos_iff.2 (List.mem_of_getElem? (h.held k hk).1)
    have hle := (hgood true ord₁ ord₂ rfl hr).1
    rw [step_claim hr, live_claim] at hle
    omega
  · intro hnr
    refine Machine.EveryStep.imp (P := fun received w => Holds received w ∧ OneLive w)
      ⟨h0, ⟨fun _ => rfl, fun k hk => by cases hk⟩⟩
      (fun received w ev h hn => ⟨step_holds h.1 ev, step_oneLive h.1 h.2 hn⟩) ?_ hnr
    rintro received w ev ⟨h, h1⟩ hn isLeader ord₁ ord₂ rfl hr
    have hone := step_oneLive h h1 hn
    cases isLeader with
    | true =>
      rw [step_claim hr] at hone ⊢
      exact ⟨le_of_eq (hone.held w.cancelled.length rfl), fun hf => by cases hf⟩
    | false =>
      rw [step_lose hr]
      have hzero : w.lose.live = 0 := live_cancelHeld h h1
      exact ⟨hzero.le.trans (Nat.zero_le 1), fun _ => ⟨hzero, fun id => LeaseManager.get_clear w.scheduler.leases id⟩⟩

/-- A claim, a loss that is overwritten before it is read, and a second claim: two contexts are live, and
after the loss that follows one of them still is. -/
theorem repeated_claim_leaks :
    let w := new (Scheduler.new (Store.empty : MemoryStore) (Chan.make 1) none)
    let claim : Event := .received true .stored .stored
    ¬ machine.EveryStep (fun _ w ev => w.LeaderOnly ev) w [claim, claim] ∧
      (machine.exec w [claim, claim]).live = 2 ∧
      (machine.exec w [claim, claim, .received false .stored .stored]).live = 1 := by
  refine ⟨fun h => ?_, rfl, rfl⟩
  have hle := (h [.received true .stored .stored] _ [] rfl true .stored .stored rfl rfl).1
  exact absurd hle (by decide)

end Watch

end Quorum
