/-
Tickers, as `time.NewTicker` makes them. When a period is over the runtime sends on a channel of one place, or drops
the tick if the last one is still there. It may be late; a period that it has missed as a whole is not made up for.

Whoever receives the ticks gets, in a stretch of time, at most three more than periods fit into it: one that waited
from before, one that was late, and one at each end of a period.
-/
import Mathlib.Algebra.Order.Ring.Int
import Mathlib.Tactic.Ring
import Quorum.Lib.Machine

namespace Quorum

structure Ticker where
  interval : Int
  next : Int
  pending : Bool
  pos : 0 < interval

namespace Ticker

/-- `time.NewTicker`. -/
def new (now interval : Int) (h : 0 < interval) : Ticker := ⟨interval, now + interval, false, h⟩

/-- The runtime looks at the ticker. -/
def fire (t : Ticker) (now : Int) : Ticker :=
  if now < t.next then t
  else { t with next := t.next + t.interval * (1 + (now - t.next) / t.interval), pending := true }

/-- A receive from the channel of the ticker; none while there is nothing. -/
def receive (t : Ticker) : Option Ticker := if t.pending then some { t with pending := false } else none

inductive Act where
  | fire (now : Int)
  | receive

def step (t : Ticker) : Act → Ticker × List Unit
  | .fire now => (t.fire now, [])
  | .receive =>
    match t.receive with
    | none => (t, [])
    | some t' => (t', [()])

/-- The ticker, with the ticks that are received. -/
def machine : Machine Ticker Act Unit := ⟨step⟩

theorem interval_exec (t : Ticker) (acts : List Act) : (machine.exec t acts).interval = t.interval := by
  refine Machine.exec_inv (M := machine) (P := fun t' => t'.interval = t.interval) rfl (fun t' act h => ?_) acts
  cases act with
  | fire now =>
    show (t'.fire now).interval = _
    unfold fire
    split <;> exact h
  | receive =>
    show (step t' .receive).1.interval = _
    simp only [step, receive]
    cases t'.pending <;> exact h

/-- After `n` ticks of the runtime since the time `a`, the last of them no later than `b`, `received` ticks have been
received, at most one of them from before. -/
structure Paced (a b d : Int) (n received : Nat) (t : Ticker) : Prop where
  same : t.interval = d
  got : received + t.pending.toNat ≤ n + 1
  next : n = 0 ∨ a + ((n : Int) - 1) * d < t.next
  last : ((n : Int) - 2) * d < b - a

variable {a b d : Int} {n received : Nat} {t : Ticker}

theorem Paced.fire (h : Paced a b d n received t) {now : Int} (ha : a ≤ now) (hb : now ≤ b) :
    ∃ n, Paced a b d n received (t.fire now) := by
  unfold Ticker.fire
  split
  · exact ⟨n, h⟩
  · rename_i hdue
    obtain rfl := h.same
    have hpos := t.pos
    -- the next period begins after now, and a period later than the last one
    have hafter := Int.lt_mul_ediv_self_add (x := now - t.next) hpos
    have hquot : 0 ≤ (now - t.next) / t.interval := Int.ediv_nonneg (by omega) hpos.le
    have hlater := mul_nonneg hpos.le hquot
    have hnext : t.next + t.interval * (1 + (now - t.next) / t.interval) =
        t.next + t.interval + t.interval * ((now - t.next) / t.interval) := by ring
    refine ⟨n + 1, rfl, ?_, .inr ?_, ?_⟩
    · have hgot := h.got
      simp only [Bool.toNat_true]
      omega
    · have heq : (((n + 1 : Nat) : Int) - 1) * t.interval = ((n : Int) - 1) * t.interval + t.interval := by
        push_cast
        ring
      rw [heq]
      dsimp only
      rw [hnext]
      rcases h.next with rfl | h
      · simp only [Nat.cast_zero, zero_sub, neg_mul, one_mul]
        omega
      · omega
    · have heq : (((n + 1 : Nat) : Int) - 2) * t.interval = ((n : Int) - 1) * t.interval := by push_cast; ring
      rw [heq]
      rcases h.next with rfl | h
      · simp only [Nat.cast_zero, zero_sub, neg_mul, one_mul]
        omega
      · omega

theorem Paced.receive (h : Paced a b d n received t) :
    Paced a b d n (received + (step t .receive).2.length) (step t .receive).1 := by
  simp only [step, Ticker.receive]
  cases hpending : t.pending with
  | false => exact h
  | true =>
    have hgot := h.got
    rw [hpending] at hgot
    exact ⟨h.same, hgot, h.next, h.last⟩

/-- In a stretch of time there are at most three ticks more than periods. -/
theorem received_lt (t : Ticker) (hab : a ≤ b) {acts : List Act} (hacts : ∀ now, .fire now ∈ acts → a ≤ now ∧ now ≤ b) :
    ((machine.trace t acts).length - 3) * t.interval < b - a := by
  have hpos := t.pos
  have hevery : machine.EveryStep (fun _ _ act => ∀ now, act = .fire now → a ≤ now ∧ now ≤ b) t acts := by
    rintro pre act post rfl now rfl
    exact hacts now (List.mem_append_right _ List.mem_cons_self)
  have hstart : Paced a b t.interval 0 0 t := by
    refine ⟨rfl, ?_, .inl rfl, ?_⟩
    · cases t.pending <;> simp
    · simp only [Nat.cast_zero, zero_sub]
      omega
  obtain ⟨n, h⟩ := hevery.inv (P := fun ticks t' => ∃ n, Paced a b t.interval n ticks.length t') ⟨0, hstart⟩ (by
    rintro ticks t' act ⟨n, h⟩ hact
    rw [List.length_append]
    cases act with
    | fire now =>
      obtain ⟨ha, hb⟩ := hact now rfl
      exact h.fire ha hb
    | receive => exact ⟨n, h.receive⟩)
  have hgot := h.got
  have hle : ((machine.trace t acts).length - 3 : Int) ≤ n - 2 := by omega
  exact lt_of_le_of_lt (mul_le_mul_of_nonneg_right hle hpos.le) h.last

end Ticker

end Quorum
