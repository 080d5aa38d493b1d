/-
State machine replication: replicas that apply the entries of one committed log in order. A replica that
changes its state by applying entries only is in sync with the log, and two such replicas that have
applied as many entries are in the same state.
-/
import Mathlib.Data.List.Basic

namespace Quorum

/-- A replica: its state and how many log entries it has applied. -/
structure Replica (S : Type) where
  state : S
  applied : Nat

namespace Replica

variable {S C : Type} (apply : S → C → S)

/-- The state the entries of a log lead to. -/
def replay (s₀ : S) (log : List C) : S := log.foldl apply s₀

/-- Apply the next entry of the log, if there is one. -/
def advance (log : List C) (r : Replica S) : Replica S :=
  match log[r.applied]? with
  | some c => ⟨apply r.state c, r.applied + 1⟩
  | none => r

/-- The replica is where its applied entries lead. -/
structure InSync (s₀ : S) (log : List C) (r : Replica S) : Prop where
  le : r.applied ≤ log.length
  state : r.state = replay apply s₀ (log.take r.applied)

variable {apply} {s₀ : S} {log : List C} {r r' : Replica S}

theorem InSync.append (h : InSync apply s₀ log r) (c : C) : InSync apply s₀ (log ++ [c]) r := by
  refine ⟨by have := h.le; simp; omega, ?_⟩
  rw [List.take_append_of_le_length h.le]
  exact h.state

theorem InSync.advance (h : InSync apply s₀ log r) : InSync apply s₀ log (r.advance apply log) := by
  unfold Replica.advance
  split
  · rename_i c hc
    obtain ⟨hlt, hget⟩ := List.getElem?_eq_some_iff.1 hc
    refine ⟨hlt, ?_⟩
    rw [List.take_add_one, hc, h.state]
    simp [replay]
  · exact h

theorem InSync.agree (h : InSync apply s₀ log r) (h' : InSync apply s₀ log r') (heq : r.applied = r'.applied) :
    r.state = r'.state := by
  rw [h.state, h'.state, heq]

/-- What the initial state has and every entry keeps, a replica in sync has. -/
theorem InSync.inv {P : S → Prop} (h0 : P s₀) (hstep : ∀ s c, P s → P (apply s c)) (h : InSync apply s₀ log r) :
    P r.state := by
  have hrun : ∀ (l : List C) (s : S), P s → P (replay apply s l) := by
    intro l
    induction l with
    | nil => exact fun s hs => hs
    | cons c l ih => exact fun s hs => ih _ (hstep s c hs)
  rw [h.state]
  exact hrun _ _ h0

end Replica

end Quorum
