/-
Methods of an object, statement by statement: a method reads and writes the state of its object and may end with an
error. An error undoes nothing that was written before it, unless the statements run in a transaction. A call is
computed by the rules for its statements.
-/
import Mathlib.Logic.Basic

namespace Quorum

/-- A method with its result: an error ends it, and what was written by then stays written. -/
abbrev Method (σ α : Type) := ExceptT String (StateM σ) α

namespace Method

variable {σ α β : Type}

/-- The result of a call and the state after it. -/
def call (m : Method σ α) (s : σ) : Except String α × σ := m.run s

/-- Statements whose writes are undone if they end with an error. -/
def transaction (m : Method σ α) : Method σ α :=
  ExceptT.mk fun s =>
    match m.call s with
    | (.ok a, s') => (.ok a, s')
    | (.error err, _) => (.error err, s)

/-! ## The rules -/

theorem call_pure (a : α) (s : σ) : (pure a : Method σ α).call s = (.ok a, s) := rfl

theorem call_modify (f : σ → σ) (s : σ) : (modify f : Method σ PUnit).call s = (.ok ⟨⟩, f s) := rfl

theorem call_bind (m : Method σ α) (f : α → Method σ β) (s : σ) :
    (m >>= f).call s = match m.call s with
      | (.ok a, s') => (f a).call s'
      | (.error err, s') => (.error err, s') := by
  show (match m.call s with | (r, s') => ExceptT.bindCont f r s') = _
  cases m.call s with
  | mk r s' => cases r <;> rfl

theorem call_get_bind (f : σ → Method σ α) (s : σ) : ((getThe σ : Method σ σ) >>= f).call s = (f s).call s := rfl

theorem call_modify_bind (g : σ → σ) (f : PUnit → Method σ α) (s : σ) :
    ((modify g : Method σ PUnit) >>= f).call s = (f ⟨⟩).call (g s) := rfl

theorem call_ite (c : Prop) [Decidable c] (m m' : Method σ α) (s : σ) :
    (if c then m else m').call s = if c then m.call s else m'.call s := by
  split <;> rfl

theorem state_bind (m : StateM σ α) (f : α → StateM σ β) (s : σ) : (m >>= f) s = f (m s).1 (m s).2 := rfl

theorem call_tryCatch (m : Method σ α) (h : String → Method σ α) (s : σ) :
    (tryCatch m h : Method σ α).call s = match m.call s with
      | (.ok a, s') => (.ok a, s')
      | (.error err, s') => (h err).call s' := by
  unfold call
  simp only [tryCatch, tryCatchThe, MonadExceptOf.tryCatch, ExceptT.tryCatch, ExceptT.run, ExceptT.mk]
  rw [state_bind]
  cases m s with
  | mk r s' => cases r <;> rfl

/-- A transaction that fails leaves no trace. -/
theorem call_transaction (m : Method σ α) (s : σ) :
    m.transaction.call s = match m.call s with
      | (.ok a, s') => (.ok a, s')
      | (.error err, _) => (.error err, s) := rfl

end Method

end Quorum
