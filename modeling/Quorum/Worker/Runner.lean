/-
The runner (`internal/runner/runner.go`): what a worker does with a job once the executor has returned.
A runner inside the control node writes the outcome to the store as well; on a worker node it has none.
-/
import Quorum.Lib.Chan
import Quorum.Store.Interface

namespace Quorum

/-- An error of the executor; `canceled` is `errors.Is(err, context.Canceled)`. -/
structure ExecError where
  message : String
  canceled : Bool
  deriving DecidableEq, Repr

namespace Runner

/-- The job as the runner leaves it. -/
def finish (j : Job) : Option ExecError → Job
  | none => { j with status := .completed }
  | some err =>
    if err.canceled then { j with status := .cancelled }
    else { j with status := .failed, lastError := err.message }

theorem finish_id (j : Job) (err : Option ExecError) : (finish j err).id = j.id := by
  cases err with
  | none => rfl
  | some err => simp only [finish]; split <;> rfl

theorem finish_terminal (j : Job) (err : Option ExecError) : (finish j err).status.isTerminal = true := by
  cases err with
  | none => rfl
  | some err => simp only [finish]; split <;> rfl

/-- The result it sends; no branch of the source sets `Attempt`. -/
def result (j : Job) : Option ExecError → Result
  | none => { jobID := j.id, success := true, error := none, attempt := 0, carries := nofun }
  | some err => { jobID := j.id, success := false, error := some err.message, attempt := 0, carries := fun _ => rfl }

/-- `Execute` after the executor's answer `err`: the store, where there is one, is updated and an error of
the update is ignored; the result is dropped if the channel is full. -/
def execute {σ : Type} [Store σ] (store : Option σ) (results : Chan Result) (j : Job) (err : Option ExecError) :
    Option σ × Chan Result :=
  (store.map fun st => Store.tryUpdate st (finish j err), results.trySend (result j err))

end Runner

end Quorum
