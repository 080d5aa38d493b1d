/-
Jobs and their persistent statuses (`internal/job/job.go`, `result.go`), the transition table every
store enforces, and the retry policy (`internal/retry/policy.go`).
-/
import Mathlib.Data.Int.Notation

namespace Quorum

/-- An instant (`time.Time`): nanoseconds since Go's zero time, so that the zero value is `0`. -/
abbrev Time := Int

/-- A `time.Duration`: nanoseconds. -/
abbrev Duration := Int

/-- `time.Second`. -/
def second : Duration := 1000000000

/-- The five status strings the package defines. -/
def statusNames : List String := ["PENDING", "SCHEDULED", "COMPLETED", "FAILED", "CANCELLED"]

/-- `job.Status`, a string type: the five defined values and every other string. -/
inductive Status where
  | pending
  | scheduled
  | completed
  | failed
  | cancelled
  | other (name : String) (undefined : name ∉ statusNames)
  deriving DecidableEq, Repr

/-- The string a status is. -/
def Status.toString : Status → String
  | .pending => "PENDING"
  | .scheduled => "SCHEDULED"
  | .completed => "COMPLETED"
  | .failed => "FAILED"
  | .cancelled => "CANCELLED"
  | .other name _ => name

instance : ToString Status := ⟨Status.toString⟩

/-- The check `dispatchLoop` and `Cancel` make: completed, failed or cancelled. -/
def Status.isTerminal : Status → Bool
  | .completed | .failed | .cancelled => true
  | _ => false

/-- `job.Job`. -/
structure Job where
  id : Int
  type : String
  priority : Int
  status : Status
  retryCount : Int
  maxRetries : Int
  nextRunAt : Time
  lastError : String
  idempotencyKey : String
  deriving DecidableEq, Repr

namespace Job

/-- The zero value `job.Job{}`. -/
def zero : Job :=
  { id := 0, type := "", priority := 0, status := .other "" (by decide), retryCount := 0, maxRetries := 0,
    nextRunAt := 0, lastError := "", idempotencyKey := "" }

/-- `job.NewJob`. -/
def newJob (id : Int) (jobType : String) (priority : Int) : Job :=
  { zero with id := id, type := jobType, priority := priority, status := .pending, maxRetries := 3 }

end Job

/-- `job.IsValidTransition`. -/
def isValidTransition (current next : Status) : Bool :=
  if current = next then true
  else
    match current with
    | .pending => next = .scheduled || next = .completed || next = .failed || next = .cancelled
    | .scheduled => next = .pending || next = .cancelled
    | .completed | .failed | .cancelled => false
    | .other _ _ => false

@[simp] theorem isValidTransition_self (s : Status) : isValidTransition s s = true := by
  simp [isValidTransition]

/-- A terminal status only allows itself. -/
theorem isValidTransition_terminal {s t : Status} (hs : s.isTerminal = true) :
    isValidTransition s t = true ↔ t = s := by
  unfold isValidTransition
  split
  · rename_i h; simp [h]
  · rename_i h
    cases s with
    | pending | scheduled | other => cases hs
    | completed | failed | cancelled => simp; exact fun h' => h h'.symm

/-! Which statuses may become a given one, itself included. -/

theorem isValidTransition_to_scheduled {s : Status} :
    isValidTransition s .scheduled = true ↔ s = .pending ∨ s = .scheduled := by
  cases s <;> simp [isValidTransition]

theorem isValidTransition_to_pending {s : Status} :
    isValidTransition s .pending = true ↔ s = .pending ∨ s = .scheduled := by
  cases s <;> simp [isValidTransition]

theorem isValidTransition_to_completed {s : Status} :
    isValidTransition s .completed = true ↔ s = .pending ∨ s = .completed := by
  cases s <;> simp [isValidTransition]

theorem isValidTransition_to_failed {s : Status} :
    isValidTransition s .failed = true ↔ s = .pending ∨ s = .failed := by
  cases s <;> simp [isValidTransition]

/-- `job.Result`. A failure carries an error: `resultLoop` calls `result.Error.Error()` on it. -/
structure Result where
  jobID : Int
  success : Bool
  error : Option String
  attempt : Int
  carries : success = false → error.isSome = true

/-! ## Retry policy -/

/-- `retry.ShouldRetry`. -/
def shouldRetry (j : Job) : Bool := j.retryCount < j.maxRetries

/-- `retry.Backoff`: the shift and the product are in Go's wrapping 64-bit integers. Go panics at a shift by a negative
`RetryCount`; here such a count shifts by zero. -/
def backoff (j : Job) (maxBackoff : Duration) : Duration :=
  let shifted := Int.bmod ((1 <<< j.retryCount.toNat : Nat) : Int) (1 <<< 64)
  let delay := Int.bmod (second * shifted) (1 <<< 64)
  if delay > maxBackoff then maxBackoff else delay

/-- `retry.NextRetryTime`, with the clock reading it makes. -/
def nextRetryTime (now : Time) (j : Job) (maxBackoff : Duration) : Time := now + backoff j maxBackoff

/-- `config.Default().MaxBackoff`. -/
def defaultMaxBackoff : Duration := 60 * second

end Quorum
