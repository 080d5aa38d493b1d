/-
The methods of the two stores that `FSM.Apply` calls, statement by statement. An error that a method of `MemoryStore`
returns undoes nothing the method has written by then; `BoltStore` writes inside `db.Update`, which rolls back. Each
body does what the operation of `Store` says, so a method that returns an error leaves its store as it was.
-/
import Quorum.Lib.Method
import Quorum.Store.Memory
import Quorum.Store.Bolt

namespace Quorum

/-- The result of an operation and the store it leaves: the old one where it fails. -/
def outcome {σ : Type} (s : σ) : Except String σ → Except String Unit × σ
  | .ok s' => (.ok (), s')
  | .error err => (.error err, s)

/-- A store with the bodies of its methods, which do what its operations say. -/
class MethodStore (σ : Type) extends Store σ where
  addBody : Job → Method σ Unit
  updateBody : Job → Method σ Unit
  deleteBody : Int → Method σ Bool
  cancelBody : Int → Method σ Unit
  addCronBody : CronJob → Method σ Unit
  deleteCronBody : String → Method σ Bool
  call_add : ∀ s j, (addBody j).call s = outcome s (add s j)
  call_update : ∀ s j, (updateBody j).call s = outcome s (update s j)
  call_delete : ∀ s id, (deleteBody id).call s = (.ok (delete s id).1, (delete s id).2)
  call_cancel : ∀ s id, (cancelBody id).call s = outcome s (cancel s id)
  call_addCron : ∀ s c, (addCronBody c).call s = outcome s (addCron s c)
  call_deleteCron : ∀ s id, (deleteCronBody id).call s = (.ok (deleteCron s id).1, (deleteCron s id).2)

/-! ## `MemoryStore` -/

namespace MemoryStore.Body

def add (j : Job) : Method MemoryStore Unit := do
  if ((← getThe MemoryStore).jobs.lookup j.id).isSome then
    throw s!"job {j.id} already exists"
  modify fun s => { s with jobs := s.jobs.insert j.id j }
  if j.idempotencyKey ≠ "" then
    modify fun s => { s with idempotencyIndex := s.idempotencyIndex.insert j.idempotencyKey j.id }
  modify fun s => s.addToStatusIndex j.status j.id

def update (j : Job) : Method MemoryStore Unit := do
  match (← getThe MemoryStore).jobs.lookup j.id with
  | none => throw s!"job {j.id} not found for update"
  | some existing =>
    if isValidTransition existing.status j.status = false then
      throw s!"invalid job status transition from {existing.status} to {j.status} for job {j.id}"
    modify fun s => s.removeFromStatusIndex existing.status j.id
    modify fun s => { s with jobs := s.jobs.insert j.id j }
    modify fun s => s.addToStatusIndex j.status j.id

def delete (id : Int) : Method MemoryStore Bool := do
  match (← getThe MemoryStore).jobs.lookup id with
  | none => return false
  | some j =>
    modify fun s => s.removeFromStatusIndex j.status id
    if j.idempotencyKey ≠ "" then
      modify fun s => { s with idempotencyIndex := s.idempotencyIndex.erase j.idempotencyKey }
    modify fun s => { s with jobs := s.jobs.erase id }
    return true

def cancel (id : Int) : Method MemoryStore Unit := do
  match (← getThe MemoryStore).jobs.lookup id with
  | none => throw "job not found"
  | some j =>
    if j.status.isTerminal then
      throw s!"job already in terminal status {j.status}"
    modify fun s => s.removeFromStatusIndex j.status id
    modify fun s => { s with jobs := s.jobs.insert id { j with status := .cancelled } }
    modify fun s => s.addToStatusIndex .cancelled id

def addCron (c : CronJob) : Method MemoryStore Unit :=
  modify fun s => { s with crons := s.crons.insert c.id c }

def deleteCron (id : String) : Method MemoryStore Bool := do
  match (← getThe MemoryStore).crons.lookup id with
  | none => return false
  | some _ =>
    modify fun s => { s with crons := s.crons.erase id }
    return true

end MemoryStore.Body

namespace MemoryStore

variable (s : MemoryStore)

theorem call_add (j : Job) : (Body.add j).call s = outcome s (s.add j) := by
  unfold Body.add add
  simp only [Method.call_get_bind, Method.call_ite, Method.call_modify_bind, Method.call_modify]
  cases s.jobs.lookup j.id with
  | some e => rfl
  | none => by_cases hk : j.idempotencyKey = "" <;> simp [hk, outcome]

theorem call_update (j : Job) : (Body.update j).call s = outcome s (s.update j) := by
  unfold Body.update update
  rw [Method.call_get_bind]
  cases s.jobs.lookup j.id with
  | none => rfl
  | some existing =>
    simp only [Method.call_ite, Method.call_modify_bind, Method.call_modify]
    split <;> rfl

theorem call_delete (id : Int) : (Body.delete id).call s = (.ok (s.delete id).1, (s.delete id).2) := by
  unfold Body.delete delete
  rw [Method.call_get_bind]
  cases s.jobs.lookup id with
  | none => rfl
  | some j =>
    simp only [Method.call_ite, Method.call_modify_bind, Method.call_pure]
    split <;> rfl

theorem call_cancel (id : Int) : (Body.cancel id).call s = outcome s (s.cancel id) := by
  unfold Body.cancel cancel
  rw [Method.call_get_bind]
  cases s.jobs.lookup id with
  | none => rfl
  | some j =>
    simp only [Method.call_ite, Method.call_modify_bind, Method.call_modify]
    split <;> rfl

theorem call_deleteCron (id : String) :
    (Body.deleteCron id).call s = (.ok (s.deleteCron id).1, (s.deleteCron id).2) := by
  unfold Body.deleteCron deleteCron
  rw [Method.call_get_bind]
  cases s.crons.lookup id <;> rfl

instance : MethodStore MemoryStore where
  addBody := Body.add
  updateBody := Body.update
  deleteBody := Body.delete
  cancelBody := Body.cancel
  addCronBody := Body.addCron
  deleteCronBody := Body.deleteCron
  call_add := call_add
  call_update := call_update
  call_delete := call_delete
  call_cancel := call_cancel
  call_addCron _ _ := rfl
  call_deleteCron := call_deleteCron

end MemoryStore

/-! ## `BoltStore` -/

namespace BoltStore.Body

/-- `Put` of bbolt in the bucket that `write` writes to. -/
def put (key : String) (write : BoltStore → BoltStore) : Method BoltStore Unit :=
  match checkKey key with
  | .error err => throw err
  | .ok _ => modify write

def add (j : Job) : Method BoltStore Unit := Method.transaction do
  modify fun s => s.putJob j
  if j.idempotencyKey ≠ "" then
    try put j.idempotencyKey fun s => { s with idempotencyKeys := s.idempotencyKeys.insert j.idempotencyKey j.id }
    catch err => throw s!"write idempotency key: {err}"
  modify fun s => s.addToStatusBucket j.status j.id

def update (j : Job) : Method BoltStore Unit := Method.transaction do
  match (← getThe BoltStore).jobs.lookup j.id with
  | none => throw s!"job {j.id} not found for update"
  | some existing =>
    if isValidTransition existing.status j.status = false then
      throw s!"invalid status transition from {existing.status} to {j.status} for job {j.id}"
    modify fun s => s.removeFromStatusBucket existing.status j.id
    modify fun s => s.putJob j
    modify fun s => s.addToStatusBucket j.status j.id

def delete (id : Int) : Method BoltStore Bool := Method.transaction do
  match (← getThe BoltStore).jobs.lookup id with
  | none => return false
  | some j =>
    modify fun s => s.removeFromStatusBucket j.status id
    if j.idempotencyKey ≠ "" then
      modify fun s => { s with idempotencyKeys := s.idempotencyKeys.erase j.idempotencyKey }
    modify fun s => { s with jobs := s.jobs.erase id }
    return true

def cancel (id : Int) : Method BoltStore Unit := Method.transaction do
  match (← getThe BoltStore).jobs.lookup id with
  | none => throw "job not found"
  | some j =>
    if j.status.isTerminal then
      throw s!"job already in terminal status {j.status}"
    modify fun s => s.removeFromStatusBucket j.status id
    modify fun s => s.putJob { j with status := .cancelled }
    modify fun s => s.addToStatusBucket .cancelled id

def addCron (c : CronJob) : Method BoltStore Unit :=
  Method.transaction (put c.id fun s => { s with cronJobs := s.cronJobs.insert c.id c })

def deleteCron (id : String) : Method BoltStore Bool := Method.transaction do
  match (← getThe BoltStore).cronJobs.lookup id with
  | none => return false
  | some _ =>
    modify fun s => { s with cronJobs := s.cronJobs.erase id }
    return true

end BoltStore.Body

namespace BoltStore

variable (s : BoltStore)

theorem call_add (j : Job) : (Body.add j).call s = outcome s (s.add j) := by
  unfold Body.add Body.put add
  rw [Method.call_transaction, Method.call_modify_bind]
  by_cases hk : j.idempotencyKey = ""
  · simp only [hk, ne_eq, not_true_eq_false, if_false]
    rfl
  · simp only [hk, ne_eq, not_false_eq_true, if_true]
    -- the job is written by now, and rolled back if the key is refused
    cases checkKey j.idempotencyKey <;> rfl

theorem call_update (j : Job) : (Body.update j).call s = outcome s (s.update j) := by
  unfold Body.update update
  rw [Method.call_transaction, Method.call_get_bind]
  cases s.jobs.lookup j.id with
  | none => rfl
  | some existing =>
    simp only [Method.call_ite, Method.call_modify_bind, Method.call_modify]
    by_cases hv : isValidTransition existing.status j.status = false
    · rw [if_pos hv, if_pos hv]
      rfl
    · rw [if_neg hv, if_neg hv]
      rfl

theorem call_delete (id : Int) : (Body.delete id).call s = (.ok (s.delete id).1, (s.delete id).2) := by
  unfold Body.delete delete
  rw [Method.call_transaction, Method.call_get_bind]
  cases s.jobs.lookup id with
  | none => rfl
  | some j =>
    by_cases hk : j.idempotencyKey = ""
    · simp only [hk, ne_eq, not_true_eq_false, if_false]
      rfl
    · simp only [hk, ne_eq, not_false_eq_true, if_true]
      rfl

theorem call_cancel (id : Int) : (Body.cancel id).call s = outcome s (s.cancel id) := by
  unfold Body.cancel cancel
  rw [Method.call_transaction, Method.call_get_bind]
  cases s.jobs.lookup id with
  | none => rfl
  | some j =>
    simp only [Method.call_ite, Method.call_modify_bind, Method.call_modify]
    by_cases ht : j.status.isTerminal = true
    · rw [if_pos ht, if_pos ht]
      rfl
    · rw [if_neg ht, if_neg ht]
      rfl

theorem call_addCron (c : CronJob) : (Body.addCron c).call s = outcome s (s.addCron c) := by
  unfold Body.addCron Body.put addCron
  rw [Method.call_transaction]
  cases checkKey c.id <;> rfl

theorem call_deleteCron (id : String) :
    (Body.deleteCron id).call s = (.ok (s.deleteCron id).1, (s.deleteCron id).2) := by
  unfold Body.deleteCron deleteCron
  rw [Method.call_transaction, Method.call_get_bind]
  cases s.cronJobs.lookup id <;> rfl

instance : MethodStore BoltStore where
  addBody := Body.add
  updateBody := Body.update
  deleteBody := Body.delete
  cancelBody := Body.cancel
  addCronBody := Body.addCron
  deleteCronBody := Body.deleteCron
  call_add := call_add
  call_update := call_update
  call_delete := call_delete
  call_cancel := call_cancel
  call_addCron := call_addCron
  call_deleteCron := call_deleteCron

end BoltStore

end Quorum
