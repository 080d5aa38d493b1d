/-
`BoltStore` (`internal/store/bolt_store.go`): jobs, crons, dead letters, idempotency keys and one id set for
each defined status, in buckets of a bbolt file, and its contract. A transaction is atomic and a bucket is a
map; an id is its decimal text there, which no two ids share, so a bucket of ids is keyed by the id, and the
order of its walks is left open. Jobs and crons are encoded without an error and decode to what was encoded: the
one value that `encoding/json` refuses here is a time whose offset is 24 hours or more.
-/
import Quorum.Store.Interface
import Quorum.Store.StatusIndex

namespace Quorum

structure BoltStore where
  jobs : GoMap Int Job
  cronJobs : GoMap String CronJob
  dlq : GoMap Int Job
  idempotencyKeys : GoMap String Int
  statusPending : GoMap Int Unit
  statusScheduled : GoMap Int Unit
  statusCompleted : GoMap Int Unit
  statusFailed : GoMap Int Unit
  statusCancelled : GoMap Int Unit
  deriving DecidableEq

namespace BoltStore

/-- `NewBoltStore` on a new file. -/
def new : BoltStore := ⟨∅, ∅, ∅, ∅, ∅, ∅, ∅, ∅, ∅⟩

/-- The check `Put` of bbolt makes on a key. -/
def checkKey (key : String) : Except String Unit :=
  if key = "" then .error "key required"
  else if key.utf8ByteSize > 32768 then .error "key too large"
  else .ok ()

def putJob (s : BoltStore) (j : Job) : BoltStore := { s with jobs := s.jobs.insert j.id j }

def getStatusBucket (s : BoltStore) : Status → Option (GoMap Int Unit)
  | .pending => some s.statusPending
  | .scheduled => some s.statusScheduled
  | .completed => some s.statusCompleted
  | .failed => some s.statusFailed
  | .cancelled => some s.statusCancelled
  | .other _ _ => none

/-- A write to the bucket of a status, if there is one. -/
def onStatusBucket (s : BoltStore) (f : GoMap Int Unit → GoMap Int Unit) : Status → BoltStore
  | .pending => { s with statusPending := f s.statusPending }
  | .scheduled => { s with statusScheduled := f s.statusScheduled }
  | .completed => { s with statusCompleted := f s.statusCompleted }
  | .failed => { s with statusFailed := f s.statusFailed }
  | .cancelled => { s with statusCancelled := f s.statusCancelled }
  | .other _ _ => s

def addToStatusBucket (s : BoltStore) (status : Status) (id : Int) : BoltStore :=
  s.onStatusBucket (fun b => b.insert id ()) status

def removeFromStatusBucket (s : BoltStore) (status : Status) (id : Int) : BoltStore :=
  s.onStatusBucket (fun b => b.erase id) status

/-- `Add` does not look whether the id is there. Jobs that `putJob` cannot encode are left out. -/
def add (s : BoltStore) (j : Job) : Except String BoltStore :=
  let s := s.putJob j
  if j.idempotencyKey ≠ "" then
    match checkKey j.idempotencyKey with
    | .error err => .error s!"write idempotency key: {err}"
    | .ok _ =>
      let s := { s with idempotencyKeys := s.idempotencyKeys.insert j.idempotencyKey j.id }
      .ok (s.addToStatusBucket j.status j.id)
  else .ok (s.addToStatusBucket j.status j.id)

def get (s : BoltStore) (id : Int) : Option Job := s.jobs.lookup id

def list (ord : RangeOrder Int) (s : BoltStore) : List Job := s.jobs.values ord

/-- `ListByStatus` walks the bucket and keeps the ids that are stored. -/
def listByStatus (ord : RangeOrder Int) (s : BoltStore) (status : Status) : Except String (List Job) :=
  match s.getStatusBucket status with
  | none => .ok []
  | some statusB => .ok ((ord.order statusB.keys).filterMap s.jobs.lookup)

def update (s : BoltStore) (j : Job) : Except String BoltStore :=
  match s.jobs.lookup j.id with
  | none => .error s!"job {j.id} not found for update"
  | some existing =>
    if isValidTransition existing.status j.status = false then
      .error s!"invalid status transition from {existing.status} to {j.status} for job {j.id}"
    else
      let s := s.removeFromStatusBucket existing.status j.id
      .ok ((s.putJob j).addToStatusBucket j.status j.id)

def delete (s : BoltStore) (id : Int) : Bool × BoltStore :=
  match s.jobs.lookup id with
  | none => (false, s)
  | some j =>
    let s := s.removeFromStatusBucket j.status id
    let s := if j.idempotencyKey ≠ "" then
        { s with idempotencyKeys := s.idempotencyKeys.erase j.idempotencyKey }
      else s
    (true, { s with jobs := s.jobs.erase id })

/-- `Cancel` writes the job back under its own id, and indexes the id it was called with. -/
def cancel (s : BoltStore) (id : Int) : Except String BoltStore :=
  match s.jobs.lookup id with
  | none => .error "job not found"
  | some j =>
    if j.status.isTerminal then .error s!"job already in terminal status {j.status}"
    else
      let s := s.removeFromStatusBucket j.status id
      .ok ((s.putJob { j with status := .cancelled }).addToStatusBucket .cancelled id)

def addCron (s : BoltStore) (c : CronJob) : Except String BoltStore :=
  match checkKey c.id with
  | .error err => .error err
  | .ok _ => .ok { s with cronJobs := s.cronJobs.insert c.id c }

def deleteCron (s : BoltStore) (id : String) : Bool × BoltStore :=
  match s.cronJobs.lookup id with
  | none => (false, s)
  | some _ => (true, { s with cronJobs := s.cronJobs.erase id })

def listCrons (ord : RangeOrder String) (s : BoltStore) : List CronJob := s.cronJobs.values ord

def addDLQ (s : BoltStore) (j : Job) : BoltStore := { s with dlq := s.dlq.insert j.id j }

def listDLQ (ord : RangeOrder Int) (s : BoltStore) : List Job := s.dlq.values ord

/-- The empty key never matches: it bypasses deduplication. -/
def findByIdempotencyKey (s : BoltStore) (ikey : String) : Option Job :=
  if ikey = "" then none else (s.idempotencyKeys.lookup ikey).bind s.jobs.lookup

instance : Store BoltStore where
  empty := new
  add := add
  get := get
  list := list
  listByStatus := listByStatus
  update := update
  delete := delete
  cancel := cancel
  addCron := addCron
  deleteCron := deleteCron
  listCrons := listCrons
  addDLQ := addDLQ
  listDLQ := listDLQ
  findByIdempotencyKey := findByIdempotencyKey

/-! ## The status buckets -/

/-- One of the five statuses that have a bucket. -/
def Defined (status : Status) : Prop := status.toString ∈ statusNames

/-- `id` is in the bucket of `status`. -/
def Indexed (s : BoltStore) (status : Status) (id : Int) : Prop :=
  ∃ b, s.getStatusBucket status = some b ∧ id ∈ b

/-- The representation invariant. -/
def Coherent (s : BoltStore) : Prop := StatusIndex Defined s.get s.Indexed

section
variable (s : BoltStore) (f : GoMap Int Unit → GoMap Int Unit) (status : Status)

@[simp] theorem onStatusBucket_jobs : (s.onStatusBucket f status).jobs = s.jobs := by cases status <;> rfl

@[simp] theorem onStatusBucket_dlq : (s.onStatusBucket f status).dlq = s.dlq := by cases status <;> rfl

theorem getStatusBucket_onStatusBucket (st : Status) :
    (s.onStatusBucket f status).getStatusBucket st =
      if st = status then (s.getStatusBucket st).map f else s.getStatusBucket st := by
  cases status with
  | other name hn =>
    split
    · rename_i h; subst h; rfl
    · rfl
  | _ => cases st <;> simp [onStatusBucket, getStatusBucket]

theorem defined_iff_bucket (st : Status) : Defined st ↔ ∃ b, s.getStatusBucket st = some b := by
  cases st with
  | other name hn => exact ⟨fun h => absurd h hn, fun h => by obtain ⟨b, hb⟩ := h; cases hb⟩
  | _ => exact ⟨fun _ => ⟨_, rfl⟩, fun _ => by unfold Defined; decide⟩

end

theorem indexed_addToStatusBucket (s : BoltStore) (status st : Status) (id k : Int) :
    (s.addToStatusBucket status id).Indexed st k ↔ (Defined st ∧ st = status ∧ k = id) ∨ s.Indexed st k := by
  unfold Indexed addToStatusBucket
  rw [getStatusBucket_onStatusBucket, defined_iff_bucket s st]
  by_cases h : st = status
  · rw [if_pos h]
    cases s.getStatusBucket st with
    | none => simp
    | some b => simp [h]
  · simp [h]

theorem indexed_removeFromStatusBucket (s : BoltStore) (status st : Status) (id k : Int) :
    (s.removeFromStatusBucket status id).Indexed st k ↔ s.Indexed st k ∧ ¬ (st = status ∧ k = id) := by
  unfold Indexed removeFromStatusBucket
  rw [getStatusBucket_onStatusBucket]
  by_cases h : st = status
  · rw [if_pos h]
    cases s.getStatusBucket st with
    | none => simp
    | some b => simp [h, and_comm]
  · simp [h]

/-- The step that `Update` and `Cancel` end with. -/
theorem indexed_write (s : BoltStore) (old : Status) (j : Job) (st : Status) (id k : Int) :
    (((s.removeFromStatusBucket old id).putJob j).addToStatusBucket j.status id).Indexed st k ↔
      (Defined st ∧ st = j.status ∧ k = id) ∨ (s.Indexed st k ∧ ¬ (st = old ∧ k = id)) := by
  rw [indexed_addToStatusBucket, ← indexed_removeFromStatusBucket]
  rfl

/-! ## What `Get` answers -/

theorem get_write (s : BoltStore) (old : Status) (j : Job) (id k : Int) :
    (((s.removeFromStatusBucket old id).putJob j).addToStatusBucket j.status id).get k =
      if k = j.id then some j else s.get k := by
  unfold get addToStatusBucket putJob removeFromStatusBucket
  rw [onStatusBucket_jobs, onStatusBucket_jobs]
  exact GoMap.lookup_insert_ite s.jobs j.id k j

/-- What `Add` leaves behind: the job is put, its key is written if it has one, and its id is indexed. -/
theorem add_eq {s s' : BoltStore} {j : Job} (h : s.add j = .ok s') :
    ∃ keys, s' = { s.putJob j with idempotencyKeys := keys }.addToStatusBucket j.status j.id := by
  unfold add at h
  dsimp only at h
  split at h
  · split at h
    · cases h
    · cases h; exact ⟨_, rfl⟩
  · cases h; exact ⟨_, rfl⟩

theorem update_eq {s s' : BoltStore} {j : Job} (h : s.update j = .ok s') :
    ∃ existing, s.get j.id = some existing ∧ isValidTransition existing.status j.status = true ∧
      s' = ((s.removeFromStatusBucket existing.status j.id).putJob j).addToStatusBucket j.status j.id := by
  unfold update at h
  split at h
  · cases h
  · rename_i existing he
    split at h
    · cases h
    · rename_i hv
      cases h
      exact ⟨existing, he, by simpa using hv, rfl⟩

theorem delete_eq (s : BoltStore) (id : Int) :
    (s.get id = none ∧ (s.delete id).2 = s) ∨ ∃ j keys, s.get id = some j ∧
      (s.delete id).2 =
        { s.removeFromStatusBucket j.status id with jobs := s.jobs.erase id, idempotencyKeys := keys } := by
  unfold delete get
  cases s.jobs.lookup id with
  | none => exact .inl ⟨rfl, rfl⟩
  | some j =>
    refine .inr ⟨j, ?_, rfl, ?_⟩
    · exact if j.idempotencyKey ≠ "" then
        (s.removeFromStatusBucket j.status id).idempotencyKeys.erase j.idempotencyKey
        else (s.removeFromStatusBucket j.status id).idempotencyKeys
    · dsimp only
      split
      · simp [removeFromStatusBucket]
      · simp [removeFromStatusBucket]

theorem cancel_eq {s s' : BoltStore} {id : Int} (h : s.cancel id = .ok s') :
    ∃ j, s.get id = some j ∧ j.status.isTerminal = false ∧
      s' =
        ((s.removeFromStatusBucket j.status id).putJob { j with status := .cancelled }).addToStatusBucket
          .cancelled id := by
  unfold cancel at h
  split at h
  · cases h
  · rename_i j hj
    split at h
    · cases h
    · rename_i ht
      cases h
      exact ⟨j, hj, by simpa using ht, rfl⟩

theorem get_add {s s' : BoltStore} {j : Job} (h : s.add j = .ok s') (k : Int) :
    s'.get k = if k = j.id then some j else s.get k := by
  obtain ⟨keys, rfl⟩ := add_eq h
  unfold get addToStatusBucket
  rw [onStatusBucket_jobs]
  exact GoMap.lookup_insert_ite s.jobs j.id k j

theorem get_update {s s' : BoltStore} {j : Job} (h : s.update j = .ok s') (k : Int) :
    s'.get k = if k = j.id then some j else s.get k := by
  obtain ⟨existing, -, -, rfl⟩ := update_eq h
  exact get_write s existing.status j j.id k

theorem get_delete (s : BoltStore) (id k : Int) : (s.delete id).2.get k = if k = id then none else s.get k := by
  rcases delete_eq s id with ⟨hn, he⟩ | ⟨j, keys, -, he⟩
  · rw [he]
    split
    · rename_i hk; rw [hk]; exact hn
    · rfl
  · rw [he]
    exact GoMap.lookup_erase_ite s.jobs id k

theorem cancel_ok {s s' : BoltStore} {id : Int} (h : s.cancel id = .ok s') :
    ∃ j, s.get id = some j ∧ j.status.isTerminal = false ∧
      (j.id = id → ∀ k, s'.get k = if k = id then some { j with status := .cancelled } else s.get k) := by
  obtain ⟨j, hj, ht, rfl⟩ := cancel_eq h
  refine ⟨j, hj, ht, fun hid k => ?_⟩
  subst hid
  exact get_write s j.status { j with status := .cancelled } j.id k

theorem get_deleteCron (s : BoltStore) (id : String) (k : Int) : (s.deleteCron id).2.get k = s.get k := by
  unfold deleteCron
  split <;> rfl

theorem addCron_eq {s s' : BoltStore} {c : CronJob} (h : s.addCron c = .ok s') :
    s' = { s with cronJobs := s.cronJobs.insert c.id c } := by
  unfold addCron at h
  split at h
  · cases h
  · cases h; rfl

/-! ## The buckets stay coherent -/

theorem coherent_new : new.Coherent := by
  refine ⟨fun id j h => ?_, fun status id => ⟨?_, ?_⟩⟩
  · cases h
  · rintro ⟨b, hb, hid⟩
    cases status <;> cases hb <;> cases hid
  · rintro ⟨-, j, hj, -⟩
    cases hj

theorem coherent_add {s s' : BoltStore} {j : Job} (hs : s.Coherent) (hf : s.get j.id = none)
    (h : s.add j = .ok s') : s'.Coherent := by
  refine hs.insert hf (get_add h) fun st k => ?_
  obtain ⟨keys, rfl⟩ := add_eq h
  rw [indexed_addToStatusBucket]
  rfl

theorem coherent_update {s s' : BoltStore} {j : Job} (hs : s.Coherent) (h : s.update j = .ok s') :
    s'.Coherent := by
  obtain ⟨existing, he, -, rfl⟩ := update_eq h
  exact hs.write he (get_update h) fun st k => indexed_write s existing.status j st j.id k

theorem coherent_delete {s : BoltStore} (id : Int) (hs : s.Coherent) : (s.delete id).2.Coherent := by
  rcases delete_eq s id with ⟨-, he⟩ | ⟨j, keys, hj, he⟩
  · rw [he]; exact hs
  · refine hs.erase hj (get_delete s id) fun st k => ?_
    rw [he, ← indexed_removeFromStatusBucket]
    rfl

theorem coherent_cancel {s s' : BoltStore} {id : Int} (hs : s.Coherent) (h : s.cancel id = .ok s') :
    s'.Coherent := by
  obtain ⟨j, hj, -, rfl⟩ := cancel_eq h
  -- the job goes back under its own id, which is the id it was found under
  have hid := hs.keyed id j hj
  subst hid
  exact hs.write (j := { j with status := .cancelled }) hj
    (fun k => get_write s j.status { j with status := .cancelled } j.id k)
    fun st k => indexed_write s j.status { j with status := .cancelled } st j.id k

theorem coherent_deleteCron {s : BoltStore} (id : String) (hs : s.Coherent) : (s.deleteCron id).2.Coherent := by
  unfold deleteCron
  split
  · exact hs
  · exact ⟨hs.keyed, hs.index⟩

/-! ## The contract -/

theorem add_fresh {s : BoltStore} {j : Job} (hk : j.idempotencyKey = "") : ∃ s', s.add j = .ok s' := by
  unfold add
  dsimp only
  rw [if_neg (not_not.2 hk)]
  exact ⟨_, rfl⟩

theorem update_ok {s : BoltStore} {j : Job} : (∃ s', s.update j = .ok s') ↔
    ∃ e, s.get j.id = some e ∧ isValidTransition e.status j.status = true := by
  unfold update get
  cases s.jobs.lookup j.id with
  | none => simp
  | some e => cases h : isValidTransition e.status j.status <;> simp [h]

theorem mem_list {ord : RangeOrder Int} {s : BoltStore} {j : Job} (hs : s.Coherent) :
    j ∈ s.list ord ↔ s.get j.id = some j := by
  refine GoMap.mem_values.trans ⟨?_, fun h => ⟨j.id, h⟩⟩
  rintro ⟨k, hk⟩
  rw [hs.keyed k j hk]
  exact hk

theorem listByStatus_ok (ord : RangeOrder Int) {s : BoltStore} {status : Status} (hd : Defined status)
    (hs : s.Coherent) : ∃ l, s.listByStatus ord status = .ok l ∧ (l.map Job.id).Nodup ∧
      ∀ j, j ∈ l ↔ s.get j.id = some j ∧ j.status = status := by
  obtain ⟨b, hb⟩ := (defined_iff_bucket s status).1 hd
  unfold listByStatus
  rw [hb]
  refine ⟨_, rfl, hs.walk hd (ord.nodup_order b.keys_nodup) fun id => ?_⟩
  rw [ord.mem_order, ← AList.mem_keys]
  simp [Indexed, hb]

instance : LawfulStore BoltStore where
  WF := Coherent
  dead s k := s.dlq.lookup k
  wf_empty := coherent_new
  get_empty _ := rfl
  get_id h hj := h.keyed _ _ hj
  mem_list := mem_list
  add_ok _ hk := add_fresh hk
  get_add := get_add
  wf_add := coherent_add
  update_ok := update_ok
  get_update := get_update
  wf_update := coherent_update
  get_delete := get_delete
  wf_delete := coherent_delete
  cancel_ok := cancel_ok
  wf_cancel := coherent_cancel
  mem_listDLQ := GoMap.mem_values
  dead_add h := by
    obtain ⟨keys, rfl⟩ := add_eq h
    simp [addToStatusBucket, putJob]
  dead_update h := by
    obtain ⟨existing, -, -, rfl⟩ := update_eq h
    simp [addToStatusBucket, removeFromStatusBucket, putJob]
  dead_delete s id := by
    rcases delete_eq s id with ⟨-, he⟩ | ⟨j, keys, -, he⟩
    · exact funext fun k => congrArg (fun t : BoltStore => t.dlq.lookup k) he
    · refine funext fun k => (congrArg (fun t : BoltStore => t.dlq.lookup k) he).trans ?_
      simp [removeFromStatusBucket]
  dead_cancel h := by
    obtain ⟨j, -, -, rfl⟩ := cancel_eq h
    simp [addToStatusBucket, removeFromStatusBucket, putJob]
  dead_addDLQ s j k := GoMap.lookup_insert_ite s.dlq j.id k j
  get_addDLQ _ _ _ := rfl
  wf_addDLQ _ h := ⟨h.keyed, h.index⟩
  get_addCron h k := by rw [addCron_eq h]; rfl
  wf_addCron hs h := by rw [addCron_eq h]; exact ⟨hs.keyed, hs.index⟩
  get_deleteCron := get_deleteCron
  wf_deleteCron := coherent_deleteCron
  listByStatus_ok ord _ st hd h := listByStatus_ok ord hd h

end BoltStore

end Quorum
