/-
`MemoryStore` (`internal/store/memory_store.go`): a job map with a status index and an
idempotency-key index, and its contract. The representation invariant `Coherent` says that
`statusIndex` indexes the job map by status, for every status string.
-/
import Quorum.Store.Interface
import Quorum.Store.StatusIndex

namespace Quorum

structure MemoryStore where
  jobs : GoMap Int Job
  statusIndex : GoMap Status (GoMap Int Unit)
  crons : GoMap String CronJob
  dlq : GoMap Int Job
  idempotencyIndex : GoMap String Int
  deriving DecidableEq

namespace MemoryStore

/-- `NewMemoryStore`. -/
def new : MemoryStore := ⟨∅, ∅, ∅, ∅, ∅⟩

def addToStatusIndex (s : MemoryStore) (status : Status) (id : Int) : MemoryStore :=
  let set := (s.statusIndex.lookup status).getD ∅
  { s with statusIndex := s.statusIndex.insert status (set.insert id ()) }

def removeFromStatusIndex (s : MemoryStore) (status : Status) (id : Int) : MemoryStore :=
  match s.statusIndex.lookup status with
  | none => s
  | some set => { s with statusIndex := s.statusIndex.insert status (set.erase id) }

def add (s : MemoryStore) (j : Job) : Except String MemoryStore :=
  match s.jobs.lookup j.id with
  | some _ => .error s!"job {j.id} already exists"
  | none =>
    let s := { s with jobs := s.jobs.insert j.id j }
    let s := if j.idempotencyKey ≠ "" then
        { s with idempotencyIndex := s.idempotencyIndex.insert j.idempotencyKey j.id }
      else s
    .ok (s.addToStatusIndex j.status j.id)

def get (s : MemoryStore) (id : Int) : Option Job := s.jobs.lookup id

def list (ord : RangeOrder Int) (s : MemoryStore) : List Job := s.jobs.values ord

/-- `ListByStatus` walks the index set and keeps the ids that are stored. -/
def listByStatus (ord : RangeOrder Int) (s : MemoryStore) (status : Status) : Except String (List Job) :=
  match s.statusIndex.lookup status with
  | none => .ok []
  | some idsSet => .ok ((ord.order idsSet.keys).filterMap s.jobs.lookup)

def update (s : MemoryStore) (j : Job) : Except String MemoryStore :=
  match s.jobs.lookup j.id with
  | none => .error s!"job {j.id} not found for update"
  | some existing =>
    if isValidTransition existing.status j.status = false then
      .error s!"invalid job status transition from {existing.status} to {j.status} for job {j.id}"
    else
      let s := s.removeFromStatusIndex existing.status j.id
      let s := { s with jobs := s.jobs.insert j.id j }
      .ok (s.addToStatusIndex j.status j.id)

def delete (s : MemoryStore) (id : Int) : Bool × MemoryStore :=
  match s.jobs.lookup id with
  | none => (false, s)
  | some j =>
    let s := s.removeFromStatusIndex j.status id
    let s := if j.idempotencyKey ≠ "" then
        { s with idempotencyIndex := s.idempotencyIndex.erase j.idempotencyKey }
      else s
    (true, { s with jobs := s.jobs.erase id })

def cancel (s : MemoryStore) (id : Int) : Except String MemoryStore :=
  match s.jobs.lookup id with
  | none => .error "job not found"
  | some j =>
    if j.status.isTerminal then .error s!"job already in terminal status {j.status}"
    else
      let s := s.removeFromStatusIndex j.status id
      let s := { s with jobs := s.jobs.insert id { j with status := .cancelled } }
      .ok (s.addToStatusIndex .cancelled id)

def addCron (s : MemoryStore) (c : CronJob) : Except String MemoryStore := .ok { s with crons := s.crons.insert c.id c }

def deleteCron (s : MemoryStore) (id : String) : Bool × MemoryStore :=
  match s.crons.lookup id with
  | none => (false, s)
  | some _ => (true, { s with crons := s.crons.erase id })

def listCrons (ord : RangeOrder String) (s : MemoryStore) : List CronJob := s.crons.values ord

def addDLQ (s : MemoryStore) (j : Job) : MemoryStore := { s with dlq := s.dlq.insert j.id j }

def listDLQ (ord : RangeOrder Int) (s : MemoryStore) : List Job := s.dlq.values ord

/-- The empty key never matches: it bypasses deduplication. -/
def findByIdempotencyKey (s : MemoryStore) (key : String) : Option Job :=
  if key = "" then none else (s.idempotencyIndex.lookup key).bind s.jobs.lookup

instance : Store MemoryStore where
  empty := new
  add := add
  get := get
  list := list
  listByStatus := listByStatus
  update := update
  delete := delete
  cancel := cancel
  addCron := addCron
  deleteCron := deleteCron
  listCrons := listCrons
  addDLQ := addDLQ
  listDLQ := listDLQ
  findByIdempotencyKey := findByIdempotencyKey

/-! ## The status index -/

/-- `id` is in `statusIndex[status]`. -/
def Indexed (s : MemoryStore) (status : Status) (id : Int) : Prop :=
  ∃ set, s.statusIndex.lookup status = some set ∧ id ∈ set

/-- The representation invariant. -/
def Coherent (s : MemoryStore) : Prop := StatusIndex (fun _ => True) s.get s.Indexed

@[simp] theorem addToStatusIndex_jobs (s : MemoryStore) (status : Status) (id : Int) :
    (s.addToStatusIndex status id).jobs = s.jobs := rfl

@[simp] theorem removeFromStatusIndex_jobs (s : MemoryStore) (status : Status) (id : Int) :
    (s.removeFromStatusIndex status id).jobs = s.jobs := by
  unfold removeFromStatusIndex; split <;> rfl

@[simp] theorem removeFromStatusIndex_dlq (s : MemoryStore) (status : Status) (id : Int) :
    (s.removeFromStatusIndex status id).dlq = s.dlq := by
  unfold removeFromStatusIndex; split <;> rfl

theorem indexed_addToStatusIndex (s : MemoryStore) (status st : Status) (id k : Int) :
    (s.addToStatusIndex status id).Indexed st k ↔ (st = status ∧ k = id) ∨ s.Indexed st k := by
  unfold Indexed addToStatusIndex
  simp only [GoMap.lookup_insert_ite]
  by_cases h : st = status
  · subst h
    simp only [if_true, Option.some.injEq, exists_eq_left', AList.mem_insert, true_and]
    cases hs : s.statusIndex.lookup st with
    | none => simp
    | some set => simp
  · simp [h]

theorem indexed_removeFromStatusIndex (s : MemoryStore) (status st : Status) (id k : Int) :
    (s.removeFromStatusIndex status id).Indexed st k ↔ s.Indexed st k ∧ ¬ (st = status ∧ k = id) := by
  unfold Indexed removeFromStatusIndex
  cases hs : s.statusIndex.lookup status with
  | none =>
    constructor
    · rintro ⟨set, h, hk⟩
      refine ⟨⟨set, h, hk⟩, ?_⟩
      rintro ⟨rfl, -⟩; rw [hs] at h; cases h
    · rintro ⟨h, -⟩; exact h
  | some set =>
    simp only [GoMap.lookup_insert_ite]
    by_cases h : st = status
    · subst h
      simp only [if_true, Option.some.injEq, exists_eq_left', AList.mem_erase, true_and, hs]
      tauto
    · simp [h]

/-! ## The dead-letter queue -/

theorem dlq_add {s s' : MemoryStore} {j : Job} (h : s.add j = .ok s') : s'.dlq = s.dlq := by
  unfold add at h
  split at h
  · cases h
  · simp only [Except.ok.injEq] at h
    subst h
    dsimp only [addToStatusIndex]
    split <;> rfl

theorem dlq_update {s s' : MemoryStore} {j : Job} (h : s.update j = .ok s') : s'.dlq = s.dlq := by
  unfold update at h
  split at h
  · cases h
  · split at h
    · cases h
    · cases h
      exact removeFromStatusIndex_dlq s _ _

theorem dlq_delete (s : MemoryStore) (id : Int) : (s.delete id).2.dlq = s.dlq := by
  unfold delete
  split
  · rfl
  · dsimp only
    split <;> exact removeFromStatusIndex_dlq s _ _

theorem dlq_cancel {s s' : MemoryStore} {id : Int} (h : s.cancel id = .ok s') : s'.dlq = s.dlq := by
  unfold cancel at h
  split at h
  · cases h
  · split at h
    · cases h
    · cases h
      exact removeFromStatusIndex_dlq s _ _

/-! ## What `Get` answers -/

theorem get_deleteCron (s : MemoryStore) (id : String) (k : Int) : (s.deleteCron id).2.get k = s.get k := by
  unfold deleteCron
  split <;> rfl

theorem add_fresh {s : MemoryStore} {j : Job} (h : s.get j.id = none) : ∃ s', s.add j = .ok s' := by
  unfold get at h
  simp [add, h]

theorem get_add {s s' : MemoryStore} {j : Job} (h : s.add j = .ok s') (k : Int) :
    s'.get k = if k = j.id then some j else s.get k := by
  unfold add at h
  split at h
  · cases h
  · simp only [Except.ok.injEq] at h
    subst h
    unfold get
    rw [addToStatusIndex_jobs, ← GoMap.lookup_insert_ite]
    split <;> rfl

theorem update_ok {s : MemoryStore} {j : Job} : (∃ s', s.update j = .ok s') ↔
    ∃ e, s.get j.id = some e ∧ isValidTransition e.status j.status = true := by
  unfold update get
  cases s.jobs.lookup j.id with
  | none => simp
  | some e => cases h : isValidTransition e.status j.status <;> simp [h]

theorem get_update {s s' : MemoryStore} {j : Job} (h : s.update j = .ok s') (k : Int) :
    s'.get k = if k = j.id then some j else s.get k := by
  unfold update at h
  split at h
  · cases h
  · split at h
    · cases h
    · simp only [Except.ok.injEq, removeFromStatusIndex_jobs] at h
      subst h
      exact GoMap.lookup_insert_ite s.jobs j.id k j

theorem get_delete (s : MemoryStore) (id k : Int) : (s.delete id).2.get k = if k = id then none else s.get k := by
  unfold delete get
  split
  · rename_i hn
    split
    · rename_i hk; rw [hk]; exact hn
    · rfl
  · rw [← GoMap.lookup_erase_ite]
    dsimp only
    split <;> simp

theorem cancel_ok {s s' : MemoryStore} {id : Int} (h : s.cancel id = .ok s') :
    ∃ j, s.get id = some j ∧ j.status.isTerminal = false ∧
      ∀ k, s'.get k = if k = id then some { j with status := .cancelled } else s.get k := by
  unfold cancel at h
  split at h
  · cases h
  · rename_i j hj
    split at h
    · cases h
    · rename_i ht
      simp only [Except.ok.injEq, removeFromStatusIndex_jobs] at h
      subst h
      exact ⟨j, hj, by simpa using ht, fun k => GoMap.lookup_insert_ite s.jobs id k _⟩

/-! ## The index stays coherent -/

theorem coherent_new : new.Coherent := by
  refine ⟨fun id j h => ?_, fun status id => ?_⟩
  · simp [new, get] at h
  · simp [new, Indexed, get]

theorem coherent_add {s s' : MemoryStore} {j : Job} (hs : s.Coherent) (hf : s.get j.id = none)
    (h : s.add j = .ok s') : s'.Coherent := by
  refine hs.insert hf (get_add h) fun st k => ?_
  unfold add at h
  rw [show s.jobs.lookup j.id = none from hf] at h
  cases h
  rw [indexed_addToStatusIndex, true_and]
  split <;> rfl

theorem coherent_update {s s' : MemoryStore} {j : Job} (hs : s.Coherent) (h : s.update j = .ok s') :
    s'.Coherent := by
  unfold update at h
  split at h
  · cases h
  · rename_i existing he
    split at h
    · cases h
    · rename_i hv
      refine hs.write he (get_update (j := j) ?_) fun st k => ?_
      · unfold update
        rw [he]
        dsimp only
        rw [if_neg hv, h]
      · cases h
        rw [indexed_addToStatusIndex, true_and]
        exact or_congr_right (indexed_removeFromStatusIndex s existing.status st j.id k)

theorem coherent_delete {s : MemoryStore} (id : Int) (hs : s.Coherent) : (s.delete id).2.Coherent := by
  cases hj : s.jobs.lookup id with
  | none => simpa only [delete, hj] using hs
  | some j =>
    refine hs.erase hj (get_delete s id) fun st k => ?_
    -- the key index and the job map are not part of the status index
    rw [← indexed_removeFromStatusIndex]
    simp only [delete, hj]
    split <;> rfl

theorem coherent_cancel {s s' : MemoryStore} {id : Int} (hs : s.Coherent) (h : s.cancel id = .ok s') :
    s'.Coherent := by
  obtain ⟨j, hj, ht, hget⟩ := cancel_ok h
  have hid := hs.keyed id j hj
  subst hid
  refine hs.write (j := { j with status := .cancelled }) hj hget fun st k => ?_
  unfold cancel at h
  rw [show s.jobs.lookup j.id = some j from hj] at h
  dsimp only at h
  rw [ht] at h
  cases h
  rw [indexed_addToStatusIndex, true_and]
  exact or_congr_right (indexed_removeFromStatusIndex s j.status st j.id k)

theorem coherent_deleteCron {s : MemoryStore} (id : String) (hs : s.Coherent) : (s.deleteCron id).2.Coherent := by
  unfold deleteCron
  split
  · exact hs
  · exact ⟨hs.keyed, hs.index⟩

/-! ## The contract -/

theorem mem_list {ord : RangeOrder Int} {s : MemoryStore} {j : Job} (hs : s.Coherent) :
    j ∈ s.list ord ↔ s.get j.id = some j := by
  refine GoMap.mem_values.trans ⟨?_, fun h => ⟨j.id, h⟩⟩
  rintro ⟨k, hk⟩
  rw [hs.keyed k j hk]
  exact hk

theorem listByStatus_ok (ord : RangeOrder Int) {s : MemoryStore} (status : Status) (hs : s.Coherent) :
    ∃ l, s.listByStatus ord status = .ok l ∧ (l.map Job.id).Nodup ∧
      ∀ j, j ∈ l ↔ s.get j.id = some j ∧ j.status = status := by
  unfold listByStatus
  cases hset : s.statusIndex.lookup status with
  | none =>
    have hempty : ∀ id, id ∈ ([] : List Int) ↔ s.Indexed status id := by simp [Indexed, hset]
    exact ⟨[], rfl, hs.walk trivial List.nodup_nil hempty⟩
  | some set =>
    refine ⟨_, rfl, hs.walk trivial (ord.nodup_order set.keys_nodup) fun id => ?_⟩
    rw [ord.mem_order, ← AList.mem_keys]
    simp [Indexed, hset]

instance : LawfulStore MemoryStore where
  WF := Coherent
  dead s k := s.dlq.lookup k
  wf_empty := coherent_new
  get_empty _ := rfl
  get_id h hj := h.keyed _ _ hj
  mem_list := mem_list
  add_ok h _ := add_fresh h
  get_add := get_add
  wf_add := coherent_add
  update_ok := update_ok
  get_update := get_update
  wf_update := coherent_update
  get_delete := get_delete
  wf_delete := coherent_delete
  cancel_ok h := by
    obtain ⟨j, hj, ht, hget⟩ := cancel_ok h
    exact ⟨j, hj, ht, fun _ => hget⟩
  wf_cancel := coherent_cancel
  mem_listDLQ := GoMap.mem_values
  dead_add h := funext fun k => congrArg (AList.lookup k) (dlq_add h)
  dead_update h := funext fun k => congrArg (AList.lookup k) (dlq_update h)
  dead_delete s id := funext fun k => congrArg (AList.lookup k) (dlq_delete s id)
  dead_cancel h := funext fun k => congrArg (AList.lookup k) (dlq_cancel h)
  dead_addDLQ s j k := GoMap.lookup_insert_ite s.dlq j.id k j
  get_addDLQ _ _ _ := rfl
  wf_addDLQ _ h := ⟨h.keyed, h.index⟩
  get_addCron h k := by cases h; rfl
  wf_addCron hs h := by cases h; exact ⟨hs.keyed, hs.index⟩
  get_deleteCron := get_deleteCron
  wf_deleteCron := coherent_deleteCron
  listByStatus_ok ord _ st _ h := listByStatus_ok ord st h

end MemoryStore

end Quorum
