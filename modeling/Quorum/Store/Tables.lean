/-
What a store holds, whatever its layout: jobs by id, ids by idempotency key, crons and dead letters (`Tables`), and
what each call that writes does to them. The two implementations differ in what they take (`Limits`) and in nothing
else: `write_tables` is the refinement, for every call, accepted or not.
-/
import Quorum.Lib.Machine
import Quorum.Store.Keys

namespace Quorum

/-- The calls of the `Store` interface that write. -/
inductive Write where
  | add (j : Job)
  | update (j : Job)
  | delete (id : Int)
  | cancel (id : Int)
  | addCron (c : CronJob)
  | deleteCron (id : String)
  | addDLQ (j : Job)
  deriving DecidableEq

namespace Store

variable {σ : Type} [Store σ]

/-- The store after a call that returns an error or nothing, and what it returned. -/
def settle (s : σ) (r : Except String σ) : σ × Except String Bool := ((orUnchanged s r).1, r.map fun _ => true)

/-- A call: the store afterwards, and the error or the boolean of `Delete` and `DeleteCron`. -/
def write (s : σ) : Write → σ × Except String Bool
  | .add j => settle s (add s j)
  | .update j => settle s (update s j)
  | .delete id => ((delete s id).2, .ok (delete s id).1)
  | .cancel id => settle s (cancel s id)
  | .addCron c => settle s (addCron s c)
  | .deleteCron id => ((deleteCron s id).2, .ok (deleteCron s id).1)
  | .addDLQ j => (addDLQ s j, .ok true)

/-- A store under a sequence of calls. -/
def writes : Machine σ Write (Except String Bool) := ⟨fun s w => ((write s w).1, [(write s w).2])⟩

theorem writes_step (s : σ) (w : Write) : (writes.step s w).1 = (write s w).1 := rfl

end Store

/-! ## The tables -/

/-- What a store takes: whether `Add` replaces a stored job, and which idempotency keys and cron ids it can write. -/
structure Limits where
  overwrites : Bool
  key : String → Bool
  cron : String → Bool

structure Tables where
  job : Int → Option Job
  key : String → Option Int
  cron : String → Option CronJob
  dead : Int → Option Job

namespace Tables

def empty : Tables := ⟨fun _ => none, fun _ => none, fun _ => none, fun _ => none⟩

/-- A job under its own id. -/
def put (t : Tables) (j : Job) : Tables := { t with job := fun k => if k = j.id then some j else t.job k }

/-- `Add` is accepted. -/
def Takes (L : Limits) (t : Tables) (j : Job) : Prop :=
  L.key j.idempotencyKey = true ∧ (t.job j.id = none ∨ L.overwrites = true)

instance (L : Limits) (t : Tables) (j : Job) : Decidable (t.Takes L j) := by unfold Takes; infer_instance

/-- A call on the tables; the result is `none` if it fails. -/
def write (L : Limits) (t : Tables) : Write → Tables × Option Bool
  | .add j =>
    if t.Takes L j then ({ t.put j with key := fun k => if j.key = some k then some j.id else t.key k }, some true)
    else (t, none)
  | .update j =>
    if (t.job j.id).any fun old => isValidTransition old.status j.status then (t.put j, some true) else (t, none)
  | .delete id =>
    ({ t with job := fun k => if k = id then none else t.job k,
              key := fun k => if (t.job id).bind Job.key = some k then none else t.key k }, some (t.job id).isSome)
  | .cancel id =>
    match (t.job id).filter fun j => !j.status.isTerminal with
    | some j => (t.put { j with status := .cancelled }, some true)
    | none => (t, none)
  | .addCron c =>
    if L.cron c.id then ({ t with cron := fun k => if k = c.id then some c else t.cron k }, some true) else (t, none)
  | .deleteCron id => ({ t with cron := fun k => if k = id then none else t.cron k }, some (t.cron id).isSome)
  | .addDLQ j => ({ t with dead := fun k => if k = j.id then some j else t.dead k }, some true)

/-- Every job is under its own id. -/
def Keyed (t : Tables) : Prop := ∀ id j, t.job id = some j → j.id = id

theorem Keyed.put {t : Tables} (h : t.Keyed) (j : Job) : (t.put j).Keyed := by
  intro id x hx
  simp only [Tables.put] at hx
  split at hx
  · rename_i hid; cases hx; exact hid.symm
  · exact h id x hx

theorem Keyed.write {t : Tables} (h : t.Keyed) (L : Limits) (w : Write) : (t.write L w).1.Keyed := by
  cases w with
  | add j =>
    simp only [Tables.write]
    split
    · exact h.put j
    · exact h
  | update j =>
    simp only [Tables.write]
    split
    · exact h.put j
    · exact h
  | delete id =>
    intro k x hx
    simp only [Tables.write] at hx
    split at hx
    · cases hx
    · exact h k x hx
  | cancel id =>
    simp only [Tables.write]
    split
    · exact h.put _
    · exact h
  | addCron c =>
    simp only [Tables.write]
    split <;> exact h
  | deleteCron _ | addDLQ _ => exact h

/-- What a call does to the job under one id. -/
inductive Change (L : Limits) (t : Tables) : Write → Int → Option Job → Prop
  | same {w : Write} {id : Int} : Change L t w id (t.job id)
  | added {j : Job} : t.Takes L j → Change L t (.add j) j.id (some j)
  | updated {j old : Job} : t.job j.id = some old → isValidTransition old.status j.status = true →
      Change L t (.update j) j.id (some j)
  | deleted {id : Int} : Change L t (.delete id) id none
  | cancelled {id : Int} {j : Job} : t.job id = some j → j.status.isTerminal = false →
      Change L t (.cancel id) j.id (some { j with status := .cancelled })

theorem write_job (L : Limits) (t : Tables) (w : Write) (id : Int) : Change L t w id ((t.write L w).1.job id) := by
  cases w with
  | add j =>
    simp only [write]
    split
    · rename_i htakes
      by_cases hid : id = j.id
      · rw [hid]
        simpa [put] using Change.added htakes
      · simpa [put, hid] using Change.same
    · exact .same
  | update j =>
    simp only [write]
    split
    · rename_i hok
      obtain ⟨old, hold, hv⟩ := (Option.any_eq_true _ _).1 hok
      by_cases hid : id = j.id
      · rw [hid]
        simpa [put] using Change.updated hold hv
      · simpa [put, hid] using Change.same
    · exact .same
  | delete k =>
    by_cases hid : id = k
    · rw [hid]
      simpa [write] using Change.deleted
    · simpa [write, hid] using Change.same
  | cancel k =>
    simp only [write]
    split
    · rename_i j hj
      obtain ⟨hj, ht⟩ := Option.filter_eq_some_iff.1 hj
      by_cases hid : id = j.id
      · rw [hid]
        simpa [put] using Change.cancelled hj (by simpa using ht)
      · simpa [put, hid] using Change.same
    · exact .same
  | addCron c =>
    simp only [write]
    split <;> exact .same
  | deleteCron _ | addDLQ _ => exact .same

/-- The tables under a sequence of calls. -/
def writes (L : Limits) : Machine Tables Write (Option Bool) := ⟨fun t w => ((t.write L w).1, [(t.write L w).2])⟩

end Tables

/-! ## The stores as tables -/

/-- The rest of the contract: when each call is accepted, the crons, the status index as it is kept, coherent or
not, and every list as a walk over one of the maps. -/
class TableStore (σ : Type) extends IndexedStore σ where
  limits : Limits
  cron : σ → String → Option CronJob
  /-- The statuses that have a set in the index. -/
  Indexes : Status → Prop
  indexed : σ → Status → Int → Prop
  indexes_defined : ∀ {st : Status}, st.toString ∈ statusNames → Indexes st
  wf_iff : ∀ {s}, WF s ↔ StatusIndex Indexes (get s) (indexed s)
  add_ok_iff : ∀ {s j}, (∃ s', add s j = .ok s') ↔
    limits.key j.idempotencyKey = true ∧ (get s j.id = none ∨ limits.overwrites = true)
  indexed_add : ∀ {s j s'}, add s j = .ok s' → ∀ st k, indexed s' st k ↔
    (Indexes st ∧ st = j.status ∧ k = j.id) ∨ indexed s st k
  cancel_ok_iff : ∀ {s id}, (∃ s', cancel s id = .ok s') ↔ ∃ j, get s id = some j ∧ j.status.isTerminal = false
  delete_found : ∀ s id, (delete s id).1 = (get s id).isSome
  addCron_ok_iff : ∀ {s c}, (∃ s', addCron s c = .ok s') ↔ limits.cron c.id = true
  deleteCron_found : ∀ s id, (deleteCron s id).1 = (cron s id).isSome
  cron_empty : ∀ k, cron empty k = none
  cron_add : ∀ {s j s'}, add s j = .ok s' → cron s' = cron s
  cron_update : ∀ {s j s'}, update s j = .ok s' → cron s' = cron s
  cron_delete : ∀ s id, cron (delete s id).2 = cron s
  cron_cancel : ∀ {s id s'}, cancel s id = .ok s' → cron s' = cron s
  cron_addCron : ∀ {s c s'}, addCron s c = .ok s' → ∀ k, cron s' k = if k = c.id then some c else cron s k
  cron_deleteCron : ∀ s id k, cron (deleteCron s id).2 k = if k = id then none else cron s k
  cron_addDLQ : ∀ s j, cron (addDLQ s j) = cron s
  dead_addCron : ∀ {s c s'}, addCron s c = .ok s' → dead s' = dead s
  dead_deleteCron : ∀ s id, dead (deleteCron s id).2 = dead s
  list_eq : ∀ s, ∃ m : GoMap Int Job, (∀ k, m.lookup k = get s k) ∧ ∀ ord, list ord s = m.values ord
  listCrons_eq : ∀ s, ∃ m : GoMap String CronJob, (∀ k, m.lookup k = cron s k) ∧ ∀ ord, listCrons ord s = m.values ord
  listDLQ_eq : ∀ s, ∃ m : GoMap Int Job, (∀ k, m.lookup k = dead s k) ∧ ∀ ord, listDLQ ord s = m.values ord
  listByStatus_eq : ∀ ord s st, ∃ ids : List Int, ids.Nodup ∧ (∀ id, id ∈ ids ↔ indexed s st id) ∧
    listByStatus ord s st = .ok (ids.filterMap (get s))

namespace MemoryStore

@[simp] theorem removeFromStatusIndex_crons (s : MemoryStore) (status : Status) (id : Int) :
    (s.removeFromStatusIndex status id).crons = s.crons := by
  unfold removeFromStatusIndex; split <;> rfl

theorem add_ok_iff {s : MemoryStore} {j : Job} : (∃ s', s.add j = .ok s') ↔ s.get j.id = none := by
  unfold add get
  cases s.jobs.lookup j.id with
  | none => simp
  | some old => simp

theorem indexed_add {s s' : MemoryStore} {j : Job} (h : s.add j = .ok s') (st : Status) (k : Int) :
    s'.Indexed st k ↔ (st = j.status ∧ k = j.id) ∨ s.Indexed st k := by
  unfold add at h
  split at h
  · cases h
  · cases h
    rw [indexed_addToStatusIndex]
    split <;> rfl

theorem cancel_ok_iff {s : MemoryStore} {id : Int} :
    (∃ s', s.cancel id = .ok s') ↔ ∃ j, s.get id = some j ∧ j.status.isTerminal = false := by
  constructor
  · rintro ⟨s', h⟩
    obtain ⟨j, hj, ht, -⟩ := cancel_ok h
    exact ⟨j, hj, ht⟩
  · rintro ⟨j, hj, ht⟩
    unfold cancel
    rw [show s.jobs.lookup id = some j from hj]
    dsimp only
    rw [ht]
    exact ⟨_, rfl⟩

theorem crons_add {s s' : MemoryStore} {j : Job} (h : s.add j = .ok s') : s'.crons = s.crons := by
  unfold add at h
  split at h
  · cases h
  · cases h
    dsimp only [addToStatusIndex]
    split <;> rfl

theorem crons_update {s s' : MemoryStore} {j : Job} (h : s.update j = .ok s') : s'.crons = s.crons := by
  unfold update at h
  split at h
  · cases h
  · split at h
    · cases h
    · cases h
      exact removeFromStatusIndex_crons s _ _

theorem crons_delete (s : MemoryStore) (id : Int) : (s.delete id).2.crons = s.crons := by
  unfold delete
  split
  · rfl
  · dsimp only
    split <;> exact removeFromStatusIndex_crons s _ _

theorem crons_cancel {s s' : MemoryStore} {id : Int} (h : s.cancel id = .ok s') : s'.crons = s.crons := by
  unfold cancel at h
  split at h
  · cases h
  · split at h
    · cases h
    · cases h
      exact removeFromStatusIndex_crons s _ _

theorem lookup_deleteCron (s : MemoryStore) (id k : String) :
    (s.deleteCron id).2.crons.lookup k = if k = id then none else s.crons.lookup k := by
  unfold deleteCron
  cases hc : s.crons.lookup id with
  | none =>
    by_cases hk : k = id
    · rw [if_pos hk, hk]; exact hc
    · rw [if_neg hk]
  | some c => exact GoMap.lookup_erase_ite s.crons id k

theorem listByStatus_eq (ord : RangeOrder Int) (s : MemoryStore) (st : Status) : ∃ ids : List Int, ids.Nodup ∧
    (∀ id, id ∈ ids ↔ s.Indexed st id) ∧ s.listByStatus ord st = .ok (ids.filterMap s.get) := by
  unfold listByStatus Indexed
  cases s.statusIndex.lookup st with
  | none => exact ⟨[], List.nodup_nil, by simp, rfl⟩
  | some set =>
    refine ⟨ord.order set.keys, ord.nodup_order set.keys_nodup, fun id => ?_, rfl⟩
    rw [ord.mem_order, ← AList.mem_keys]
    simp

instance : TableStore MemoryStore where
  limits := ⟨false, fun _ => true, fun _ => true⟩
  cron s k := s.crons.lookup k
  Indexes _ := True
  indexed := Indexed
  indexes_defined _ := trivial
  wf_iff := Iff.rfl
  add_ok_iff := by
    intro s j
    rw [show (∃ s', Store.add s j = .ok s') ↔ s.get j.id = none from add_ok_iff]
    simp; rfl
  indexed_add h st k := by rw [indexed_add h, true_and]
  cancel_ok_iff := cancel_ok_iff
  delete_found s id := by
    show (s.delete id).1 = (s.jobs.lookup id).isSome
    unfold delete
    cases s.jobs.lookup id <;> rfl
  addCron_ok_iff := by
    intro s c
    exact ⟨fun _ => rfl, fun _ => ⟨_, rfl⟩⟩
  deleteCron_found s id := by
    show (s.deleteCron id).1 = (s.crons.lookup id).isSome
    unfold deleteCron
    cases s.crons.lookup id <;> rfl
  cron_empty _ := rfl
  cron_add h := funext fun k => congrArg (AList.lookup k) (crons_add h)
  cron_update h := funext fun k => congrArg (AList.lookup k) (crons_update h)
  cron_delete s id := funext fun k => congrArg (AList.lookup k) (crons_delete s id)
  cron_cancel h := funext fun k => congrArg (AList.lookup k) (crons_cancel h)
  cron_addCron := by
    intro s c s' h k
    cases h
    exact GoMap.lookup_insert_ite s.crons c.id k c
  cron_deleteCron := lookup_deleteCron
  cron_addDLQ _ _ := rfl
  dead_addCron h := by cases h; rfl
  dead_deleteCron s id := by
    show (fun k => (s.deleteCron id).2.dlq.lookup k) = fun k => s.dlq.lookup k
    unfold deleteCron
    split <;> rfl
  list_eq s := ⟨s.jobs, fun _ => rfl, fun _ => rfl⟩
  listCrons_eq s := ⟨s.crons, fun _ => rfl, fun _ => rfl⟩
  listDLQ_eq s := ⟨s.dlq, fun _ => rfl, fun _ => rfl⟩
  listByStatus_eq := listByStatus_eq

end MemoryStore

namespace BoltStore

@[simp] theorem onStatusBucket_crons (s : BoltStore) (f : GoMap Int Unit → GoMap Int Unit) (status : Status) :
    (s.onStatusBucket f status).cronJobs = s.cronJobs := by cases status <;> rfl

theorem add_ok_iff {s : BoltStore} {j : Job} :
    (∃ s', s.add j = .ok s') ↔ (j.idempotencyKey = "" ∨ (checkKey j.idempotencyKey).isOk = true) := by
  unfold add
  dsimp only
  by_cases hk : j.idempotencyKey = ""
  · rw [if_neg (not_not.2 hk)]
    exact ⟨fun _ => .inl hk, fun _ => ⟨_, rfl⟩⟩
  · rw [if_pos hk]
    cases checkKey j.idempotencyKey with
    | error err => simp [hk, Except.isOk, Except.toBool]
    | ok u => simp [Except.isOk, Except.toBool]

theorem indexed_add {s s' : BoltStore} {j : Job} (h : s.add j = .ok s') (st : Status) (k : Int) :
    s'.Indexed st k ↔ (Defined st ∧ st = j.status ∧ k = j.id) ∨ s.Indexed st k := by
  obtain ⟨keys, rfl⟩ := add_eq h
  rw [indexed_addToStatusBucket]
  rfl

theorem cancel_ok_iff {s : BoltStore} {id : Int} :
    (∃ s', s.cancel id = .ok s') ↔ ∃ j, s.get id = some j ∧ j.status.isTerminal = false := by
  constructor
  · rintro ⟨s', h⟩
    obtain ⟨j, hj, ht, -⟩ := cancel_ok h
    exact ⟨j, hj, ht⟩
  · rintro ⟨j, hj, ht⟩
    unfold cancel
    rw [show s.jobs.lookup id = some j from hj]
    dsimp only
    rw [ht]
    exact ⟨_, rfl⟩

theorem addCron_ok_iff {s : BoltStore} {c : CronJob} : (∃ s', s.addCron c = .ok s') ↔ (checkKey c.id).isOk = true := by
  unfold addCron
  cases checkKey c.id with
  | error err => simp [Except.isOk, Except.toBool]
  | ok u => simp [Except.isOk, Except.toBool]

theorem lookup_deleteCron (s : BoltStore) (id k : String) :
    (s.deleteCron id).2.cronJobs.lookup k = if k = id then none else s.cronJobs.lookup k := by
  unfold deleteCron
  cases hc : s.cronJobs.lookup id with
  | none =>
    by_cases hk : k = id
    · rw [if_pos hk, hk]; exact hc
    · rw [if_neg hk]
  | some c => exact GoMap.lookup_erase_ite s.cronJobs id k

theorem listByStatus_eq (ord : RangeOrder Int) (s : BoltStore) (st : Status) : ∃ ids : List Int, ids.Nodup ∧
    (∀ id, id ∈ ids ↔ s.Indexed st id) ∧ s.listByStatus ord st = .ok (ids.filterMap s.get) := by
  unfold listByStatus Indexed
  cases s.getStatusBucket st with
  | none => exact ⟨[], List.nodup_nil, by simp, rfl⟩
  | some b =>
    refine ⟨ord.order b.keys, ord.nodup_order b.keys_nodup, fun id => ?_, rfl⟩
    rw [ord.mem_order, ← AList.mem_keys]
    simp

instance : TableStore BoltStore where
  limits := ⟨true, fun k => k = "" || (checkKey k).isOk, fun k => (checkKey k).isOk⟩
  cron s k := s.cronJobs.lookup k
  Indexes := Defined
  indexed := Indexed
  indexes_defined h := h
  wf_iff := Iff.rfl
  add_ok_iff := by
    intro s j
    rw [show (∃ s', Store.add s j = .ok s') ↔ _ from add_ok_iff]
    simp
  indexed_add := indexed_add
  cancel_ok_iff := cancel_ok_iff
  delete_found s id := by
    show (s.delete id).1 = (s.jobs.lookup id).isSome
    unfold delete
    cases s.jobs.lookup id <;> rfl
  addCron_ok_iff := addCron_ok_iff
  deleteCron_found s id := by
    show (s.deleteCron id).1 = (s.cronJobs.lookup id).isSome
    unfold deleteCron
    cases s.cronJobs.lookup id <;> rfl
  cron_empty _ := rfl
  cron_add h := by
    obtain ⟨keys, rfl⟩ := add_eq h
    simp [addToStatusBucket, putJob]
  cron_update h := by
    obtain ⟨existing, -, -, rfl⟩ := update_eq h
    simp [addToStatusBucket, removeFromStatusBucket, putJob]
  cron_delete s id := by
    rcases delete_eq s id with ⟨-, he⟩ | ⟨j, keys, -, he⟩
    · exact funext fun k => congrArg (fun t : BoltStore => t.cronJobs.lookup k) he
    · refine funext fun k => (congrArg (fun t : BoltStore => t.cronJobs.lookup k) he).trans ?_
      simp [removeFromStatusBucket]
  cron_cancel h := by
    obtain ⟨j, -, -, rfl⟩ := cancel_eq h
    simp [addToStatusBucket, removeFromStatusBucket, putJob]
  cron_addCron := by
    intro s c s' h k
    rw [addCron_eq h]
    exact GoMap.lookup_insert_ite s.cronJobs c.id k c
  cron_deleteCron := lookup_deleteCron
  cron_addDLQ _ _ := rfl
  dead_addCron h := by rw [addCron_eq h]; rfl
  dead_deleteCron s id := by
    show (fun k => (s.deleteCron id).2.dlq.lookup k) = fun k => s.dlq.lookup k
    unfold deleteCron
    split <;> rfl
  list_eq s := ⟨s.jobs, fun _ => rfl, fun _ => rfl⟩
  listCrons_eq s := ⟨s.cronJobs, fun _ => rfl, fun _ => rfl⟩
  listDLQ_eq s := ⟨s.dlq, fun _ => rfl, fun _ => rfl⟩
  listByStatus_eq := listByStatus_eq

end BoltStore

/-! ## Each call does to a store what it does to its tables -/

namespace Store

variable {σ : Type} [TableStore σ]

/-- What a store takes. -/
abbrev limits (σ : Type) [TableStore σ] : Limits := TableStore.limits σ

def tables (s : σ) : Tables := ⟨get s, IndexedStore.keyIndex s, TableStore.cron s, LawfulStore.dead s⟩

theorem tables_empty : tables (Store.empty : σ) = .empty := by
  unfold tables Tables.empty
  congr 1
  · exact funext LawfulStore.get_empty
  · exact funext IndexedStore.keyIndex_empty
  · exact funext TableStore.cron_empty
  · exact funext IndexedStore.dead_empty

theorem takes_iff {s : σ} {j : Job} : (∃ s', add s j = .ok s') ↔ (tables s).Takes (limits σ) j := TableStore.add_ok_iff

/-- A call that returns an error or nothing, on a store and on its tables. -/
theorem settle_tables {s : σ} {r : Except String σ} {P : Prop} [Decidable P] {t : Tables} (hok : (∃ s', r = .ok s') ↔ P)
    (ht : ∀ s', r = .ok s' → tables s' = t) :
    (tables (settle s r).1, (settle s r).2.toOption) = if P then (t, some true) else (tables s, none) := by
  cases hr : r with
  | error e =>
    have hP : ¬ P := fun h => by
      obtain ⟨s', hs'⟩ := hok.2 h
      cases hr.symm.trans hs'
    rw [if_neg hP]
    rfl
  | ok s' =>
    rw [if_pos (hok.1 ⟨s', hr⟩), ← ht s' hr]
    rfl

theorem tables_add {s s' : σ} {j : Job} (h : add s j = .ok s') : tables s' =
    { (tables s).put j with key := fun k => if j.key = some k then some j.id else (tables s).key k } := by
  unfold tables Tables.put
  congr 1
  · exact funext (LawfulStore.get_add h)
  · exact funext (IndexedStore.keyIndex_add h)
  · exact TableStore.cron_add h
  · exact LawfulStore.dead_add h

theorem tables_update {s s' : σ} {j : Job} (h : update s j = .ok s') : tables s' = (tables s).put j := by
  unfold tables Tables.put
  congr 1
  · exact funext (LawfulStore.get_update h)
  · exact IndexedStore.keyIndex_update h
  · exact TableStore.cron_update h
  · exact LawfulStore.dead_update h

theorem tables_cancel {s s' : σ} (hk : Keyed s) {id : Int} (h : cancel s id = .ok s') {j : Job}
    (hj : get s id = some j) :
    tables s' = (tables s).put { j with status := .cancelled } := by
  obtain ⟨x, hx, -, hget⟩ := LawfulStore.cancel_ok h
  cases hj.symm.trans hx
  have hid := hk id j hj
  subst hid
  unfold tables Tables.put
  congr 1
  · exact funext (hget rfl)
  · exact IndexedStore.keyIndex_cancel h
  · exact TableStore.cron_cancel h
  · exact LawfulStore.dead_cancel h

theorem tables_delete (s : σ) (id : Int) : tables (delete s id).2 = ((tables s).write (limits σ) (.delete id)).1 := by
  unfold tables
  refine congr (congr (congr (congrArg Tables.mk ?_) ?_) ?_) ?_
  · exact funext (LawfulStore.get_delete s id)
  · exact funext (IndexedStore.keyIndex_delete s id)
  · exact TableStore.cron_delete s id
  · exact LawfulStore.dead_delete s id

theorem tables_addCron {s s' : σ} {c : CronJob} (h : addCron s c = .ok s') :
    tables s' = { tables s with cron := fun k => if k = c.id then some c else (tables s).cron k } := by
  unfold tables
  congr 1
  · exact funext (LawfulStore.get_addCron h)
  · exact IndexedStore.keyIndex_addCron h
  · exact funext (TableStore.cron_addCron h)
  · exact TableStore.dead_addCron h

theorem tables_deleteCron (s : σ) (id : String) : tables (deleteCron s id).2 =
    { tables s with cron := fun k => if k = id then none else (tables s).cron k } := by
  unfold tables
  congr 1
  · exact funext (LawfulStore.get_deleteCron s id)
  · exact IndexedStore.keyIndex_deleteCron s id
  · exact funext (TableStore.cron_deleteCron s id)
  · exact TableStore.dead_deleteCron s id

theorem tables_addDLQ (s : σ) (j : Job) : tables (addDLQ s j) =
    { tables s with dead := fun k => if k = j.id then some j else (tables s).dead k } := by
  unfold tables
  congr 1
  · exact funext (LawfulStore.get_addDLQ s j)
  · exact IndexedStore.keyIndex_addDLQ s j
  · exact TableStore.cron_addDLQ s j
  · exact funext (LawfulStore.dead_addDLQ s j)

/-- The refinement: the tables after a call, and whether it fails or what it returns. -/
theorem write_tables {s : σ} (hk : Keyed s) (w : Write) :
    (tables (write s w).1, (write s w).2.toOption) = (tables s).write (limits σ) w := by
  cases w with
  | add j => exact settle_tables takes_iff fun s' h => tables_add h
  | update j =>
    refine settle_tables (LawfulStore.update_ok.trans ?_) fun s' h => tables_update h
    exact (Option.any_eq_true _ _).symm
  | delete id =>
    refine Prod.ext (tables_delete s id) ?_
    exact congrArg some (TableStore.delete_found s id)
  | cancel id =>
    simp only [write, Tables.write]
    cases hf : ((tables s).job id).filter fun j => !j.status.isTerminal with
    | none =>
      have hrefused : ¬ ∃ s', cancel s id = .ok s' := by
        rw [TableStore.cancel_ok_iff]
        rintro ⟨j, hj, ht⟩
        have hjob : (tables s).job id = some j := hj
        simp [hjob, Option.filter, ht] at hf
      have hsettle := settle_tables (s := s) (P := False) (t := tables s) (iff_false_intro hrefused)
        (fun s' h => absurd ⟨s', h⟩ hrefused)
      rw [hsettle]
      rfl
    | some j =>
      obtain ⟨hj, ht⟩ := Option.filter_eq_some_iff.1 hf
      have haccepted : ∃ s', cancel s id = .ok s' := TableStore.cancel_ok_iff.2 ⟨j, hj, by simpa using ht⟩
      have hsettle := settle_tables (s := s) (P := True) (iff_true_intro haccepted) fun s' h => tables_cancel hk h hj
      rw [hsettle]
      rfl
  | addCron c => exact settle_tables TableStore.addCron_ok_iff fun s' h => tables_addCron h
  | deleteCron id =>
    refine Prod.ext (tables_deleteCron s id) ?_
    exact congrArg some (TableStore.deleteCron_found s id)
  | addDLQ j => exact Prod.ext (tables_addDLQ s j) rfl

/-- What a call does to one job. -/
theorem get_write {s : σ} (hk : Keyed s) (w : Write) (id : Int) :
    Tables.Change (limits σ) (tables s) w id (get (write s w).1 id) := by
  have hchange := Tables.write_job (limits σ) (tables s) w id
  rw [← congrArg Prod.fst (write_tables hk w)] at hchange
  exact hchange

theorem keyed_write {s : σ} (hk : Keyed s) (w : Write) : Keyed (write s w).1 := by
  have ht : (tables s).Keyed := hk
  have hw := ht.write (limits σ) w
  rw [← write_tables hk w] at hw
  exact hw

/-- Sequences of calls. -/
theorem exec_tables {s : σ} (hk : Keyed s) (ws : List Write) :
    Keyed (writes.exec s ws) ∧ tables (writes.exec s ws) = (Tables.writes (limits σ)).exec (tables s) ws := by
  refine Machine.exec_sim (M := writes) (N := Tables.writes (limits σ))
    (R := fun s t => Keyed s ∧ tables s = t) ⟨hk, rfl⟩ ?_ ws
  rintro s _ w ⟨hk, rfl⟩
  exact ⟨keyed_write hk w, congrArg Prod.fst (write_tables hk w)⟩

/-! ## The status index under the calls -/

/-- An accepted `Add` of a stored id carries the status of the stored job. -/
def KeepsStatus (s : σ) : Write → Prop
  | .add j => (∃ s', add s j = .ok s') → ∀ old, get s j.id = some old → TableStore.Indexes σ old.status →
      old.status = j.status
  | _ => True

omit [TableStore σ] in
theorem settle_inv {P : σ → Prop} {s : σ} (hs : P s) {r : Except String σ} (h : ∀ s', r = .ok s' → P s') :
    P (settle s r).1 := by
  cases hr : r with
  | error e => exact hs
  | ok s' => exact h s' hr

/-- A call keeps the index coherent exactly if it is not an `Add` over a job of another status. -/
theorem wf_write_iff {s : σ} (hs : LawfulStore.WF s) (w : Write) : LawfulStore.WF (write s w).1 ↔ KeepsStatus s w := by
  cases w with
  | add j =>
    cases ha : add s j with
    | error e =>
      refine ⟨fun _ => ?_, fun _ => ?_⟩
      · rintro ⟨s', hs'⟩
        cases ha.symm.trans hs'
      · simp only [write, ha]
        exact hs
    | ok s' =>
      have hput := (TableStore.wf_iff.1 hs).put_iff (LawfulStore.get_add ha) (TableStore.indexed_add ha)
      simp only [write, ha]
      exact (TableStore.wf_iff.trans hput).trans ⟨fun h _ => h, fun h => h ⟨s', ha⟩⟩
  | update j => exact iff_of_true (settle_inv hs fun _ h => LawfulStore.wf_update hs h) trivial
  | delete id => exact iff_of_true (LawfulStore.wf_delete id hs) trivial
  | cancel id => exact iff_of_true (settle_inv hs fun _ h => LawfulStore.wf_cancel hs h) trivial
  | addCron c => exact iff_of_true (settle_inv hs fun _ h => LawfulStore.wf_addCron hs h) trivial
  | deleteCron id => exact iff_of_true (LawfulStore.wf_deleteCron id hs) trivial
  | addDLQ j => exact iff_of_true (LawfulStore.wf_addDLQ j hs) trivial

/-- The index is coherent after every prefix exactly if no `Add` of the sequence changes a stored status. -/
theorem wf_prefixes_iff {s : σ} (hs : LawfulStore.WF s) (ws : List Write) :
    (∀ pre, pre <+: ws → LawfulStore.WF (writes.exec s pre)) ↔ writes.EveryStep (fun _ s w => KeepsStatus s w) s ws :=
  Machine.everyPrefix_iff (M := writes) (P := fun s => LawfulStore.WF s) (Q := fun _ => True) trivial hs
    (fun _ _ _ => trivial)
    (fun _ w _ hs => wf_write_iff hs w) ws

/-- `ListByStatus` on a coherent store, for every status. -/
theorem listByStatus_spec {s : σ} (hs : LawfulStore.WF s) (ord : RangeOrder Int) (st : Status) :
    ∃ l, listByStatus ord s st = .ok l ∧ (l.map Job.id).Nodup ∧
      ∀ j, j ∈ l ↔ TableStore.Indexes σ st ∧ get s j.id = some j ∧ j.status = st := by
  obtain ⟨ids, hnd, hmem, heq⟩ := TableStore.listByStatus_eq ord s st
  have hidx := TableStore.wf_iff.1 hs
  by_cases hd : TableStore.Indexes σ st
  · obtain ⟨hn, hl⟩ := hidx.walk hd hnd hmem
    exact ⟨_, heq, hn, fun j => (hl j).trans (by simp [hd])⟩
  · -- a status without a set has nothing to walk over
    have hnil : ids = [] := by
      refine List.eq_nil_iff_forall_not_mem.2 fun id hid => ?_
      exact hd ((hidx.index st id).1 ((hmem id).1 hid)).1
    subst hnil
    exact ⟨[], heq, List.nodup_nil, fun j => by simp [hd]⟩

end Store

end Quorum
