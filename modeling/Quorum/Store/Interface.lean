/-
The `Store` interface (`internal/store/store.go`) and the contract both implementations keep. A
method that one of them can fail in returns the error's text and leaves the store as it was; a method that
ranges over a Go map or a bucket takes the order of that loop. The contract (`LawfulStore`) speaks about what `Get`
answers after each operation, about the dead-letter queue, and about `ListByStatus` on stores whose
status index is coherent (`WF`).
-/
import Quorum.Lib.GoMap
import Quorum.Job.Basic

namespace Quorum

/-- `cron.CronJob`. -/
structure CronJob where
  id : String
  schedule : String
  type : String
  priority : Int
  nextRun : Time
  deriving DecidableEq, Repr

class Store (σ : Type) where
  empty : σ
  add : σ → Job → Except String σ
  get : σ → Int → Option Job
  list : RangeOrder Int → σ → List Job
  listByStatus : RangeOrder Int → σ → Status → Except String (List Job)
  update : σ → Job → Except String σ
  delete : σ → Int → Bool × σ
  cancel : σ → Int → Except String σ
  addCron : σ → CronJob → Except String σ
  deleteCron : σ → String → Bool × σ
  listCrons : RangeOrder String → σ → List CronJob
  addDLQ : σ → Job → σ
  listDLQ : RangeOrder Int → σ → List Job
  findByIdempotencyKey : σ → String → Option Job

/-- The new store, or the old one and the error. -/
def orUnchanged {σ : Type} (st : σ) : Except String σ → σ × Option String
  | .ok st' => (st', none)
  | .error e => (st, some e)

/-- `Update` where the caller goes on after an error. -/
def Store.tryUpdate {σ : Type} [Store σ] (st : σ) (j : Job) : σ := (orUnchanged st (Store.update st j)).1

/-- The contract of a store. `Add` takes a job with a new id and no idempotency key, `Update` enforces the
transition table, `Cancel` refuses terminal jobs, only `AddDLQ` writes the dead-letter queue, and on a
coherent store `List` has all stored jobs and the lists of the five defined statuses are exactly the stored
jobs of that status, each once. -/
class LawfulStore (σ : Type) extends Store σ where
  WF : σ → Prop
  /-- The dead-letter queue by id. -/
  dead : σ → Int → Option Job
  wf_empty : WF empty
  get_empty : ∀ id, get empty id = none
  get_id : ∀ {s id j}, WF s → get s id = some j → j.id = id
  mem_list : ∀ {ord s j}, WF s → (j ∈ list ord s ↔ get s j.id = some j)
  add_ok : ∀ {s j}, get s j.id = none → j.idempotencyKey = "" → ∃ s', add s j = .ok s'
  get_add : ∀ {s j s'}, add s j = .ok s' → ∀ k, get s' k = if k = j.id then some j else get s k
  wf_add : ∀ {s j s'}, WF s → get s j.id = none → add s j = .ok s' → WF s'
  update_ok : ∀ {s j}, (∃ s', update s j = .ok s') ↔
    ∃ e, get s j.id = some e ∧ isValidTransition e.status j.status = true
  get_update : ∀ {s j s'}, update s j = .ok s' → ∀ k, get s' k = if k = j.id then some j else get s k
  wf_update : ∀ {s j s'}, WF s → update s j = .ok s' → WF s'
  get_delete : ∀ s id k, get (delete s id).2 k = if k = id then none else get s k
  wf_delete : ∀ {s} id, WF s → WF (delete s id).2
  cancel_ok : ∀ {s id s'}, cancel s id = .ok s' → ∃ j, get s id = some j ∧ j.status.isTerminal = false ∧
    (j.id = id → ∀ k, get s' k = if k = id then some { j with status := .cancelled } else get s k)
  wf_cancel : ∀ {s id s'}, WF s → cancel s id = .ok s' → WF s'
  mem_listDLQ : ∀ {ord s j}, j ∈ listDLQ ord s ↔ ∃ k, dead s k = some j
  dead_add : ∀ {s j s'}, add s j = .ok s' → dead s' = dead s
  dead_update : ∀ {s j s'}, update s j = .ok s' → dead s' = dead s
  dead_delete : ∀ s id, dead (delete s id).2 = dead s
  dead_cancel : ∀ {s id s'}, cancel s id = .ok s' → dead s' = dead s
  dead_addDLQ : ∀ s j k, dead (addDLQ s j) k = if k = j.id then some j else dead s k
  get_addDLQ : ∀ s j k, get (addDLQ s j) k = get s k
  wf_addDLQ : ∀ {s} j, WF s → WF (addDLQ s j)
  get_addCron : ∀ {s c s'}, addCron s c = .ok s' → ∀ k, get s' k = get s k
  wf_addCron : ∀ {s c s'}, WF s → addCron s c = .ok s' → WF s'
  get_deleteCron : ∀ s id k, get (deleteCron s id).2 k = get s k
  wf_deleteCron : ∀ {s} id, WF s → WF (deleteCron s id).2
  listByStatus_ok : ∀ (ord : RangeOrder Int) {s} (st : Status), st.toString ∈ statusNames → WF s →
    ∃ l, listByStatus ord s st = .ok l ∧ (l.map Job.id).Nodup ∧ ∀ j, j ∈ l ↔ get s j.id = some j ∧ j.status = st

namespace Store

variable {σ : Type}

/-- Every job is stored under its own id. -/
def Keyed [Store σ] (s : σ) : Prop := ∀ id j, get s id = some j → j.id = id

/-- A write under the job's own id. -/
theorem Keyed.put [Store σ] {s s' : σ} (h : Keyed s) {j : Job}
    (hget : ∀ k, get s' k = if k = j.id then some j else get s k) : Keyed s' := by
  intro id k hk
  rw [hget] at hk
  split at hk
  · rename_i hid; cases hk; exact hid.symm
  · exact h id k hk

variable [LawfulStore σ]

theorem tryUpdate_refused {s : σ} {j : Job}
    (h : ∀ e, get s j.id = some e → ¬ isValidTransition e.status j.status = true) : tryUpdate s j = s := by
  unfold tryUpdate
  cases hu : Store.update s j with
  | error e => rfl
  | ok s' =>
    obtain ⟨e, he, hv⟩ := LawfulStore.update_ok.1 ⟨s', hu⟩
    exact absurd hv (h e he)

theorem keyed_of_wf {s : σ} (h : LawfulStore.WF s) : Keyed s := fun _ _ hj => LawfulStore.get_id h hj

theorem Keyed.add {s s' : σ} (h : Keyed s) {j : Job} (ha : Store.add s j = .ok s') : Keyed s' :=
  h.put (LawfulStore.get_add ha)

theorem Keyed.cancel {s s' : σ} (h : Keyed s) {id : Int} (hc : Store.cancel s id = .ok s') : Keyed s' := by
  obtain ⟨j, hj, -, hget⟩ := LawfulStore.cancel_ok hc
  have hid := h id j hj
  subst hid
  exact h.put (j := { j with status := .cancelled }) (hget rfl)

theorem Keyed.delete {s : σ} (h : Keyed s) (id : Int) : Keyed (Store.delete s id).2 := by
  intro k j hj
  rw [LawfulStore.get_delete] at hj
  split at hj
  · cases hj
  · exact h k j hj

end Store

end Quorum
