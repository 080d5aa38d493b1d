/-
The stores under sequences of calls of any length, errors included. The status index of a `MemoryStore` is always
right. That of a `BoltStore` is right until `Add` is called with the id of a stored job and another status. And where
neither that nor bbolt's check of keys makes a difference, the two stores cannot be told apart.
-/
import Quorum.Store.Tables

namespace Quorum

/-- Only defined statuses change, and to defined ones. -/
theorem isValidTransition_defined {s t : Status} (h : isValidTransition s t = true) (hne : s ≠ t) :
    t.toString ∈ statusNames := by
  cases s with
  | other name hn => simp [isValidTransition, hne] at h
  | pending | scheduled | completed | failed | cancelled =>
    cases t with
    | other name hn => simp [isValidTransition] at h
    | pending | scheduled | completed | failed | cancelled => decide

namespace Tables

/-- Every job has one of the five defined statuses. -/
def AllDefined (t : Tables) : Prop := ∀ id j, t.job id = some j → j.status.toString ∈ statusNames

theorem AllDefined.write {t : Tables} (h : t.AllDefined) (L : Limits) {w : Write}
    (hw : ∀ j, w = .add j → j.status.toString ∈ statusNames) : (t.write L w).1.AllDefined := by
  intro id x hx
  have hch := write_job L t w id
  rw [hx] at hch
  generalize hy : some x = y at hch
  cases hch with
  | same => exact h id x hy.symm
  | added _ => cases hy; exact hw x rfl
  | @updated _ old hold hv =>
    cases hy
    by_cases hst : old.status = x.status
    · rw [← hst]; exact h _ _ hold
    · exact isValidTransition_defined hv hst
  | deleted => cases hy
  | cancelled _ _ =>
    cases hy
    show Status.cancelled.toString ∈ statusNames
    decide

end Tables

namespace Store

variable {σ : Type} [TableStore σ]

/-- `ListByStatus` returns exactly the stored jobs with the status, each once. -/
def ListsExact (s : σ) : Prop := ∀ ord status, ∃ l, listByStatus ord s status = .ok l ∧ (l.map Job.id).Nodup ∧
  ∀ j, j ∈ l ↔ get s j.id = some j ∧ j.status = status

/-- The statuses of the stored jobs are defined, and so are those of the jobs that are added. -/
theorem allDefined_exec {ws : List Write} (hd : ∀ j, Write.add j ∈ ws → j.status.toString ∈ statusNames) :
    (tables (writes.exec (Store.empty : σ) ws)).AllDefined := by
  rw [(exec_tables (keyed_of_wf LawfulStore.wf_empty) ws).2, tables_empty]
  refine Machine.EveryStep.inv (M := Tables.writes (limits σ)) (C := fun _ _ w => w ∈ ws)
    (P := fun _ t => t.AllDefined) (fun id j hj => by cases hj) (fun _ t w ht hw => ht.write _ fun j hj => ?_) ?_
  · exact hd j (hj ▸ hw)
  · rintro pre w post rfl
    simp

/-- `List` has all stored jobs, whatever the status index says. -/
theorem mem_list_iff {s : σ} (hk : Keyed s) {ord : RangeOrder Int} {j : Job} :
    j ∈ list ord s ↔ get s j.id = some j := by
  obtain ⟨m, hm, hlist⟩ := TableStore.list_eq s
  rw [hlist, GoMap.mem_values]
  constructor
  · rintro ⟨k, hj⟩
    rw [hm] at hj
    rw [hk k j hj]
    exact hj
  · intro hj
    exact ⟨j.id, (hm j.id).trans hj⟩

theorem list_nodup {s : σ} (hk : Keyed s) (ord : RangeOrder Int) : (list ord s).Nodup := by
  obtain ⟨m, hm, hlist⟩ := TableStore.list_eq s
  rw [hlist]
  refine GoMap.nodup_values ord fun k k' j hj hj' => ?_
  rw [hm] at hj hj'
  exact (hk k j hj).symm.trans (hk k' j hj')

end Store

/-! ## The buckets of a `BoltStore` -/

namespace BoltStore

/-- Each stored id is in the bucket of its status and in no other, and no other id is in a bucket. -/
def BucketsExact (s : BoltStore) : Prop :=
  ∀ status id, s.Indexed status id ↔ ∃ j, s.get id = some j ∧ j.status = status

theorem bucketsExact_iff {s : BoltStore} (hk : Store.Keyed s) (hd : (Store.tables s).AllDefined) :
    s.BucketsExact ↔ s.Coherent := by
  have hdef : ∀ status id, (∃ j, s.get id = some j ∧ j.status = status) →
      Defined status ∧ ∃ j, s.get id = some j ∧ j.status = status := by
    rintro status id ⟨j, hj, rfl⟩
    exact ⟨hd id j hj, j, hj, rfl⟩
  constructor
  · intro h
    refine ⟨hk, fun status id => (h status id).trans ⟨hdef status id, And.right⟩⟩
  · intro h status id
    exact (h.index status id).trans ⟨And.right, hdef status id⟩

theorem listsExact_of_coherent {s : BoltStore} (hd : (Store.tables s).AllDefined) (h : s.Coherent) :
    Store.ListsExact s := by
  intro ord status
  obtain ⟨l, heq, hnd, hmem⟩ := Store.listByStatus_spec (σ := BoltStore) h ord status
  refine ⟨l, heq, hnd, fun j => (hmem j).trans ⟨And.right, fun hj => ⟨?_, hj⟩⟩⟩
  obtain ⟨hj, rfl⟩ := hj
  exact hd j.id j hj

/-- The buckets of a `BoltStore` are exact after every call of a sequence, and so is `ListByStatus`, exactly if every
accepted `Add` of a stored id carries the stored status. -/
theorem buckets_exact_iff (ws : List Write) (hd : ∀ j, Write.add j ∈ ws → Defined j.status) :
    (∀ pre, pre <+: ws → (Store.writes.exec new pre).BucketsExact ∧ Store.ListsExact (Store.writes.exec new pre)) ↔
      Store.writes.EveryStep (fun _ (s : BoltStore) w => ∀ j s' old, w = .add j → s.add j = .ok s' →
        s.get j.id = some old → j.status = old.status) new ws := by
  have hdef : ∀ pre, pre <+: ws → (Store.tables (Store.writes.exec new pre)).AllDefined :=
    fun pre hpre => Store.allDefined_exec fun j hj => hd j (hpre.subset hj)
  have hkeyed : ∀ pre, Store.Keyed (Store.writes.exec new pre) :=
    fun pre => (Store.exec_tables (Store.keyed_of_wf LawfulStore.wf_empty) pre).1
  have hexact : (∀ pre, pre <+: ws → (Store.writes.exec new pre).BucketsExact ∧
      Store.ListsExact (Store.writes.exec new pre)) ↔
        ∀ pre, pre <+: ws → LawfulStore.WF (Store.writes.exec new pre) := by
    refine forall_congr' fun pre => forall_congr' fun hpre => ?_
    constructor
    · rintro ⟨hb, -⟩
      exact (bucketsExact_iff (hkeyed pre) (hdef pre hpre)).1 hb
    · intro hwf
      exact ⟨(bucketsExact_iff (hkeyed pre) (hdef pre hpre)).2 hwf, listsExact_of_coherent (hdef pre hpre) hwf⟩
  rw [hexact, Store.wf_prefixes_iff coherent_new]
  constructor
  · intro h pre w post heq
    rintro j s' old rfl hadd hold
    exact (h pre (.add j) post heq ⟨s', hadd⟩ old hold (hdef pre ⟨_, heq.symm⟩ _ _ hold)).symm
  · intro h pre w post heq
    cases w with
    | add j =>
      rintro ⟨s', hadd⟩ old hold -
      exact (h pre (.add j) post heq j s' old rfl hadd hold).symm
    | update _ | delete _ | cancel _ | addCron _ | deleteCron _ | addDLQ _ => trivial

/-- A job is completed, deleted, and its id is used again. -/
theorem buckets_exact_reused :
    let ws : List Write := [.add (.newJob 1 "email" 1), .update { Job.newJob 1 "email" 1 with status := .completed },
      .delete 1, .add (.newJob 1 "sms" 2)]
    ∀ pre, pre <+: ws → (Store.writes.exec new pre).BucketsExact ∧ Store.ListsExact (Store.writes.exec new pre) := by
  intro ws
  refine (buckets_exact_iff ws fun j hj => ?_).2 ?_
  · simp only [ws, List.mem_cons, Write.add.injEq, reduceCtorEq, List.not_mem_nil, or_false, false_or] at hj
    rcases hj with rfl | rfl <;> exact List.mem_cons_self
  · simp only [ws, Machine.everyStep_cons, Machine.everyStep_nil, and_true]
    refine ⟨?_, ?_, ?_, ?_⟩
    · rintro j s' old h - hold
      cases h; cases hold
    · intro j s' old h
      cases h
    · intro j s' old h
      cases h
    · rintro j s' old h - hold
      cases h; cases hold

/-- A finished job is added again as pending, as a snapshot does that was taken before it finished: it is in two
buckets, and listed as a completed job. -/
theorem added_again_twice_listed :
    let s := Store.writes.exec new [.add (.newJob 1 "email" 1),
      .update { Job.newJob 1 "email" 1 with status := .completed }, .add (.newJob 1 "email" 1)]
    s.Indexed .pending 1 ∧ s.Indexed .completed 1 ∧ (s.get 1).map Job.status = some .pending ∧
      (s.listByStatus .stored .completed).toOption = some [Job.newJob 1 "email" 1] ∧ ¬ s.BucketsExact := by
  intro s
  have hboth : s.Indexed .pending 1 ∧ s.Indexed .completed 1 := ⟨⟨_, rfl, by decide⟩, ⟨_, rfl, by decide⟩⟩
  refine ⟨hboth.1, hboth.2, by decide, by decide, fun h => ?_⟩
  obtain ⟨j, hj, hst⟩ := (h .completed 1).1 hboth.2
  have hj' : s.get 1 = some (.newJob 1 "email" 1) := by decide
  cases hj.symm.trans hj'
  cases hst

end BoltStore

/-! ## The index of a `MemoryStore` -/

namespace MemoryStore

/-- `Add` refuses stored ids, so that no call can leave an id in the set of an old status. -/
theorem keepsStatus (s : MemoryStore) (w : Write) : Store.KeepsStatus s w := by
  cases w with
  | add j =>
    intro hadd old hold
    have hnone : s.get j.id = none := add_ok_iff.1 hadd
    cases hnone.symm.trans hold
  | update _ | delete _ | cancel _ | addCron _ | deleteCron _ | addDLQ _ => trivial

theorem coherent_exec (ws : List Write) : (Store.writes.exec new ws).Coherent :=
  (Store.wf_prefixes_iff coherent_new ws).2 (fun _ w _ _ => keepsStatus _ w) ws (List.prefix_refl ws)

/-- The lists over distinct statuses, all those of stored jobs among them, are together the list of all jobs. -/
theorem lists_partition {s : MemoryStore} (hs : s.Coherent) (ord : RangeOrder Int) (ords : Status → RangeOrder Int)
    {statuses : List Status} (hnd : statuses.Nodup) (hall : ∀ j ∈ s.list ord, j.status ∈ statuses) :
    (statuses.flatMap fun st => (s.listByStatus (ords st) st).toOption.getD []).Perm (s.list ord) := by
  have hlist : ∀ st, ((s.listByStatus (ords st) st).toOption.getD []).Nodup ∧
      ∀ j, j ∈ (s.listByStatus (ords st) st).toOption.getD [] ↔ s.get j.id = some j ∧ j.status = st := by
    intro st
    obtain ⟨l, heq, hids, hmem⟩ := listByStatus_ok (ords st) st hs
    rw [heq]
    exact ⟨hids.of_map, hmem⟩
  refine (List.perm_ext_iff_of_nodup ?_ (Store.list_nodup (σ := MemoryStore) hs.keyed ord)).2 fun j => ?_
  · refine List.nodup_flatMap.2 ⟨fun st _ => (hlist st).1, hnd.imp fun hne j hj hj' => ?_⟩
    exact hne (((hlist _).2 j).1 hj |>.2.symm.trans (((hlist _).2 j).1 hj').2)
  · rw [List.mem_flatMap]
    constructor
    · rintro ⟨st, -, hj⟩
      exact (mem_list hs).2 (((hlist st).2 j).1 hj).1
    · intro hj
      exact ⟨j.status, hall j hj, ((hlist j.status).2 j).2 ⟨(mem_list hs).1 hj, rfl⟩⟩

/-- After every sequence of calls, whatever their arguments and whether they are accepted: an id is in the set of a
status exactly if it is stored with that status, `ListByStatus` returns exactly the stored jobs of the status, each
once, and the lists over all statuses partition `List`. -/
theorem status_index_exact (ws : List Write) :
    let s := Store.writes.exec new ws
    (∀ status id, s.Indexed status id ↔ ∃ j, s.get id = some j ∧ j.status = status) ∧ Store.ListsExact s ∧
      ∀ (ord : RangeOrder Int) (ords : Status → RangeOrder Int) (statuses : List Status), statuses.Nodup →
        (∀ j ∈ s.list ord, j.status ∈ statuses) →
        (statuses.flatMap fun st => (s.listByStatus (ords st) st).toOption.getD []).Perm (s.list ord) := by
  intro s
  have hs := coherent_exec ws
  refine ⟨fun status id => (hs.index status id).trans (iff_of_eq (true_and _)),
    fun ord status => listByStatus_ok ord status hs, ?_⟩
  intro ord ords statuses hnd hall
  exact lists_partition hs ord ords hnd hall

/-- An `Add` that is refused, an undefined status, and an `Update` that is refused. -/
theorem status_index_exact_refused :
    let s := Store.writes.exec new [.add (.newJob 1 "email" 1), .add { Job.newJob 1 "sms" 2 with status := .failed },
      .add { Job.zero with id := 2 }, .update { Job.newJob 2 "email" 1 with status := .completed }, .cancel 1]
    s.Indexed .cancelled 1 ∧ ([Status.pending, .cancelled, Job.zero.status].flatMap fun st =>
      (s.listByStatus .stored st).toOption.getD []).Perm (s.list .stored) := by
  intro s
  obtain ⟨hindex, -, hpart⟩ := status_index_exact [.add (.newJob 1 "email" 1),
    .add { Job.newJob 1 "sms" 2 with status := .failed }, .add { Job.zero with id := 2 },
    .update { Job.newJob 2 "email" 1 with status := .completed }, .cancel 1]
  exact ⟨(hindex .cancelled 1).2 ⟨{ Job.newJob 1 "email" 1 with status := .cancelled }, by decide, rfl⟩,
    hpart .stored (fun _ => .stored) _ (by decide) (by decide)⟩

end MemoryStore

/-! ## Two stores with one answer -/

namespace Store

variable {σ τ : Type} [TableStore σ] [TableStore τ]

/-- Two stores give the same answers about jobs, lists up to their order. -/
structure SameJobs (s : σ) (t : τ) : Prop where
  get : ∀ id, get s id = get t id
  list : ∀ ord ord', (list ord s).Perm (list ord' t)
  listByStatus : ∀ ord ord' status, ∃ l l', listByStatus ord s status = .ok l ∧ listByStatus ord' t status = .ok l' ∧
    l.Perm l'
  find : ∀ key, findByIdempotencyKey s key = findByIdempotencyKey t key

/-- Two stores give the same answers. -/
structure SameAnswers (s : σ) (t : τ) : Prop extends SameJobs s t where
  listCrons : ∀ ord ord', (listCrons ord s).Perm (listCrons ord' t)
  listDLQ : ∀ ord ord', (listDLQ ord s).Perm (listDLQ ord' t)

/-- The answers about jobs depend on the jobs and on the map of keys, as long as the status indexes are coherent and
have sets for the same statuses. -/
theorem sameJobs_of_tables {s : σ} {t : τ} (hs : LawfulStore.WF s) (ht : LawfulStore.WF t)
    (hjob : (tables s).job = (tables t).job) (hkey : (tables s).key = (tables t).key)
    (hidx : ∀ id j, Store.get s id = some j → (TableStore.Indexes σ j.status ↔ TableStore.Indexes τ j.status)) :
    SameJobs s t := by
  have hget : ∀ id, Store.get s id = Store.get t id := congrFun hjob
  refine ⟨hget, fun ord ord' => ?_, fun ord ord' status => ?_, fun key => ?_⟩
  · obtain ⟨m, hm, hlist⟩ := TableStore.list_eq s
    obtain ⟨m', hm', hlist'⟩ := TableStore.list_eq t
    rw [hlist, hlist']
    exact GoMap.values_perm (fun k => by rw [hm, hm', hget]) ord ord'
  · obtain ⟨l, heq, hnd, hmem⟩ := listByStatus_spec hs ord status
    obtain ⟨l', heq', hnd', hmem'⟩ := listByStatus_spec ht ord' status
    refine ⟨l, l', heq, heq', (List.perm_ext_iff_of_nodup hnd.of_map hnd'.of_map).2 fun j => ?_⟩
    rw [hmem, hmem', ← hget]
    constructor
    · rintro ⟨hd, hj, rfl⟩
      exact ⟨(hidx j.id j hj).1 hd, hj, rfl⟩
    · rintro ⟨hd, hj, rfl⟩
      exact ⟨(hidx j.id j hj).2 hd, hj, rfl⟩
  · rw [IndexedStore.find_eq, IndexedStore.find_eq, show IndexedStore.keyIndex s = IndexedStore.keyIndex t from hkey,
      show Store.get s = Store.get t from hjob]

theorem sameAnswers_of_tables {s : σ} {t : τ} (hs : LawfulStore.WF s) (ht : LawfulStore.WF t) (h : tables s = tables t)
    (hidx : ∀ id j, Store.get s id = some j → (TableStore.Indexes σ j.status ↔ TableStore.Indexes τ j.status)) :
    SameAnswers s t := by
  refine ⟨sameJobs_of_tables hs ht (congrArg Tables.job h) (congrArg Tables.key h) hidx, fun ord ord' => ?_,
    fun ord ord' => ?_⟩
  · obtain ⟨m, hm, hlist⟩ := TableStore.listCrons_eq s
    obtain ⟨m', hm', hlist'⟩ := TableStore.listCrons_eq t
    rw [hlist, hlist']
    exact GoMap.values_perm (fun k => by rw [hm, hm']; exact congrFun (congrArg Tables.cron h) k) ord ord'
  · obtain ⟨m, hm, hlist⟩ := TableStore.listDLQ_eq s
    obtain ⟨m', hm', hlist'⟩ := TableStore.listDLQ_eq t
    rw [hlist, hlist']
    exact GoMap.values_perm (fun k => by rw [hm, hm']; exact congrFun (congrArg Tables.dead h) k) ord ord'

end Store

/-- Where two stores take the same, a call does the same to their tables. -/
theorem Tables.write_congr {L L' : Limits} {t : Tables} {w : Write}
    (hadd : ∀ j, w = .add j → (t.Takes L j ↔ t.Takes L' j)) (hcron : ∀ c, w = .addCron c → L.cron c.id = L'.cron c.id) :
    t.write L w = t.write L' w := by
  cases w with
  | add j => simp only [write, hadd j rfl]
  | addCron c => simp only [write, hcron c rfl]
  | update _ | delete _ | cancel _ | deleteCron _ | addDLQ _ => rfl

/-- The calls on which the stores are compared: `Add` with a new id, a defined status and no key or one that bbolt can
write, and `AddCron` with an id that bbolt can write. -/
def Write.Comparable {σ : Type} [Store σ] (s : σ) : Write → Prop
  | .add j => Store.get s j.id = none ∧ j.status.toString ∈ statusNames ∧ j.idempotencyKey.utf8ByteSize ≤ 32768
  | .addCron c => c.id ≠ "" ∧ c.id.utf8ByteSize ≤ 32768
  | _ => True

theorem BoltStore.checkKey_ok {key : String} (hne : key ≠ "") (hle : key.utf8ByteSize ≤ 32768) :
    (checkKey key).isOk = true := by
  unfold checkKey
  rw [if_neg hne, if_neg (by omega)]
  rfl

namespace Store

/-- On comparable calls a `MemoryStore` and a `BoltStore` take the same. -/
theorem write_limits {s : MemoryStore} {w : Write} (h : w.Comparable s) :
    (tables s).write (limits MemoryStore) w = (tables s).write (limits BoltStore) w := by
  refine Tables.write_congr (fun j hj => ?_) fun c hc => ?_
  · subst hj
    obtain ⟨hnew, -, hsize⟩ := h
    have hkey : (limits BoltStore).key j.idempotencyKey = true := by
      show (decide (j.idempotencyKey = "") || (BoltStore.checkKey j.idempotencyKey).isOk) = true
      by_cases hne : j.idempotencyKey = ""
      · simp [hne]
      · rw [BoltStore.checkKey_ok hne hsize, Bool.or_true]
    exact iff_of_true ⟨rfl, .inl hnew⟩ ⟨hkey, .inl hnew⟩
  · subst hc
    exact (BoltStore.checkKey_ok h.1 h.2).symm

/-- What holds between the two stores after comparable calls. -/
structure InStep (m : MemoryStore) (b : BoltStore) : Prop where
  tables : Store.tables m = Store.tables b
  memory : m.Coherent
  bolt : b.Coherent
  defined : (Store.tables m).AllDefined

theorem InStep.write {m : MemoryStore} {b : BoltStore} (h : InStep m b) {w : Write} (hw : w.Comparable m) :
    InStep (write m w).1 (write b w).1 ∧ (write m w).2.toOption = (write b w).2.toOption := by
  have hm := write_tables (σ := MemoryStore) h.memory.keyed w
  have hb := write_tables (σ := BoltStore) h.bolt.keyed w
  have heq :=
    hm.trans ((write_limits hw).trans ((congrArg (fun t => t.write (limits BoltStore) w) h.tables).trans hb.symm))
  have hdef := h.defined.write (limits MemoryStore) (w := w) fun j hj => (by subst hj; exact hw.2.1)
  rw [← hm] at hdef
  refine ⟨⟨congrArg Prod.fst heq, ?_, ?_, hdef⟩, congrArg Prod.snd heq⟩
  · exact (wf_write_iff (σ := MemoryStore) h.memory w).2 (MemoryStore.keepsStatus m w)
  · refine (wf_write_iff (σ := BoltStore) h.bolt w).2 ?_
    cases w with
    | add j =>
      -- the id is not stored
      intro _ old hold
      have hnone : Store.get b j.id = none := (congrFun (congrArg Tables.job h.tables) j.id).symm.trans hw.1
      cases hnone.symm.trans hold
    | update _ | delete _ | cancel _ | addCron _ | deleteCron _ | addDLQ _ => trivial

theorem InStep.same {m : MemoryStore} {b : BoltStore} (h : InStep m b) : SameAnswers m b :=
  sameAnswers_of_tables h.memory h.bolt h.tables fun id j hj => iff_of_true trivial (h.defined id j hj)

/-- The two stores return the same results for every sequence of comparable calls: each call fails in both or in
neither, `Delete` and `DeleteCron` return the same boolean, and after each call every read gives the same answer, lists
up to their order. -/
theorem memory_bolt_agree (ws : List Write)
    (h : writes.EveryStep (fun _ (s : MemoryStore) w => w.Comparable s) MemoryStore.new ws) :
    (∀ pre w post, ws = pre ++ w :: post →
        (write (writes.exec MemoryStore.new pre) w).2.toOption = (write (writes.exec BoltStore.new pre) w).2.toOption) ∧
      ∀ pre, pre <+: ws → SameAnswers (writes.exec MemoryStore.new pre) (writes.exec BoltStore.new pre) := by
  have hstep : ∀ pre, pre <+: ws → InStep (writes.exec MemoryStore.new pre) (writes.exec BoltStore.new pre) := by
    rintro pre ⟨post, rfl⟩
    refine Machine.EveryStep.sim (N := writes) (R := InStep) ?_ (fun _ m b w hin hw => (hin.write hw).1) h.init
    exact ⟨(tables_empty (σ := MemoryStore)).trans (tables_empty (σ := BoltStore)).symm, MemoryStore.coherent_new,
      BoltStore.coherent_new, fun id j hj => by cases hj⟩
  refine ⟨fun pre w post heq => ?_, fun pre hpre => (hstep pre hpre).same⟩
  exact ((hstep pre ⟨_, heq.symm⟩).write (h pre w post heq)).2

/-- A history with a keyed job, refused calls, a cron and a dead letter. -/
theorem memory_bolt_agree_refused :
    let ws : List Write := [.add { Job.newJob 1 "email" 1 with idempotencyKey := "k" }, .cancel 1,
      .update { Job.newJob 1 "email" 1 with status := .completed }, .addCron ⟨"c", "@daily", "email", 1, 5⟩,
      .addDLQ (.newJob 1 "email" 1), .delete 2, .delete 1]
    SameAnswers (writes.exec MemoryStore.new ws) (writes.exec BoltStore.new ws) := by
  intro ws
  refine (memory_bolt_agree ws ?_).2 ws (List.prefix_refl ws)
  simp only [ws, Machine.everyStep_cons, Machine.everyStep_nil, and_true, true_and, Write.Comparable]
  exact ⟨⟨rfl, by decide, by decide⟩, by decide, by decide⟩

end Store

end Quorum
