/-
Log compaction: a node that is brought up from a snapshot and the rest of the log, compared with one that has applied
the whole log. The jobs determine both indexes of a store along every orderly log, so that nothing about jobs is lost.
The snapshot has no crons: those that the rest of the log does not mention are.
-/
import Quorum.Consensus.Keys
import Quorum.Consensus.Snapshot

namespace Quorum

namespace Tables

/-- The jobs and keys after a call, and whether it fails, depend on the jobs and keys before. -/
theorem write_jobs {L M : Limits} {t t' : Tables} (hjob : t.job = t'.job) (hkey : t.key = t'.key) {w : Write}
    (hadd : ∀ j, w = .add j → (t.Takes L j ↔ t'.Takes M j)) (hcron : ∀ c, w = .addCron c → L.cron c.id = M.cron c.id) :
    (t.write L w).1.job = (t'.write M w).1.job ∧ (t.write L w).1.key = (t'.write M w).1.key ∧
      (t.write L w).2.isSome = (t'.write M w).2.isSome := by
  obtain ⟨job, key, cron, dead⟩ := t
  obtain ⟨job', key', cron', dead'⟩ := t'
  obtain rfl : job = job' := hjob
  obtain rfl : key = key' := hkey
  cases w with
  | add j =>
    simp only [write]
    by_cases h : Takes L ⟨job, key, cron, dead⟩ j
    · rw [if_pos h, if_pos ((hadd j rfl).1 h)]
      exact ⟨rfl, rfl, rfl⟩
    · rw [if_neg h, if_neg (fun h' => h ((hadd j rfl).2 h'))]
      exact ⟨rfl, rfl, rfl⟩
  | update j =>
    simp only [write]
    split <;> exact ⟨rfl, rfl, rfl⟩
  | cancel id =>
    simp only [write]
    split <;> exact ⟨rfl, rfl, rfl⟩
  | addCron c =>
    simp only [write, hcron c rfl]
    split <;> exact ⟨rfl, rfl, rfl⟩
  | delete _ | deleteCron _ | addDLQ _ => exact ⟨rfl, rfl, rfl⟩

end Tables

namespace Store

section
variable {σ : Type} [TableStore σ]

/-- A job is added under a new id, with no key or one that no stored job has; an updated job keeps its key. -/
def Orderly (s : σ) : Write → Prop
  | .add j => get s j.id = none ∧
      (j.idempotencyKey ≠ "" → ∀ id x, get s id = some x → x.idempotencyKey ≠ j.idempotencyKey)
  | .update j => ∀ old, get s j.id = some old → j.idempotencyKey = old.idempotencyKey
  | _ => True

theorem Orderly.keepsStatus {s : σ} {w : Write} (h : Orderly s w) : KeepsStatus s w := by
  cases w with
  | add j =>
    intro _ old hold
    cases h.1.symm.trans hold
  | update _ | delete _ | cancel _ | addCron _ | deleteCron _ | addDLQ _ => trivial

theorem KeysIndexed.write {s : σ} (h : KeysIndexed s) (hk : Keyed s) {w : Write} (hw : Orderly s w) :
    KeysIndexed (write s w).1 := by
  cases w with
  | add j =>
    refine settle_inv h fun s' hadd => h.add_fresh hw.1 (fun k hkey => ?_) hadd
    obtain ⟨hne, rfl⟩ := Job.key_eq_some.1 hkey
    cases hfind : findByIdempotencyKey s j.idempotencyKey with
    | none => rfl
    | some x =>
      obtain ⟨id, hx, hxk⟩ := (h.find_iff hne).1 hfind
      exact absurd hxk (hw.2 hne id x hx)
  | update j =>
    refine settle_inv h fun s' hu => ?_
    obtain ⟨old, hold, -⟩ := LawfulStore.update_ok.1 ⟨s', hu⟩
    exact h.update hold (hw old hold) hu
  | delete id => exact h.delete id
  | cancel id => exact settle_inv h fun s' hc => h.cancel hk hc
  | addCron c =>
    exact settle_inv h fun s' hc => h.same (LawfulStore.get_addCron hc) (IndexedStore.keyIndex_addCron hc)
  | deleteCron id => exact h.same (LawfulStore.get_deleteCron s id) (IndexedStore.keyIndex_deleteCron s id)
  | addDLQ j => exact h.addDLQ j

end

variable {σ τ : Type} [TableStore σ] [TableStore τ]

variable (σ τ) in
/-- Stores of two kinds take the same of a call, and have a list for the status of an added job or have none. -/
def Portable : Write → Prop
  | .add j => (limits σ).key j.idempotencyKey = (limits τ).key j.idempotencyKey ∧
      (TableStore.Indexes σ j.status ↔ TableStore.Indexes τ j.status)
  | .addCron c => (limits σ).cron c.id = (limits τ).cron c.id
  | _ => True

theorem portable_self (w : Write) : Portable σ σ w := by
  cases w with
  | add j => exact ⟨rfl, Iff.rfl⟩
  | addCron c => exact rfl
  | update _ | delete _ | cancel _ | deleteCron _ | addDLQ _ => trivial

variable (τ) in
/-- Every stored job can be stored, and is listed, by a store of the other kind as by this one. -/
def AllPortable (s : σ) : Prop := ∀ id j, get s id = some j →
  (limits τ).key j.idempotencyKey = true ∧ (TableStore.Indexes σ j.status ↔ TableStore.Indexes τ j.status)

theorem AllPortable.write {s : σ} (h : AllPortable τ s) (hk : Keyed s) {w : Write} (hw : Orderly s w)
    (hp : Portable σ τ w) : AllPortable τ (write s w).1 := by
  intro id x hx
  have hch := Tables.write_job (limits σ) (tables s) w id
  rw [← write_tables hk w] at hch
  rw [show (tables (Store.write s w).1).job id = some x from hx] at hch
  generalize hy : some x = y at hch
  cases hch with
  | same => exact h id x hy.symm
  | added htakes =>
    cases hy
    exact ⟨hp.1.symm.trans htakes.1, hp.2⟩
  | @updated _ old hold hv =>
    cases hy
    obtain ⟨hkey, hidx⟩ := h _ _ hold
    refine ⟨by rw [hw old hold]; exact hkey, ?_⟩
    by_cases hst : old.status = x.status
    · rw [← hst]; exact hidx
    · have hdef := isValidTransition_defined hv hst
      exact iff_of_true (TableStore.indexes_defined hdef) (TableStore.indexes_defined hdef)
  | deleted => cases hy
  | cancelled hold _ =>
    cases hy
    refine ⟨(h _ _ hold).1, iff_of_true (TableStore.indexes_defined ?_) (TableStore.indexes_defined ?_)⟩
    · show Status.cancelled.toString ∈ statusNames
      decide
    · show Status.cancelled.toString ∈ statusNames
      decide

/-! ## The restored store -/

theorem get_restore_empty {jobs : List Job} (hnd : (jobs.map Job.id).Nodup)
    (hkey : ∀ j ∈ jobs, (limits τ).key j.idempotencyKey = true) {id : Int} {j : Job} :
    get (fsmRestore (Store.empty : τ) jobs) id = some j ↔ j ∈ jobs ∧ j.id = id := by
  have hk : Keyed (Store.empty : τ) := keyed_of_wf LawfulStore.wf_empty
  have hempty : ∀ k, get (Store.empty : τ) k = none := LawfulStore.get_empty
  have hmem : ∀ x ∈ jobs, get (fsmRestore (Store.empty : τ) jobs) x.id = some x := by
    intro x hx
    rw [get_restore_of_mem hk hnd hx, if_pos ⟨hkey x hx, .inl (hempty x.id)⟩]
  constructor
  · intro hj
    by_cases hin : id ∈ jobs.map Job.id
    · obtain ⟨x, hx, rfl⟩ := List.mem_map.1 hin
      cases (hmem x hx).symm.trans hj
      exact ⟨hx, rfl⟩
    · rw [get_restore_of_notMem hk hin, hempty] at hj
      cases hj
  · rintro ⟨hj, rfl⟩
    exact hmem j hj

/-- The jobs of a snapshot come back one by one, each under a new id and with a new key. -/
theorem restore_orderly {s : σ} (hk : Keyed s) (hi : KeysIndexed s) (hp : AllPortable τ s) (ord : RangeOrder Int) :
    writes.EveryStep (fun _ t w => Orderly t w) (Store.empty : τ) ((fsmSnapshot ord s).map .add) := by
  intro pre w post heq
  obtain ⟨before, rest, hsnap, rfl, hrest⟩ := List.map_eq_append_iff.1 heq
  obtain ⟨j, after, rfl, rfl, -⟩ := List.map_eq_cons_iff.1 hrest
  have hnd := snapshot_ids_nodup hk ord
  have hkey : ∀ x ∈ fsmSnapshot ord s, (limits τ).key x.idempotencyKey = true :=
    fun x hx => (hp x.id x ((mem_snapshot hk).1 hx)).1
  have hsub : ∀ x ∈ before, x ∈ fsmSnapshot ord s := fun x hx => by rw [hsnap]; exact List.mem_append_left _ hx
  have hjin : j ∈ fsmSnapshot ord s := by rw [hsnap]; simp
  rw [hsnap, List.map_append, List.nodup_append] at hnd
  rw [← fsmRestore_writes]
  have hstored : ∀ id x, get (fsmRestore (Store.empty : τ) before) id = some x → x ∈ before ∧ x.id ≠ j.id := by
    intro id x hx
    obtain ⟨hx, -⟩ := (get_restore_empty hnd.1 fun y hy => hkey y (hsub y hy)).1 hx
    exact ⟨hx, fun he => hnd.2.2 _ (List.mem_map_of_mem hx) _ List.mem_cons_self he⟩
  refine ⟨?_, fun hne id x hx hsame => ?_⟩
  · cases hget : get (fsmRestore (Store.empty : τ) before) j.id with
    | none => rfl
    | some x =>
      have hid := keyed_restore (keyed_of_wf LawfulStore.wf_empty) before j.id x hget
      exact absurd hid (hstored j.id x hget).2
  · -- in the source two jobs with one key have one id
    obtain ⟨hxin, hxid⟩ := hstored id x hx
    have hxs := (mem_snapshot hk).1 (hsub x hxin)
    have hjs := (mem_snapshot hk).1 hjin
    exact hxid (hi.unique hxs (Job.key_eq_some.2 ⟨hne, hsame⟩) hjs (Job.key_eq_some.2 ⟨hne, rfl⟩))

/-- A store that gives the same answers about jobs, now and after the same calls. -/
structure Follows (s : σ) (t : τ) : Prop where
  job : (tables s).job = (tables t).job
  key : (tables s).key = (tables t).key
  source : LawfulStore.WF s
  target : LawfulStore.WF t
  portable : AllPortable τ s

theorem Follows.same {s : σ} {t : τ} (h : Follows s t) : SameJobs s t :=
  sameJobs_of_tables h.source h.target h.job h.key fun id j hj => (h.portable id j hj).2

theorem follows_restore {s : σ} (hs : LawfulStore.WF s) (hi : KeysIndexed s) (hp : AllPortable τ s)
    (ord : RangeOrder Int) : Follows s (fsmRestore (Store.empty : τ) (fsmSnapshot ord s)) := by
  have hk := keyed_of_wf hs
  have hget : get s = get (fsmRestore (Store.empty : τ) (fsmSnapshot ord s)) := by
    funext id
    refine Option.ext fun j => ?_
    rw [get_restore_empty (snapshot_ids_nodup hk ord) fun j hj => (hp j.id j ((mem_snapshot hk).1 hj)).1,
      mem_snapshot hk]
    constructor
    · intro hj
      have hid := hk id j hj
      exact ⟨hid.symm ▸ hj, hid⟩
    · rintro ⟨hj, rfl⟩
      exact hj
  obtain ⟨hwf, hkeyed, hindexed⟩ : LawfulStore.WF (fsmRestore (Store.empty : τ) (fsmSnapshot ord s)) ∧
      Keyed (fsmRestore (Store.empty : τ) (fsmSnapshot ord s)) ∧
      KeysIndexed (fsmRestore (Store.empty : τ) (fsmSnapshot ord s)) := by
    rw [fsmRestore_writes]
    refine Machine.EveryStep.inv (M := writes) (P := fun _ t => LawfulStore.WF t ∧ Keyed t ∧ KeysIndexed t)
      ⟨LawfulStore.wf_empty, keyed_of_wf LawfulStore.wf_empty, keysIndexed_empty⟩ (fun _ t w ht hw => ?_)
      (restore_orderly hk hi hp ord)
    exact ⟨(wf_write_iff ht.1 w).2 hw.keepsStatus, keyed_write ht.2.1 w, ht.2.2.write ht.2.1 hw⟩
  refine ⟨hget, ?_, hs, hwf, hp⟩
  have hindexed' :
      IndexedBy Job.key (get s) (IndexedStore.keyIndex (fsmRestore (Store.empty : τ) (fsmSnapshot ord s))) := by
    rw [hget]
    exact hindexed
  exact IndexedBy.determined hi hindexed'

theorem Follows.write {s : σ} {t : τ} (h : Follows s t) {w : Write} (hw : Orderly s w) (hp : Portable σ τ w) :
    Follows (write s w).1 (write t w).1 ∧
      (write s w).2.toOption.isSome = (write t w).2.toOption.isSome := by
  have hks := keyed_of_wf h.source
  have hkt := keyed_of_wf h.target
  have hget : ∀ id, get s id = get t id := congrFun h.job
  obtain ⟨hjob, hkey, hok⟩ := Tables.write_jobs (L := limits σ) (M := limits τ) h.job h.key (w := w)
    (fun j hj => by
      subst hj
      refine and_congr (by rw [hp.1]) (iff_of_true (.inl hw.1) (.inl ?_))
      exact (hget j.id).symm.trans hw.1)
    (fun c hc => by subst hc; exact hp)
  have hkeeps : KeepsStatus t w := by
    cases w with
    | add j =>
      intro _ old hold
      cases ((hget j.id).symm.trans hw.1).symm.trans hold
    | update _ | delete _ | cancel _ | addCron _ | deleteCron _ | addDLQ _ => trivial
  rw [← write_tables hks w, ← write_tables hkt w] at hjob hkey hok
  exact ⟨⟨hjob, hkey, (wf_write_iff h.source w).2 hw.keepsStatus, (wf_write_iff h.target w).2 hkeeps,
    h.portable.write hks hw hp⟩, hok⟩

end Store

/-! ## The log cut in two -/

namespace Fsm

open Store

variable {σ τ : Type} [TableStore σ] [TableStore τ]

/-- The log respects ids and keys at this command. -/
def Orderly (st : σ) (cmd : Command) : Prop := ∀ w, cmd.write = some w → Store.Orderly st w

theorem step_follows {s : σ} {t : τ} (h : Follows s t) {cmd : Command} (hc : Orderly s cmd)
    (hp : ∀ w, cmd.write = some w → Portable σ τ w) :
    Follows (fsmApply s cmd).1 (fsmApply t cmd).1 ∧ (fsmApply s cmd).2.isNone = (fsmApply t cmd).2.isNone := by
  cases hw : cmd.write with
  | none =>
    rw [fsmApply_none hw, fsmApply_none hw]
    exact ⟨h, rfl⟩
  | some w =>
    obtain ⟨hs, hes⟩ := fsmApply_write s hw
    obtain ⟨ht, het⟩ := fsmApply_write t hw
    obtain ⟨hnext, hok⟩ := h.write (hc w hw) (hp w hw)
    rw [hs, ht, hes, het]
    exact ⟨hnext, hok⟩

/-- What an orderly log leaves in a store: the jobs, and indexes that the jobs determine. -/
structure Determined (τ : Type) [TableStore τ] (st : σ) : Prop where
  wf : LawfulStore.WF st
  indexed : KeysIndexed st
  portable : AllPortable τ st

theorem step_determined {st : σ} (h : Determined τ st) {cmd : Command} (hc : Orderly st cmd)
    (hp : ∀ w, cmd.write = some w → Portable σ τ w) : Determined τ (fsmApply st cmd).1 := by
  cases hw : cmd.write with
  | none => rw [fsmApply_none hw]; exact h
  | some w =>
    have hk := keyed_of_wf h.wf
    rw [(fsmApply_write _ hw).1]
    exact ⟨(wf_write_iff h.wf w).2 (hc w hw).keepsStatus, h.indexed.write hk (hc w hw),
      h.portable.write hk (hc w hw) (hp w hw)⟩

/-- A store of the second kind that is empty, is given the snapshot of a store of the first kind after `pre`, and
applies `suf`, answers about jobs as the store of the first kind does that has applied the whole log, and each command
of `suf` fails in both or in neither. -/
def Preserves (σ τ : Type) [TableStore σ] [TableStore τ] (pre suf : List Command) (ord : RangeOrder Int) : Prop :=
  let st := fsm.exec (Store.empty : σ) pre
  let restored := fsmRestore (Store.empty : τ) (fsmSnapshot ord st)
  SameJobs (fsm.exec st suf) (fsm.exec restored suf) ∧
    ∀ p cmd q, suf = p ++ cmd :: q →
      (fsmApply (fsm.exec st p) cmd).2.isNone = (fsmApply (fsm.exec restored p) cmd).2.isNone

theorem preserves_of_portable {pre suf : List Command}
    (hlog : fsm.EveryStep (fun _ (st : σ) cmd => Orderly st cmd) Store.empty (pre ++ suf))
    (hp : ∀ cmd ∈ pre ++ suf, ∀ w, cmd.write = some w → Portable σ τ w) (ord : RangeOrder Int) :
    Preserves σ τ pre suf ord := by
  unfold Preserves
  intro st restored
  have hstart : Determined τ st := by
    refine Machine.EveryStep.inv (M := fsm) (C := fun _ st cmd => Orderly st cmd ∧ cmd ∈ pre ++ suf)
      (P := fun _ st => Determined τ st) ?_ (fun _ st cmd h hc => step_determined h hc.1 (hp cmd hc.2)) ?_
    · refine ⟨LawfulStore.wf_empty, keysIndexed_empty, fun id j hj => ?_⟩
      rw [show get (Store.empty : σ) id = none from LawfulStore.get_empty id] at hj
      cases hj
    · exact fun p cmd q heq => ⟨hlog.init p cmd q heq, by rw [heq]; simp⟩
  have hsuf : ∀ p, p <+: suf → Follows (fsm.exec st p) (fsm.exec restored p) := by
    rintro p ⟨q, rfl⟩
    refine Machine.EveryStep.sim (M := fsm) (N := fsm) (R := Follows)
      (C := fun _ st cmd => Orderly st cmd ∧ cmd ∈ pre ++ (p ++ q))
      (follows_restore hstart.wf hstart.indexed hstart.portable ord)
      (fun _ s t cmd h hc => (step_follows h hc.1 (hp cmd hc.2)).1) ?_
    intro p' cmd q' heq
    refine ⟨((Machine.everyStep_append.1 hlog).2.init) p' cmd q' heq, by rw [heq]; simp⟩
  refine ⟨(hsuf suf (List.prefix_refl suf)).same, fun p cmd q heq => ?_⟩
  refine (step_follows (hsuf p ⟨_, heq.symm⟩) ?_ (hp cmd (by rw [heq]; simp))).2
  exact (Machine.everyStep_append.1 hlog).2 p cmd q heq

/-- Compaction loses nothing about jobs: for every log that adds jobs with new ids and new keys and updates them without
changing keys, every cut and every order of the snapshot, over either kind of store; and from one kind to the other if
both take the keys and cron ids of the log and have lists for the statuses in it. -/
theorem compaction_preserves_jobs (σ τ : Type) [TableStore σ] [TableStore τ] (pre suf : List Command)
    (hlog : fsm.EveryStep (fun _ (st : σ) cmd => Orderly st cmd) Store.empty (pre ++ suf)) (ord : RangeOrder Int) :
    Preserves σ σ pre suf ord ∧
      ((∀ cmd ∈ pre ++ suf, ∀ w, cmd.write = some w → Portable σ τ w) → Preserves σ τ pre suf ord) :=
  ⟨preserves_of_portable hlog (fun _ _ w _ => portable_self w) ord, fun hp => preserves_of_portable hlog hp ord⟩

/-- Job 1 with its key and job 2 without one are in the snapshot; afterwards job 1 is finished and job 2 deleted. -/
theorem compaction_preserves_two_jobs :
    Preserves MemoryStore BoltStore [.addJob (keyed 1 "a"), .addJob (.newJob 2 "sms" 1)]
      [{ Command.zero .updateJob with job := { keyed 1 "a" with status := .completed } }, .deleteJob 2]
      ⟨List.reverse, fun l => l.reverse_perm⟩ := by
  refine (compaction_preserves_jobs MemoryStore BoltStore _ _ ?_ _).2 ?_
  · simp only [List.cons_append, List.nil_append, Machine.everyStep_cons, Machine.everyStep_nil, and_true]
    refine ⟨fun w hw => ?_, fun w hw => ?_, fun w hw => ?_, fun w hw => ?_⟩
    · cases hw
      exact ⟨rfl, fun _ id x hx => by cases hx⟩
    · cases hw
      exact ⟨rfl, fun h => absurd rfl h⟩
    · cases hw
      intro old hold
      cases hold
      rfl
    · cases hw
      trivial
  · intro cmd hcmd w hw
    simp only [List.cons_append, List.nil_append, List.mem_cons, List.not_mem_nil, or_false] at hcmd
    rcases hcmd with rfl | rfl | rfl | rfl <;> cases hw
    · exact ⟨by decide, iff_of_true trivial List.mem_cons_self⟩
    · exact ⟨by decide, iff_of_true trivial List.mem_cons_self⟩
    · trivial
    · trivial

end Fsm

/-! ## Crons -/

/-- What a call writes under a cron id, if it writes there at all. -/
def Write.cronAt (L : Limits) (id : String) : Write → Option (Option CronJob)
  | .addCron c => if c.id = id ∧ L.cron c.id = true then some (some c) else none
  | .deleteCron k => if k = id then some none else none
  | _ => none

namespace Tables

theorem write_cron (L : Limits) (t : Tables) (w : Write) (id : String) :
    (t.write L w).1.cron id = (w.cronAt L id).getD (t.cron id) := by
  cases w with
  | add j =>
    simp only [write]
    split <;> rfl
  | update j =>
    simp only [write]
    split <;> rfl
  | cancel k =>
    simp only [write]
    split <;> rfl
  | addCron c =>
    simp only [write, Write.cronAt]
    by_cases hok : L.cron c.id = true
    · by_cases hid : c.id = id
      · simp [hid, hid ▸ hok]
      · simp [hok, hid, Ne.symm hid]
    · simp [hok]
  | deleteCron k =>
    simp only [write, Write.cronAt]
    by_cases hid : k = id
    · simp [hid]
    · simp [hid, Ne.symm hid]
  | delete _ | addDLQ _ => rfl

/-- Two runs of the same calls end with the same cron under an id exactly if they started so or one of the calls
writes there. -/
theorem exec_cron_eq_iff {L : Limits} {ws : List Write} {t t' : Tables} {id : String} :
    ((writes L).exec t ws).cron id = ((writes L).exec t' ws).cron id ↔
      t.cron id = t'.cron id ∨ ∃ w ∈ ws, (w.cronAt L id).isSome = true := by
  induction ws generalizing t t' with
  | nil => simp
  | cons w ws ih =>
    rw [Machine.exec_cons, Machine.exec_cons, ih]
    simp only [writes, write_cron, List.exists_mem_cons_iff]
    cases w.cronAt L id with
    | none => simp
    | some c => simp

/-- Crons are under their own ids, and the store can write these. -/
def CronsKeyed (L : Limits) (t : Tables) : Prop := ∀ id c, t.cron id = some c → c.id = id ∧ L.cron id = true

theorem CronsKeyed.write {L : Limits} {t : Tables} (h : t.CronsKeyed L) (w : Write) : (t.write L w).1.CronsKeyed L := by
  intro id c hc
  rw [write_cron] at hc
  cases hw : w.cronAt L id with
  | none =>
    rw [hw] at hc
    exact h id c hc
  | some x =>
    rw [hw] at hc
    obtain rfl : x = some c := hc
    cases w with
    | addCron d =>
      simp only [Write.cronAt] at hw
      split at hw
      · rename_i hd
        cases hw
        exact ⟨hd.1, hd.1 ▸ hd.2⟩
      · cases hw
    | deleteCron k =>
      simp only [Write.cronAt] at hw
      split at hw <;> cases hw
    | add _ | update _ | delete _ | cancel _ | addDLQ _ => cases hw

end Tables

namespace Fsm

variable {σ : Type} [TableStore σ]

/-- The command adds or deletes the cron. -/
def MentionsCron (id : String) (cmd : Command) : Prop :=
  cmd.type = .addCronJob ∧ cmd.cron.id = id ∨ cmd.type = .deleteCronJob ∧ cmd.cronID = id

theorem cronAt_isSome_iff {L : Limits} {id : String} (hid : L.cron id = true) {cmd : Command} :
    (∃ w, cmd.write = some w ∧ (w.cronAt L id).isSome = true) ↔ MentionsCron id cmd := by
  unfold Command.write MentionsCron
  cases cmd.type with
  | addCronJob =>
    simp only [Option.some.injEq, exists_eq_left', Write.cronAt, true_and, reduceCtorEq, false_and, or_false]
    by_cases hc : cmd.cron.id = id
    · simp [hc, hid]
    · simp [hc]
  | deleteCronJob =>
    simp only [Option.some.injEq, exists_eq_left', Write.cronAt, true_and, reduceCtorEq, false_and, false_or]
    by_cases hc : cmd.cronID = id
    · simp [hc]
    · simp [hc]
  | addJob | updateJob | deleteJob | cancelJob => simp [Write.cronAt]
  | other name => simp

omit [TableStore σ] in
theorem exec_writes [Store σ] (log : List Command) (st : σ) :
    fsm.exec st log = Store.writes.exec st (log.filterMap Command.write) := by
  induction log generalizing st with
  | nil => rfl
  | cons cmd log ih =>
    rw [Machine.exec_cons, ih]
    cases hw : cmd.write with
    | none =>
      rw [List.filterMap_cons_none hw]
      show Store.writes.exec (fsmApply st cmd).1 _ = _
      rw [fsmApply_none hw]
    | some w =>
      rw [List.filterMap_cons_some hw, Machine.exec_cons]
      show Store.writes.exec (fsmApply st cmd).1 _ = _
      rw [(fsmApply_write _ hw).1, Store.writes_step]

/-- Jobs and crons are under their own ids. -/
structure Named (st : σ) : Prop where
  jobs : Store.Keyed st
  crons : (Store.tables st).CronsKeyed (Store.limits σ)

theorem named_empty : Named (Store.empty : σ) := by
  refine ⟨Store.keyed_of_wf LawfulStore.wf_empty, ?_⟩
  rw [Store.tables_empty]
  intro id c hc
  cases hc

theorem Named.exec {st : σ} (h : Named st) (ws : List Write) : Named (Store.writes.exec st ws) := by
  obtain ⟨hk, ht⟩ := Store.exec_tables h.jobs ws
  refine ⟨hk, ?_⟩
  rw [ht]
  exact Machine.exec_inv (M := Tables.writes (Store.limits σ)) h.crons (fun t w ht => ht.write w) ws

theorem Named.fsm {st : σ} (h : Named st) (log : List Command) : Named (fsm.exec st log) := by
  rw [exec_writes]
  exact h.exec _

theorem Named.restore {st : σ} (h : Named st) (jobs : List Job) : Named (fsmRestore st jobs) := by
  rw [fsmRestore_writes]
  exact h.exec _

theorem mem_listCrons {st : σ} (h : Named st) {ord : RangeOrder String} {c : CronJob} :
    c ∈ Store.listCrons ord st ↔ TableStore.cron st c.id = some c := by
  obtain ⟨m, hm, hlist⟩ := TableStore.listCrons_eq st
  rw [hlist, GoMap.mem_values]
  constructor
  · rintro ⟨k, hk⟩
    rw [hm] at hk
    rw [(h.crons k c hk).1]
    exact hk
  · intro hc
    exact ⟨c.id, (hm c.id).trans hc⟩

/-- The lists of crons are the same, up to order, exactly if the same cron is under each id. -/
theorem listCrons_perm_iff {s t : σ} (hs : Named s) (ht : Named t) :
    (∀ ord ord', (Store.listCrons ord s).Perm (Store.listCrons ord' t)) ↔
      ∀ id, TableStore.cron s id = TableStore.cron t id := by
  constructor
  · intro h id
    refine Option.ext fun c => ?_
    have hmem := (h .stored .stored).mem_iff (a := c)
    rw [mem_listCrons hs, mem_listCrons ht] at hmem
    constructor
    · intro hc
      have hid := (hs.crons id c hc).1
      subst hid
      exact hmem.1 hc
    · intro hc
      have hid := (ht.crons id c hc).1
      subst hid
      exact hmem.2 hc
  · intro h ord ord'
    obtain ⟨m, hm, hlist⟩ := TableStore.listCrons_eq s
    obtain ⟨m', hm', hlist'⟩ := TableStore.listCrons_eq t
    rw [hlist, hlist']
    exact GoMap.values_perm (fun k => by rw [hm, hm', h]) ord ord'

/-- `Restore` does not touch the crons. -/
theorem cron_restore (jobs : List Job) (st : σ) : TableStore.cron (fsmRestore st jobs) = TableStore.cron st := by
  unfold fsmRestore
  induction jobs generalizing st with
  | nil => rfl
  | cons j jobs ih =>
    rw [List.foldl_cons, ih]
    cases hadd : Store.add st j with
    | error e => rfl
    | ok st' => exact TableStore.cron_add hadd

/-- Two stores that apply the same commands have the same cron under an id exactly if they had it before or one of the
commands adds or deletes it. -/
theorem exec_cron_eq_iff {s t : σ} (hs : Named s) (ht : Named t) {id : String} (hid : (Store.limits σ).cron id = true)
    (log : List Command) : TableStore.cron (fsm.exec s log) id = TableStore.cron (fsm.exec t log) id ↔
      TableStore.cron s id = TableStore.cron t id ∨ ∃ cmd ∈ log, MentionsCron id cmd := by
  have hexec : ∀ {st : σ}, Named st → TableStore.cron (fsm.exec st log) id =
      ((Tables.writes (Store.limits σ)).exec (Store.tables st) (log.filterMap Command.write)).cron id := by
    intro st hst
    rw [exec_writes, ← (Store.exec_tables hst.jobs _).2]
    rfl
  rw [hexec hs, hexec ht, Tables.exec_cron_eq_iff]
  refine or_congr Iff.rfl ?_
  simp only [← cronAt_isSome_iff hid, List.mem_filterMap]
  constructor
  · rintro ⟨w, ⟨cmd, hcmd, hw⟩, hsome⟩
    exact ⟨cmd, hcmd, w, hw, hsome⟩
  · rintro ⟨cmd, hcmd, w, hw, hsome⟩
    exact ⟨w, ⟨cmd, hcmd, hw⟩, hsome⟩

/-- Compaction keeps the crons exactly if the rest of the log adds again or deletes every cron that is stored at the
cut. -/
theorem compaction_preserves_crons_iff (pre suf : List Command) (ord : RangeOrder Int) :
    let st := fsm.exec (Store.empty : σ) pre
    let restored := fsmRestore (Store.empty : σ) (fsmSnapshot ord st)
    (∀ o o', (Store.listCrons o (fsm.exec restored suf)).Perm (Store.listCrons o' (fsm.exec st suf))) ↔
      ∀ o, ∀ c ∈ Store.listCrons o st, ∃ cmd ∈ suf, MentionsCron c.id cmd := by
  intro st restored
  have hst : Named st := named_empty.fsm pre
  have hre : Named restored := named_empty.restore _
  have hnone : ∀ id, TableStore.cron restored id = none := by
    intro id
    rw [show TableStore.cron restored = TableStore.cron (Store.empty : σ) from cron_restore _ _]
    exact TableStore.cron_empty id
  rw [listCrons_perm_iff (hre.fsm suf) (hst.fsm suf)]
  constructor
  · intro h o c hc
    have hcron := (mem_listCrons hst).1 hc
    have hwritable := (hst.crons c.id c hcron).2
    rcases (exec_cron_eq_iff hre hst hwritable suf).1 (h c.id) with heq | hmentioned
    · rw [hnone, hcron] at heq
      cases heq
    · exact hmentioned
  · intro h id
    by_cases hwritable : (Store.limits σ).cron id = true
    · refine (exec_cron_eq_iff hre hst hwritable suf).2 ?_
      rw [hnone]
      cases hcron : TableStore.cron st id with
      | none => exact .inl rfl
      | some c =>
        have hid := (hst.crons id c hcron).1
        subst hid
        exact .inr (h .stored c ((mem_listCrons hst).2 hcron))
    · -- no store has a cron under an id it cannot write
      have hneither : ∀ {s : σ}, Named s → TableStore.cron s id = none := by
        intro s hs
        cases hcron : TableStore.cron s id with
        | none => rfl
        | some c => exact absurd (hs.crons id c hcron).2 hwritable
      rw [hneither (hre.fsm suf), hneither (hst.fsm suf)]

/-- A cron, and a log of one command after which the node is brought up from a snapshot: the cron is gone. -/
theorem compaction_drops_cron :
    let cmd : Command := { Command.zero .addCronJob with cron := ⟨"report", "@daily", "email", 1, 0⟩ }
    let st := fsm.exec (Store.empty : BoltStore) [cmd]
    Store.listCrons .stored st = [⟨"report", "@daily", "email", 1, 0⟩] ∧
      Store.listCrons .stored (fsmRestore (Store.empty : BoltStore) (fsmSnapshot .stored st)) = [] := by
  decide

end Fsm

end Quorum
