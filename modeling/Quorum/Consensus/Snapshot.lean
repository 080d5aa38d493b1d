/-
Snapshots of the replicated state machine. `FSM.Snapshot` is the list of the jobs; `FSM.Restore` adds them to whatever
the store holds. Everything the state machine does to its store is a sequence of calls of the store, so what `Restore`
leaves behind, and what becomes of finished jobs, follows from what the calls do to the tables.
-/
import Quorum.Consensus.Fsm
import Quorum.Store.Histories

namespace Quorum

/-! ## The state machine as calls of the store -/

/-- The call of the store that `FSM.Apply` makes. -/
def Command.write (cmd : Command) : Option Write :=
  match cmd.type with
  | .addJob => some (.add cmd.job)
  | .updateJob => some (.update cmd.job)
  | .deleteJob => some (.delete cmd.id)
  | .cancelJob => some (.cancel cmd.id)
  | .addCronJob => some (.addCron cmd.cron)
  | .deleteCronJob => some (.deleteCron cmd.cronID)
  | .other _ => none

/-- What the state machine is asked to do. -/
inductive FsmCall where
  | apply (cmd : Command)
  | restore (jobs : List Job)

/-- The calls of the store this makes. -/
def FsmCall.writes : FsmCall → List Write
  | .apply cmd => cmd.write.toList
  | .restore jobs => jobs.map .add

section
variable {σ : Type} [Store σ]

def fsmCall (st : σ) : FsmCall → σ
  | .apply cmd => (fsmApply st cmd).1
  | .restore jobs => fsmRestore st jobs

theorem fsmApply_none {st : σ} {cmd : Command} (h : cmd.write = none) : fsmApply st cmd = (st, none) := by
  unfold Command.write at h
  unfold fsmApply
  cases ht : cmd.type with
  | other name => rfl
  | addJob | updateJob | deleteJob | cancelJob | addCronJob | deleteCronJob => rw [ht] at h; cases h

omit [Store σ] in
theorem settle_err (st : σ) (r : Except String σ) :
    (orUnchanged st r).2.isNone = (Store.settle st r).2.toOption.isSome := by
  cases r <;> rfl

/-- `FSM.Apply` makes its call and answers with an error exactly if the call failed. -/
theorem fsmApply_write (st : σ) {cmd : Command} {w : Write} (h : cmd.write = some w) :
    (fsmApply st cmd).1 = (Store.write st w).1 ∧
      (fsmApply st cmd).2.isNone = (Store.write st w).2.toOption.isSome := by
  unfold Command.write at h
  unfold fsmApply
  cases ht : cmd.type with
  | addJob | updateJob | cancelJob | addCronJob =>
    rw [ht] at h
    cases h
    exact ⟨rfl, settle_err st _⟩
  | deleteJob | deleteCronJob => rw [ht] at h; cases h; exact ⟨rfl, rfl⟩
  | other name => rw [ht] at h; cases h

theorem fsmRestore_writes (st : σ) (jobs : List Job) : fsmRestore st jobs = Store.writes.exec st (jobs.map .add) := by
  unfold fsmRestore Machine.exec
  rw [List.foldl_map]
  rfl

/-- A call of the FSM does to the store what its writes do one after the other. -/
theorem fsmCall_writes (st : σ) (c : FsmCall) : fsmCall st c = Store.writes.exec st c.writes := by
  cases c with
  | restore jobs => exact fsmRestore_writes st jobs
  | apply cmd =>
    simp only [fsmCall, FsmCall.writes]
    cases hw : cmd.write with
    | none => rw [fsmApply_none hw]; rfl
    | some w => exact (fsmApply_write _ hw).1

end

/-! ## Adding a list of jobs -/

namespace Tables

variable {L : Limits} {t : Tables}

theorem add_job_of_ne {j : Job} {id : Int} (hne : id ≠ j.id) : (t.write L (.add j)).1.job id = t.job id := by
  simp only [write]
  split
  · exact if_neg hne
  · rfl

/-- Jobs that are not in the list are untouched. -/
theorem addAll_job_of_notMem {l : List Job} {id : Int} (h : id ∉ l.map Job.id) :
    ((writes L).exec t (l.map .add)).job id = t.job id := by
  induction l generalizing t with
  | nil => rfl
  | cons j l ih =>
    simp only [List.map_cons, List.mem_cons, not_or] at h
    rw [List.map_cons, Machine.exec_cons, ih h.2]
    exact add_job_of_ne h.1

/-- A job of the list, ids being distinct, is there afterwards exactly if it was taken. -/
theorem addAll_job_of_mem {l : List Job} (hnd : (l.map Job.id).Nodup) {j : Job} (hj : j ∈ l) :
    ((writes L).exec t (l.map .add)).job j.id = if t.Takes L j then some j else t.job j.id := by
  induction l generalizing t with
  | nil => cases hj
  | cons x l ih =>
    rw [List.map_cons, List.nodup_cons] at hnd
    rw [List.map_cons, Machine.exec_cons]
    rcases List.mem_cons.1 hj with rfl | hmem
    · rw [addAll_job_of_notMem hnd.1]
      simp only [writes, write]
      split
      · simp [put]
      · rfl
    · -- what is taken depends on the id alone, and `x` has another one
      have hne : j.id ≠ x.id := fun he => hnd.1 (he ▸ List.mem_map_of_mem hmem)
      have hsame : (t.write L (.add x)).1.job j.id = t.job j.id := add_job_of_ne hne
      rw [ih hnd.2 hmem]
      simp only [writes, Takes, hsame]

end Tables

namespace Store

variable {σ : Type} [TableStore σ]

theorem get_restore_of_notMem {st : σ} (hk : Keyed st) {jobs : List Job} {id : Int} (h : id ∉ jobs.map Job.id) :
    get (fsmRestore st jobs) id = get st id := by
  have hjob : (tables (fsmRestore st jobs)).job id = (tables st).job id := by
    rw [fsmRestore_writes, (exec_tables hk _).2]
    exact Tables.addAll_job_of_notMem h
  exact hjob

theorem get_restore_of_mem {st : σ} (hk : Keyed st) {jobs : List Job} (hnd : (jobs.map Job.id).Nodup) {j : Job}
    (hj : j ∈ jobs) :
    get (fsmRestore st jobs) j.id = if (tables st).Takes (limits σ) j then some j else get st j.id := by
  have hjob : (tables (fsmRestore st jobs)).job j.id =
      if (tables st).Takes (limits σ) j then some j else (tables st).job j.id := by
    rw [fsmRestore_writes, (exec_tables hk _).2]
    exact Tables.addAll_job_of_mem hnd hj
  exact hjob

theorem keyed_restore {st : σ} (hk : Keyed st) (jobs : List Job) : Keyed (fsmRestore st jobs) := by
  rw [fsmRestore_writes]
  exact (exec_tables hk _).1

/-- The status index survives the addition of jobs whose ids are new, or stored with the same status. -/
theorem wf_restore {st : σ} (hs : LawfulStore.WF st) {jobs : List Job} (hnd : (jobs.map Job.id).Nodup)
    (hsame : ∀ j ∈ jobs, (tables st).Takes (limits σ) j → ∀ old, get st j.id = some old →
      TableStore.Indexes σ old.status → old.status = j.status) : LawfulStore.WF (fsmRestore st jobs) := by
  rw [fsmRestore_writes]
  refine (wf_prefixes_iff hs _).2 ?_ _ (List.prefix_refl _)
  intro pre w post heq
  obtain ⟨before, rest, rfl, rfl, hrest⟩ := List.map_eq_append_iff.1 heq
  obtain ⟨j, after, rfl, rfl, -⟩ := List.map_eq_cons_iff.1 hrest
  -- under the id of `j` nothing has changed yet
  have hnew : j.id ∉ before.map Job.id := by
    intro hin
    rw [List.map_append, List.nodup_append] at hnd
    exact hnd.2.2 _ hin _ List.mem_cons_self rfl
  have hget := get_restore_of_notMem (keyed_of_wf hs) hnew
  rw [fsmRestore_writes] at hget
  intro hadd old hold hidx
  refine hsame j (by simp) ?_ old (hget ▸ hold) hidx
  obtain ⟨hkey, hfree⟩ := TableStore.add_ok_iff.1 hadd
  exact ⟨hkey, hfree.imp_left fun hn => hget.symm.trans hn⟩

/-- A snapshot has each job once. -/
theorem snapshot_ids_nodup {st : σ} (hk : Keyed st) (ord : RangeOrder Int) :
    ((fsmSnapshot ord st).map Job.id).Nodup := by
  refine List.Nodup.map_on (fun x hx y hy heq => ?_) (list_nodup hk ord)
  have hget := (mem_list_iff hk).1 hx
  rw [heq, (mem_list_iff hk).1 hy] at hget
  exact (Option.some.inj hget).symm

theorem mem_snapshot {st : σ} (hk : Keyed st) {ord : RangeOrder Int} {j : Job} :
    j ∈ fsmSnapshot ord st ↔ get st j.id = some j := mem_list_iff hk

end Store

/-! ## What `Restore` leaves behind -/

section
variable {σ τ : Type} [TableStore σ] [TableStore τ]

/-- The store holds exactly the jobs of `src`, and lists them exactly, under every status that it has a list of: all
statuses for a `MemoryStore`, the five defined ones for a `BoltStore`. -/
def Replaced (src : σ) (st : τ) : Prop :=
  (∀ id, Store.get st id = Store.get src id) ∧
    ∀ ord status, TableStore.Indexes τ status → ∃ l, Store.listByStatus ord st status = .ok l ∧
      (l.map Job.id).Nodup ∧ ∀ j, j ∈ l ↔ Store.get src j.id = some j ∧ j.status = status

theorem get_restored {src : σ} {st : τ} (hsrc : Store.Keyed src) (hst : Store.Keyed st) (ord : RangeOrder Int)
    {id : Int} {s : Job} (hs : Store.get src id = some s) : Store.get (fsmRestore st (fsmSnapshot ord src)) id =
      if (Store.tables st).Takes (Store.limits τ) s then some s else Store.get st id := by
  have hid := hsrc id s hs
  subst hid
  exact Store.get_restore_of_mem hst (Store.snapshot_ids_nodup hsrc ord) ((Store.mem_snapshot hsrc).2 hs)

theorem get_unrestored {src : σ} {st : τ} (hsrc : Store.Keyed src) (hst : Store.Keyed st)
    (ord : RangeOrder Int) {id : Int} (hs : Store.get src id = none) :
    Store.get (fsmRestore st (fsmSnapshot ord src)) id = Store.get st id := by
  refine Store.get_restore_of_notMem hst fun hid => ?_
  obtain ⟨j, hj, rfl⟩ := List.mem_map.1 hid
  have hget := (Store.mem_snapshot hsrc).1 hj
  rw [hs] at hget
  cases hget

/-- An id stays in the set of its old status when a job is put over it. -/
theorem indexed_restore {st : τ} (hst : Store.Keyed st) (jobs : List Job) {status : Status} {id : Int}
    (h : TableStore.indexed st status id) : TableStore.indexed (fsmRestore st jobs) status id := by
  unfold fsmRestore
  induction jobs generalizing st with
  | nil => exact h
  | cons j jobs ih =>
    rw [List.foldl_cons]
    cases hadd : Store.add st j with
    | error e => exact ih hst h
    | ok st' =>
      exact ih (hst.put (LawfulStore.get_add hadd)) ((TableStore.indexed_add hadd status id).2 (.inr h))

/-- `Restore` of a snapshot of `src` replaces the state of a store exactly if the store has no job that `src` has not,
and each job of `src` is there already, or is taken by `Add` and not over a job of another status. A `MemoryStore` takes
only jobs with new ids; a `BoltStore` takes all jobs whose idempotency key it can write. -/
theorem restore_replaces_iff (src : σ) (hsrc : LawfulStore.WF src) (st : τ) (hst : LawfulStore.WF st)
    (ord : RangeOrder Int) :
    Replaced src (fsmRestore st (fsmSnapshot ord src)) ↔
      (∀ id, Store.get src id = none → Store.get st id = none) ∧
        ∀ id s, Store.get src id = some s → Store.get st id = some s ∨
          (∃ st', Store.add st s = .ok st') ∧
            ∀ old, Store.get st id = some old → TableStore.Indexes τ old.status → old.status = s.status := by
  have hks := Store.keyed_of_wf hsrc
  have hkt := Store.keyed_of_wf hst
  constructor
  · rintro ⟨hget, hlists⟩
    refine ⟨fun id hnone => ?_, fun id s hs => ?_⟩
    · rw [← get_unrestored hks hkt ord hnone, hget, hnone]
    · have hgot := get_restored hks hkt ord hs
      rw [hget, hs] at hgot
      split at hgot
      · rename_i htakes
        refine .inr ⟨Store.takes_iff.2 htakes, fun old hold hdef => ?_⟩
        -- the id is still in the set of the old status, and so the job is listed there
        obtain ⟨l, hl, -, hmem⟩ := hlists .stored old.status hdef
        obtain ⟨ids, -, hids, heq⟩ :=
          TableStore.listByStatus_eq .stored (fsmRestore st (fsmSnapshot ord src)) old.status
        cases hl.symm.trans heq
        have hidx := (TableStore.wf_iff.1 hst).index old.status id |>.2 ⟨hdef, old, hold, rfl⟩
        have hin := List.mem_filterMap.2 ⟨id, (hids id).2 (indexed_restore hkt _ hidx), (hget id).trans hs⟩
        exact ((hmem s).1 hin).2.symm
      · exact .inl hgot.symm
  · rintro ⟨hnone, hsome⟩
    have hget : ∀ id, Store.get (fsmRestore st (fsmSnapshot ord src)) id = Store.get src id := by
      intro id
      cases hs : Store.get src id with
      | none => rw [get_unrestored hks hkt ord hs, hnone id hs]
      | some s =>
        rw [get_restored hks hkt ord hs]
        split
        · rfl
        · rename_i hrefused
          rcases hsome id s hs with hthere | ⟨htaken, -⟩
          · exact hthere
          · exact absurd (Store.takes_iff.1 htaken) hrefused
    have hwf : LawfulStore.WF (fsmRestore st (fsmSnapshot ord src)) := by
      refine Store.wf_restore hst (Store.snapshot_ids_nodup hks ord) fun s hs _ old hold hidx => ?_
      rcases hsome s.id s ((Store.mem_snapshot hks).1 hs) with hthere | ⟨-, hsame⟩
      · cases hold.symm.trans hthere
        rfl
      · exact hsame old hold hidx
    refine ⟨hget, fun ord' status hdef => ?_⟩
    obtain ⟨l, hl, hnd, hmem⟩ := Store.listByStatus_spec hwf ord' status
    refine ⟨l, hl, hnd, fun j => ?_⟩
    rw [hmem, hget]
    exact ⟨And.right, fun hj => ⟨hdef, hj⟩⟩

end

/-- A new node of the other kind is brought up from a snapshot. -/
theorem restore_replaces_empty :
    let src := Store.writes.exec MemoryStore.new [.add (.newJob 1 "email" 1), .add (.newJob 2 "sms" 3),
      .update { Job.newJob 2 "sms" 3 with status := .completed }]
    Replaced src (fsmRestore BoltStore.new (fsmSnapshot .stored src)) := by
  intro src
  have hkeys : ∀ j ∈ fsmSnapshot .stored src, j.idempotencyKey = "" := by decide
  refine (restore_replaces_iff src (MemoryStore.coherent_exec _) BoltStore.new BoltStore.coherent_new .stored).2
    ⟨fun _ _ => rfl, fun id s hs => .inr ⟨?_, fun old hold => by cases hold⟩⟩
  have hk : Store.Keyed src := (MemoryStore.coherent_exec _).keyed
  have hid := hk id s hs
  subst hid
  exact BoltStore.add_fresh (hkeys s ((Store.mem_snapshot hk).2 hs))

/-- The source has finished job 1, the target has it pending and has a job 2. Over a `MemoryStore` nothing changes; over
a `BoltStore` job 1 is overwritten and stays in the list of pending jobs. Job 2 stays in both. -/
theorem restore_keeps_old_state :
    let src := Store.writes.exec MemoryStore.new [.add (.newJob 1 "email" 1),
      .update { Job.newJob 1 "email" 1 with status := .completed }]
    let m := fsmRestore (Store.writes.exec MemoryStore.new [.add (.newJob 1 "email" 1), .add (.newJob 2 "sms" 3)])
      (fsmSnapshot .stored src)
    let b := fsmRestore (Store.writes.exec BoltStore.new [.add (.newJob 1 "email" 1), .add (.newJob 2 "sms" 3)])
      (fsmSnapshot .stored src)
    m.get 1 = some (.newJob 1 "email" 1) ∧ m.get 2 = some (.newJob 2 "sms" 3) ∧ ¬ Replaced src m ∧
      b.get 1 = some { Job.newJob 1 "email" 1 with status := .completed } ∧ b.get 2 = some (.newJob 2 "sms" 3) ∧
      (b.listByStatus .stored .pending).toOption =
        some [.newJob 2 "sms" 3, { Job.newJob 1 "email" 1 with status := .completed }] ∧ ¬ Replaced src b := by
  refine ⟨by decide, by decide, fun h => ?_, by decide, by decide, by decide, fun h => ?_⟩
  · exact absurd (h.1 2) (by decide)
  · exact absurd (h.1 2) (by decide)

/-! ## Finished jobs -/

/-- A call keeps the status of a finished job, unless it deletes it or puts a job with another status over it. -/
theorem Tables.terminal_write {L : Limits} {t : Tables} (hk : t.Keyed) {w : Write} {id : Int} {j : Job}
    (hj : t.job id = some j) (ht : j.status.isTerminal = true) (hdel : w ≠ .delete id)
    (hadd : ∀ x, w = .add x → t.Takes L x → x.id = id → x.status = j.status) :
    ∃ j', (t.write L w).1.job id = some j' ∧ j'.status = j.status := by
  have hch := write_job L t w id
  generalize (t.write L w).1.job id = y at hch ⊢
  cases hch with
  | same => exact ⟨j, hj, rfl⟩
  | added htakes => exact ⟨_, rfl, hadd _ rfl htakes rfl⟩
  | updated hold hv =>
    cases hj.symm.trans hold
    exact ⟨_, rfl, (isValidTransition_terminal ht).1 hv⟩
  | deleted => exact absurd rfl hdel
  | cancelled hold hopen =>
    have hid := hk _ _ hold
    subst hid
    cases hj.symm.trans hold
    rw [ht] at hopen
    cases hopen

namespace Fsm

variable {σ : Type} [TableStore σ]

/-- `Add` is refused, or the job under its id is not finished, or it has the same status. -/
def KeepsFinished (s : σ) (w : Write) : Prop :=
  ∀ j s' old, w = .add j → Store.add s j = .ok s' → Store.get s j.id = some old → old.status.isTerminal = true →
    j.status = old.status

theorem finished_write {s : σ} (hk : Store.Keyed s) {w : Write} (hw : KeepsFinished s w) {id : Int} {j : Job}
    (hj : Store.get s id = some j) (ht : j.status.isTerminal = true) (hdel : w ≠ .delete id) :
    ∃ j', Store.get (Store.write s w).1 id = some j' ∧ j'.status = j.status := by
  have hstep :=
      Tables.terminal_write (L := Store.limits σ) (t := Store.tables s) hk hj ht hdel fun x hx htakes hid => by
    obtain ⟨s', hadd⟩ := Store.takes_iff.2 htakes
    exact hw x s' j hx hadd (by rw [hid]; exact hj) ht
  rw [← Store.write_tables hk w] at hstep
  exact hstep

/-- Along a run that puts no other status over a finished job, a finished job keeps its status until it is deleted. -/
theorem finished_run {st : σ} (hk : Store.Keyed st) {ws : List Write}
    (h : Store.writes.EveryStep (fun _ s w => KeepsFinished s w) st ws) {pre mid post : List Write}
    (heq : ws = pre ++ mid ++ post) {id : Int} {j : Job} (hj : Store.get (Store.writes.exec st pre) id = some j)
    (ht : j.status.isTerminal = true) (hdel : Write.delete id ∉ mid) :
    ∃ j', Store.get (Store.writes.exec st (pre ++ mid)) id = some j' ∧ j'.status = j.status := by
  rw [heq, List.append_assoc, Machine.everyStep_append] at h
  rw [Machine.exec_append]
  have hrun := Machine.EveryStep.inv (M := Store.writes) (C := fun _ s w => KeepsFinished s w ∧ w ∈ mid)
    (P := fun _ s => Store.Keyed s ∧ ∃ x, Store.get s id = some x ∧ x.status = j.status)
    ⟨(Store.exec_tables hk pre).1, j, hj, rfl⟩ (fun _ s w hs hw => ?_)
    (fun p w q hpq => ⟨h.2.init p w q hpq, by rw [hpq]; simp⟩)
  · exact hrun.2
  · obtain ⟨hks, x, hx, hst⟩ := hs
    obtain ⟨y, hy, hsty⟩ := finished_write hks hw.1 hx (hst ▸ ht) (fun he => hdel (he ▸ hw.2))
    exact ⟨Store.keyed_write hks w, y, hy, hsty.trans hst⟩

/-- A `MemoryStore` puts no job over another one: whatever is applied and restored, finished jobs stay finished. -/
theorem memory_finished_stays {st : MemoryStore} (hk : Store.Keyed st) (calls : List FsmCall)
    {pre mid post : List Write} (heq : calls.flatMap FsmCall.writes = pre ++ mid ++ post) {id : Int} {j : Job}
    (hj : Store.get (Store.writes.exec st pre) id = some j) (ht : j.status.isTerminal = true)
    (hdel : Write.delete id ∉ mid) :
    ∃ j', Store.get (Store.writes.exec st (pre ++ mid)) id = some j' ∧ j'.status = j.status := by
  refine finished_run hk (fun p w q _ => ?_) heq hj ht hdel
  rintro x s' old rfl hadd hold -
  have hnone := MemoryStore.add_ok_iff.1 ⟨s', hadd⟩
  cases hnone.symm.trans hold

/-- A finished job keeps its status until it is deleted, at every moment between two writes of the state machine to its
store, exactly if no `Add`, of a command or of a snapshot, puts a job with another status over a finished one. -/
theorem finished_stays_iff (st : σ) (hk : Store.Keyed st) (calls : List FsmCall) :
    (∀ pre mid post id j, calls.flatMap FsmCall.writes = pre ++ mid ++ post →
        Store.get (Store.writes.exec st pre) id = some j → j.status.isTerminal = true → Write.delete id ∉ mid →
        ∃ j', Store.get (Store.writes.exec st (pre ++ mid)) id = some j' ∧ j'.status = j.status) ↔
      Store.writes.EveryStep (fun _ s w => KeepsFinished s w) st (calls.flatMap FsmCall.writes) := by
  constructor
  · intro h pre w post heq
    rintro j s' old rfl hadd hold hterm
    obtain ⟨j', hj', hst⟩ := h pre [.add j] post j.id old (by simpa using heq) hold hterm (by simp)
    rw [Machine.exec_append, Machine.exec_cons, Machine.exec_nil, Store.writes_step] at hj'
    simp only [Store.write, hadd] at hj'
    have hput : Store.get s' j.id = some j := by rw [LawfulStore.get_add hadd, if_pos rfl]
    cases hput.symm.trans hj'
    exact hst
  · intro h pre mid post id j heq hj ht hdel
    exact finished_run hk h heq hj ht hdel

/-- `update_job` that finishes a job. -/
def complete (j : Job) : FsmCall := .apply { Command.zero .updateJob with job := { j with status := .completed } }

/-- A node over a `BoltStore` starts again and loads a snapshot that has the finished job as finished. -/
theorem finished_stays_same_snapshot :
    let calls := [.apply (.addJob (.newJob 1 "email" 1)), complete (.newJob 1 "email" 1),
      .restore [{ Job.newJob 1 "email" 1 with status := .completed }, .newJob 2 "sms" 1]]
    ∃ j', Store.get (Store.writes.exec BoltStore.new (calls.flatMap FsmCall.writes)) 1 = some j' ∧
      j'.status = .completed := by
  intro calls
  refine (finished_stays_iff BoltStore.new (Store.keyed_of_wf LawfulStore.wf_empty) calls).2 ?_
    [.add (.newJob 1 "email" 1), .update { Job.newJob 1 "email" 1 with status := .completed }]
    [.add { Job.newJob 1 "email" 1 with status := .completed }, .add (.newJob 2 "sms" 1)] []
    1 { Job.newJob 1 "email" 1 with status := .completed } rfl (by decide) rfl (by decide)
  simp only [calls, complete, List.flatMap_cons, List.flatMap_nil, FsmCall.writes, Command.write, Command.addJob,
    Command.zero, Option.toList_some, List.map_cons, List.map_nil, List.append_nil, List.cons_append, List.nil_append,
    Machine.everyStep_cons, Machine.everyStep_nil, and_true]
  refine ⟨?_, ?_, ?_, ?_⟩
  · rintro j s' old h - hold -
    cases h; cases hold
  · intro j s' old h
    cases h
  · rintro j s' old h - hold -
    cases h
    cases hold
    rfl
  · rintro j s' old h - hold -
    cases h; cases hold

/-- Over a `BoltStore`, a snapshot that was taken before a job finished brings the job back as pending; a repeated
`add_job` does the same. -/
theorem finished_brought_back :
    let st := [.apply (.addJob (.newJob 1 "email" 1)), complete (.newJob 1 "email" 1)].foldl fsmCall BoltStore.new
    (st.get 1).map Job.status = some .completed ∧
      ((fsmCall st (.restore [.newJob 1 "email" 1])).get 1).map Job.status = some .pending ∧
      ((fsmCall st (.apply (.addJob (.newJob 1 "email" 1)))).get 1).map Job.status = some .pending := by
  decide

end Fsm

end Quorum
