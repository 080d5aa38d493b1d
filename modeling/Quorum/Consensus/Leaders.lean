/-
Ids across leaders. The id counter is memory of one node: `Restore` sets it from the node's store when the process
starts, and after that only the node's own submissions move it. Jobs that other leaders have added reach the node
through `FSM.Apply`, which leaves the counter alone; neither does a claim of leadership look at it. Ids are not given
out twice as long as every node that accepts a submission has counted as far as the log.
-/
import Quorum.Consensus.Cluster
import Quorum.Engine.Rebuild
import Quorum.Store.Bolt

namespace Quorum

/-- `List` has every stored job, whatever the status index says. -/
class Store.ListsAll (σ : Type) [Store σ] : Prop where
  mem_list : ∀ (ord : RangeOrder Int) (s : σ) (id : Int) (j : Job), Store.get s id = some j → j ∈ Store.list ord s

instance : Store.ListsAll MemoryStore := ⟨fun _ _ id _ h => GoMap.mem_values.2 ⟨id, h⟩⟩

instance : Store.ListsAll BoltStore := ⟨fun _ _ id _ h => GoMap.mem_values.2 ⟨id, h⟩⟩

/-- The submissions of the API. -/
inductive Submission where
  | submitJob (jobType : String) (priority : Int)
  | submitJobAt (jobType : String) (priority : Int) (runAt : Time)
  | submitJobIdempotent (key jobType : String) (priority : Int)

/-- The same call of a single engine. -/
def Submission.input : Submission → Engine.Input
  | .submitJob jobType priority => .submitJob jobType priority
  | .submitJobAt jobType priority runAt => .submitJobAt jobType priority runAt
  | .submitJobIdempotent key jobType priority => .submitJobIdempotent key jobType priority

/-- A cluster whose nodes are engines: each has an id counter of its own. -/
structure Ensemble (σ : Type) (n : Nat) where
  cluster : Cluster σ n
  nextJobID : Fin n → Int

namespace Ensemble

variable {σ : Type} {n : Nat}

/-- What happens in the cluster: a step of the replicas and schedulers, a submission on node `k`, or a new start of
node `k`. A `BoltStore` is kept over a restart, a `MemoryStore` is not; raft replays the log, of which `replayed`
entries have been applied when `Restore` is called. -/
inductive Input (n : Nat) where
  | cluster (i : Cluster.Input n)
  | submit (k : Fin n) (reply : RaftReply) (s : Submission)
  | restart (k : Fin n) (keep : Bool) (replayed : Nat) (available : Chan WorkerClient) (broker : Option Broker)
      (ord ord₁ ord₂ : RangeOrder Int)

def store (c : Ensemble σ n) (k : Fin n) : σ := (c.cluster.node k).scheduler.store

def engine (c : Ensemble σ n) (k : Fin n) : Engine σ := ⟨(c.cluster.node k).scheduler, c.nextJobID k⟩

def withEngine (c : Ensemble σ n) (k : Fin n) (e : Engine σ) : Ensemble σ n :=
  ⟨c.cluster.withScheduler k e.scheduler, Function.update c.nextJobID k e.nextJobID⟩

variable [Store σ]

/-- Node `k` applies everything that is committed. -/
def catchUp (c : Ensemble σ n) (k : Fin n) : Ensemble σ n :=
  let missing := c.cluster.log.drop (c.cluster.node k).applied
  let st := Replica.replay Cluster.applyCommand (c.store k) missing
  ⟨c.cluster.withReplica k ⟨st, c.cluster.log.length⟩, c.nextJobID⟩

/-- A leader has applied what was committed before its proposal by the time the proposal is applied. -/
def reach (c : Ensemble σ n) (k : Fin n) : RaftReply → Ensemble σ n
  | .applied => c.catchUp k
  | .notLeader _ | .failed _ => c

/-- The entry of an applied proposal is in the log, and node `k` has applied it. -/
def record (c : Ensemble σ n) (k : Fin n) (cmd : Command) : RaftReply → Ensemble σ n
  | .applied =>
    let node := Function.update c.cluster.node k ⟨(c.cluster.node k).scheduler, c.cluster.log.length + 1⟩
    ⟨⟨c.cluster.log ++ [cmd], node⟩, c.nextJobID⟩
  | .notLeader _ | .failed _ => c

/-- The part the submissions share, from the new id on. An entry that is committed after its proposer was
given an error is a `commit` of its own. -/
def create (c : Ensemble σ n) (k : Fin n) (reply : RaftReply) (what : String) (q : QueueRef) (job : Int → Job) :
    Except String (Job × Bool) × Ensemble σ n :=
  let c := c.reach k reply
  let e := (c.engine k).takeID
  let p := e.accept (some reply) what q (job e.nextJobID)
  (p.1.map fun j => (j, false), (c.withEngine k p.2).record k (.addJob (job e.nextJobID)) reply)

/-- A submission on node `k`. The idempotency key is looked up before the proposal, in the store as it is then. -/
def submit (c : Ensemble σ n) (k : Fin n) (reply : RaftReply) : Submission → Except String (Job × Bool) × Ensemble σ n
  | .submitJob jobType priority => c.create k reply "add_job" .priority fun id => .newJob id jobType priority
  | .submitJobAt jobType priority runAt => c.create k reply "add_job_at" .delay fun id =>
      { Job.newJob id jobType priority with status := .scheduled, nextRunAt := runAt }
  | .submitJobIdempotent key jobType priority =>
    if key = "" then c.create k reply "add_job" .priority fun id => .newJob id jobType priority
    else
      match Store.findByIdempotencyKey (c.store k) key with
      | some existing => (.ok (existing, true), c)
      | none => c.create k reply "add_job (idempotent)" .priority fun id =>
          { Job.newJob id jobType priority with idempotencyKey := key }

/-- The new job a submission returns. -/
def created : Except String (Job × Bool) → List Job
  | .ok (j, false) => [j]
  | .ok (_, true) | .error _ => []

/-- `New` and `Restore` on a store. -/
def restored (st : σ) (available : Chan WorkerClient) (broker : Option Broker)
    (ord ord₁ ord₂ : RangeOrder Int) : Engine σ :=
  ((Engine.new st available broker).restore ord ord₁ ord₂).1

def restart (c : Ensemble σ n) (k : Fin n) (keep : Bool) (replayed : Nat) (available : Chan WorkerClient)
    (broker : Option Broker) (ord ord₁ ord₂ : RangeOrder Int) : Ensemble σ n :=
  let st := Replica.replay Cluster.applyCommand (if keep then c.store k else Store.empty) (c.cluster.log.take replayed)
  let e := restored st available broker ord ord₁ ord₂
  let node := Function.update c.cluster.node k ⟨e.scheduler, min replayed c.cluster.log.length⟩
  ⟨⟨c.cluster.log, node⟩, Function.update c.nextJobID k e.nextJobID⟩

def step (c : Ensemble σ n) : Input n → Ensemble σ n × List Job
  | .cluster i => ({ c with cluster := (c.cluster.step i).1 }, [])
  | .submit k reply s => ((c.submit k reply s).2, created (c.submit k reply s).1)
  | .restart k keep replayed available broker ord ord₁ ord₂ =>
    (c.restart k keep replayed available broker ord ord₁ ord₂, [])

/-- The outputs are the new jobs that submissions have returned. -/
def machine : Machine (Ensemble σ n) (Input n) Job := ⟨step⟩

/-- Nothing is committed, and every node has started with `Restore` on its store. -/
def Starts (c : Ensemble σ n) (st : Fin n → σ) : Prop :=
  c.cluster.log = [] ∧ ∀ k, ∃ available broker ord ord₁ ord₂,
    c.engine k = restored (st k) available broker ord ord₁ ord₂

/-- The ids of the jobs a log adds. -/
def added (log : List Command) : List Int :=
  (log.filter fun cmd => decide (cmd.type = .addJob)).map fun cmd => cmd.job.id

/-- A submission that succeeds finds the id counter of its node not behind the log. -/
def CountedUp (c : Ensemble σ n) : Input n → Prop
  | .submit k reply s => (c.step (.submit k reply s)).2 ≠ [] → ∀ id ∈ added c.cluster.log, id ≤ c.nextJobID k
  | _ => True

/-- A submission that succeeds finds a job under its id in the store of its node. -/
def Overwrites (c : Ensemble σ n) : Input n → Prop
  | .submit k reply s => ∃ j ∈ (c.step (.submit k reply s)).2, Store.get ((c.catchUp k).store k) j.id ≠ none
  | _ => False

end Ensemble

/-! ## The ids of stored jobs -/

namespace Store

variable {σ : Type} [LawfulStore σ]

/-- A store after updates of stored jobs and dead letters. -/
inductive Rewrites (st : σ) : σ → Prop
  | refl : Rewrites st st
  | update {st' st'' : σ} {j : Job} : Rewrites st st' → Store.update st' j = .ok st'' → Rewrites st st''
  | addDLQ {st' : σ} {j : Job} : Rewrites st st' → Rewrites st (Store.addDLQ st' j)

theorem Rewrites.tryUpdate {st st' : σ} (h : Rewrites st st') (j : Job) : Rewrites st (Store.tryUpdate st' j) := by
  unfold Store.tryUpdate
  cases hu : Store.update st' j with
  | error e => exact h
  | ok st'' => exact h.update hu

/-- Jobs stay under their ids, and no id is new. -/
theorem Rewrites.spec {st st' : σ} (h : Rewrites st st') (hk : Keyed st) :
    Keyed st' ∧ ∀ id, Store.get st' id ≠ none → Store.get st id ≠ none := by
  induction h with
  | refl => exact ⟨hk, fun _ h => h⟩
  | @update st' st'' j _ hu ih =>
    obtain ⟨hk', hids⟩ := ih
    obtain ⟨old, hold, -⟩ := LawfulStore.update_ok.1 ⟨st'', hu⟩
    refine ⟨hk'.put (LawfulStore.get_update hu), fun id hid => hids id ?_⟩
    rw [LawfulStore.get_update hu] at hid
    split at hid
    · rename_i heq
      rw [heq, hold]
      exact Option.some_ne_none old
    · exact hid
  | @addDLQ st' j _ ih =>
    obtain ⟨hk', hids⟩ := ih
    refine ⟨fun id x hx => hk' id x ?_, fun id hid => hids id ?_⟩
    · rwa [LawfulStore.get_addDLQ] at hx
    · rwa [LawfulStore.get_addDLQ] at hid

end Store

namespace Scheduler

variable {σ : Type} [LawfulStore σ]

theorem resultLoop_rewrites (s : Scheduler σ) (now : Time) (r : Result) :
    Store.Rewrites s.store (s.resultLoop now r).store := by
  unfold resultLoop
  cases Store.get s.store r.jobID with
  | none => exact .refl
  | some j =>
    dsimp only
    split
    · exact .refl
    · split
      · exact Store.Rewrites.refl.tryUpdate _
      · split
        · rw [enqueueJob_store]
          exact Store.Rewrites.refl.tryUpdate _
        · exact (Store.Rewrites.refl.tryUpdate _).addDLQ

theorem processDelayedJob_rewrites (s : Scheduler σ) (now : Time) :
    Store.Rewrites s.store ((s.processDelayedJob now).getD s).store := by
  unfold processDelayedJob
  cases s.delayQueue.peek with
  | none => exact .refl
  | some id =>
    dsimp only
    cases Store.get s.store id with
    | none =>
      show Store.Rewrites s.store s.dropDelayed.store
      rw [dropDelayed_store]
      exact .refl
    | some j =>
      dsimp only
      split
      · exact .refl
      · rw [dropDelayed_store]
        cases hu : Store.update s.store { j with status := .pending } with
        | error e =>
          show Store.Rewrites s.store s.dropDelayed.store
          rw [dropDelayed_store]
          exact .refl
        | ok st =>
          show Store.Rewrites s.store (Scheduler.enqueueJob { s.dropDelayed with store := st } id .priority).store
          rw [enqueueJob_store]
          exact Store.Rewrites.refl.update hu

/-- The loops of a node only rewrite what is stored. -/
theorem round_rewrites (s : Scheduler σ) (r : Round) : Store.Rewrites s.store (s.round r).1.store := by
  cases r with
  | workers available broker => exact .refl
  | dispatchLoop now submit =>
    rw [show (s.round (.dispatchLoop now submit)).1.store = s.store from dispatchLoop_store s false now submit]
    exact .refl
  | resultLoop now r => exact resultLoop_rewrites s now r
  | processDelayedJobs now => exact processDelayedJob_rewrites s now
  | recoveryLoop workerID ord =>
    rw [show (s.round (.recoveryLoop workerID ord)).1.store = s.store from recoveryLoop_store s ord workerID]
    exact .refl

end Scheduler

namespace Ensemble

variable {σ : Type} {n : Nat} [LawfulStore σ]

theorem mem_added {log : List Command} {id : Int} : id ∈ added log ↔
    ∃ cmd ∈ log, cmd.type = .addJob ∧ cmd.job.id = id := by
  simp [added, and_assoc]

theorem added_mono {log log' : List Command} (h : ∀ cmd ∈ log, cmd ∈ log') {id : Int} (hid : id ∈ added log) :
    id ∈ added log' := by
  obtain ⟨cmd, hcmd, hadd⟩ := mem_added.1 hid
  exact mem_added.2 ⟨cmd, h cmd hcmd, hadd⟩

/-- Every stored id is within the counter `next` or added by the log. -/
structure Covered (log : List Command) (next : Int) (st : σ) : Prop where
  keyed : Store.Keyed st
  ids : ∀ id, Store.get st id ≠ none → id ≤ next ∨ id ∈ added log

theorem Covered.mono {log log' : List Command} {next next' : Int} {st : σ} (h : Covered log next st)
    (hlog : ∀ cmd ∈ log, cmd ∈ log') (hnext : next ≤ next') : Covered log' next' st := by
  refine ⟨h.keyed, fun id hid => ?_⟩
  rcases h.ids id hid with hle | hin
  · exact .inl (Int.le_trans hle hnext)
  · exact .inr (added_mono hlog hin)

theorem Covered.rewrites {log : List Command} {next : Int} {st st' : σ} (h : Covered log next st)
    (hr : Store.Rewrites st st') : Covered log next st' := by
  obtain ⟨hk, hids⟩ := hr.spec h.keyed
  exact ⟨hk, fun id hid => h.ids id (hids id hid)⟩

/-- What `FSM.Apply` can add to the stored ids. -/
theorem applyCommand_ids {st : σ} (hk : Store.Keyed st) (cmd : Command) {id : Int}
    (h : Store.get (Cluster.applyCommand st cmd) id ≠ none) :
    Store.get st id ≠ none ∨ cmd.type = .addJob ∧ cmd.job.id = id := by
  have happ := fsmApply_applied st cmd
  unfold Cluster.applyCommand at h
  generalize fsmApply st cmd = p at happ h
  cases happ with
  | refused | unknown => exact .inl h
  | addJob ht ha =>
    rw [LawfulStore.get_add ha] at h
    split at h
    · rename_i heq; exact .inr ⟨ht, heq.symm⟩
    · exact .inl h
  | updateJob _ hu => exact .inl ((Store.Rewrites.refl.update hu).spec hk |>.2 id h)
  | deleteJob =>
    rw [LawfulStore.get_delete] at h
    split at h
    · exact absurd rfl h
    · exact .inl h
  | cancelJob _ hc =>
    obtain ⟨j, hj, -, hget⟩ := LawfulStore.cancel_ok hc
    rw [hget (hk _ j hj)] at h
    split at h
    · rename_i heq
      rw [heq, hj]
      exact .inl (Option.some_ne_none j)
    · exact .inl h
  | addCronJob _ hc =>
    rw [LawfulStore.get_addCron hc] at h
    exact .inl h
  | deleteCronJob =>
    rw [LawfulStore.get_deleteCron] at h
    exact .inl h

theorem Covered.apply {log : List Command} {next : Int} {st : σ} (h : Covered log next st) {cmd : Command}
    (hcmd : cmd ∈ log) : Covered log next (Cluster.applyCommand st cmd) := by
  refine ⟨Cluster.applyCommand_keyed st cmd h.keyed, fun id hid => ?_⟩
  rcases applyCommand_ids h.keyed cmd hid with hold | hadd
  · exact h.ids id hold
  · exact .inr (mem_added.2 ⟨cmd, hcmd, hadd⟩)

theorem Covered.replay {log : List Command} {next : Int} : ∀ (entries : List Command) {st : σ}, Covered log next st →
    (∀ cmd ∈ entries, cmd ∈ log) → Covered log next (Replica.replay Cluster.applyCommand st entries)
  | [], _, h, _ => h
  | cmd :: entries, _, h, hlog =>
    Covered.replay entries (h.apply (hlog cmd List.mem_cons_self)) fun x hx => hlog x (List.mem_cons_of_mem cmd hx)

/-! ## What a submission does -/

section
variable (c : Ensemble σ n) (k m : Fin n)

omit [LawfulStore σ] in
theorem store_withScheduler (c : Cluster σ n) (s : Scheduler σ) :
    ((c.withScheduler k s).node m).scheduler.store = if m = k then s.store else (c.node m).scheduler.store := by
  unfold Cluster.withScheduler
  by_cases hm : m = k
  · subst hm; simp
  · simp [hm]

omit [LawfulStore σ] in
theorem store_withEngine (e : Engine σ) :
    (c.withEngine k e).store m = if m = k then e.scheduler.store else c.store m :=
  store_withScheduler k m c.cluster e.scheduler

theorem store_catchUp_ne (hm : m ≠ k) : (c.catchUp k).store m = c.store m := by
  simp [store, catchUp, Cluster.withReplica, hm]

omit [LawfulStore σ] in
theorem store_record [Store σ] (cmd : Command) (reply : RaftReply) : (c.record k cmd reply).store m = c.store m := by
  cases reply with
  | notLeader _ | failed _ => rfl
  | applied =>
    unfold record store
    by_cases hm : m = k
    · subst hm; simp
    · simp [hm]

end

/-- What a submission on node `k` does, and the new jobs it returns: a duplicate changes nothing; an id is taken
and the proposal fails; or the entry is committed and node `k` has applied it, with or without success. -/
inductive Submitted (c : Ensemble σ n) (k : Fin n) : List Job → Ensemble σ n → Prop
  | duplicate : Submitted c k [] c
  | failed {c' : Ensemble σ n} : c'.nextJobID = Function.update c.nextJobID k (c.nextJobID k + 1) →
      c'.cluster.log = c.cluster.log → (∀ m, c'.store m = c.store m) → Submitted c k [] c'
  | committed {c' : Ensemble σ n} {j : Job} {js : List Job} : j.id = c.nextJobID k + 1 →
      c'.nextJobID = Function.update c.nextJobID k (c.nextJobID k + 1) → c'.cluster.log = c.cluster.log ++ [.addJob j] →
      (∀ m, c'.store m = if m = k then Cluster.applyCommand ((c.catchUp k).store k) (.addJob j) else c.store m) →
      js = [] ∨ js = [j] → Submitted c k js c'

/-- Raft and the state machine behind `accept`. -/
theorem accept_applied (e : Engine σ) (what : String) (q : QueueRef) (j : Job) :
    (e.accept (some .applied) what q j).2 = e.withStore (Cluster.applyCommand e.scheduler.store (.addJob j)) ∧
      (created ((e.accept (some .applied) what q j).1.map fun j => (j, false)) = [] ∨
        created ((e.accept (some .applied) what q j).1.map fun j => (j, false)) = [j]) := by
  unfold Cluster.applyCommand
  rcases hf : fsmApply e.scheduler.store (.addJob j) with ⟨st, err⟩
  cases err with
  | none =>
    have haccept : e.accept (some .applied) what q j = (.ok j, e.withStore st) := by
      simp only [Engine.accept, propose, hf]
    rw [haccept]
    exact ⟨rfl, .inr rfl⟩
  | some err =>
    have haccept : e.accept (some .applied) what q j =
        (.error s!"raft propose {what} failed: {err}", e.withStore st) := by simp only [Engine.accept, propose, hf]
    rw [haccept]
    exact ⟨rfl, .inl rfl⟩

theorem create_submitted (c : Ensemble σ n) (k : Fin n) (reply : RaftReply) (what : String) (q : QueueRef)
    {job : Int → Job} (hjob : ∀ id, (job id).id = id) :
    Submitted c k (created (c.create k reply what q job).1) (c.create k reply what q job).2 := by
  cases reply with
  | notLeader _ | failed _ =>
    refine .failed rfl rfl fun m => ?_
    show ((c.withEngine k _).record k _ _).store m = _
    rw [store_record, store_withEngine]
    split
    · rename_i hm; rw [hm]; rfl
    · rfl
  | applied =>
    obtain ⟨hengine, hjs⟩ := accept_applied ((c.catchUp k).engine k).takeID what q (job (c.nextJobID k + 1))
    refine .committed (hjob _) ?_ rfl (fun m => ?_) hjs
    · show Function.update c.nextJobID k (Engine.accept (some .applied) what q (job (c.nextJobID k + 1))
        ((c.catchUp k).engine k).takeID).2.nextJobID = _
      rw [hengine]
      rfl
    · show (((c.catchUp k).withEngine k (Engine.accept (some .applied) what q (job (c.nextJobID k + 1))
        ((c.catchUp k).engine k).takeID).2).record k _ .applied).store m = _
      rw [store_record, store_withEngine, hengine]
      split
      · rfl
      · rename_i hm
        exact store_catchUp_ne c k m hm

theorem submit_submitted (c : Ensemble σ n) (k : Fin n) (reply : RaftReply) (s : Submission) :
    Submitted c k (created (c.submit k reply s).1) (c.submit k reply s).2 := by
  cases s with
  | submitJob jobType priority => exact create_submitted c k reply _ _ fun _ => rfl
  | submitJobAt jobType priority runAt => exact create_submitted c k reply _ _ fun _ => rfl
  | submitJobIdempotent key jobType priority =>
    simp only [submit]
    split
    · exact create_submitted c k reply _ _ fun _ => rfl
    · split
      · exact .duplicate
      · exact create_submitted c k reply _ _ fun _ => rfl

/-- On a node that has applied the whole log, a submission does to the engine what the engine's own does. -/
theorem submit_engine (c : Ensemble σ n) (k : Fin n) (reply : RaftReply)
    (h : (c.cluster.node k).applied = c.cluster.log.length) (s : Submission) :
    (c.submit k reply s).2.engine k = ((c.engine k).step (some reply) s.input).1 := by
  have hcatch : (c.catchUp k).engine k = c.engine k := by
    simp [engine, catchUp, Cluster.withReplica, h, store, Replica.replay]
  have hreach : (c.reach k reply).engine k = c.engine k := by
    cases reply with
    | applied => exact hcatch
    | notLeader _ | failed _ => rfl
  have hput : ∀ (c : Ensemble σ n) (e : Engine σ) (cmd : Command),
      ((c.withEngine k e).record k cmd reply).engine k = e := by
    intro c e cmd
    cases reply with
    | applied | notLeader _ | failed _ => simp [engine, record, withEngine, Cluster.withScheduler]
  have hcreate : ∀ (what : String) (q : QueueRef) (job : Int → Job), (c.create k reply what q job).2.engine k =
      ((c.engine k).takeID.accept (some reply) what q (job (c.nextJobID k + 1))).2 := by
    intro what q job
    unfold create
    dsimp only
    rw [hput, hreach]
    rfl
  cases s with
  | submitJob jobType priority => exact hcreate _ _ _
  | submitJobAt jobType priority runAt => exact hcreate _ _ _
  | submitJobIdempotent key jobType priority =>
    simp only [submit, Submission.input, Engine.step, Engine.submitJobIdempotent]
    split
    · exact hcreate _ _ _
    · cases hfind : Store.findByIdempotencyKey (c.store k) key with
      | some existing =>
        rw [show Store.findByIdempotencyKey (c.engine k).scheduler.store key = some existing from hfind]
      | none =>
        rw [show Store.findByIdempotencyKey (c.engine k).scheduler.store key = none from hfind]
        exact hcreate _ _ _

/-! ## Runs -/

/-- `Restore` counts up to the largest stored id. -/
theorem restored_covered [Store.ListsAll σ] {st : σ} (hk : Store.Keyed st) (log : List Command)
    (available : Chan WorkerClient) (broker : Option Broker) (ord ord₁ ord₂ : RangeOrder Int) :
    Covered log (restored st available broker ord ord₁ ord₂).nextJobID
      (restored st available broker ord ord₁ ord₂).scheduler.store := by
  have hstore : (restored st available broker ord ord₁ ord₂).scheduler.store = st :=
    Scheduler.rebuildQueuesFromStore_store (Engine.new st available broker).scheduler ord₁ ord₂
  rw [hstore]
  refine ⟨hk, fun id hid => .inl ?_⟩
  obtain ⟨j, hj⟩ := Option.ne_none_iff_exists'.1 hid
  have hle := (Engine.le_foldl_maxID (Store.list ord st) 0).2 j (Store.ListsAll.mem_list ord st id j hj)
  rw [hk id j hj] at hle
  exact hle

/-- What the runs keep. -/
structure Tracks (tr : List Job) (c : Ensemble σ n) : Prop where
  covered : ∀ k, Covered c.cluster.log (c.nextJobID k) (c.store k)
  logged : ∀ j ∈ tr, j.id ∈ added c.cluster.log
  distinct : (tr.map Job.id).Nodup

/-- The replicas and schedulers rewrite what is stored and apply entries of the log. -/
theorem cluster_covered {c : Cluster σ n} {next : Fin n → Int}
    (h : ∀ k, Covered c.log (next k) (c.node k).scheduler.store) (i : Cluster.Input n) :
    (∀ cmd ∈ c.log, cmd ∈ (c.step i).1.log) ∧
      ∀ k, Covered (c.step i).1.log (next k) ((c.step i).1.node k).scheduler.store := by
  have hkeep : ∀ (k : Fin n) {s : Scheduler σ}, Covered c.log (next k) s.store → ∀ m,
      Covered c.log (next m) ((c.withScheduler k s).node m).scheduler.store := by
    intro k s hs m
    rw [store_withScheduler]
    split
    · rename_i hm; rw [hm]; exact hs
    · exact h m
  cases i with
  | commit cmd =>
    refine ⟨fun x hx => List.mem_append_left _ hx, fun k => ?_⟩
    exact (h k).mono (fun x hx => List.mem_append_left _ hx) (Int.le_refl _)
  | apply k =>
    refine ⟨fun x hx => hx, fun m => ?_⟩
    have hm : ((c.step (.apply k)).1.node m).scheduler.store =
        (if m = k then (c.replica k).advance Cluster.applyCommand c.log else c.replica m).state :=
      congrArg Replica.state (Cluster.replica_withReplica c k m _)
    rw [hm]
    split
    · rename_i heq
      rw [heq]
      unfold Replica.advance
      split
      · rename_i cmd hcmd
        exact (h k).apply (List.mem_of_getElem? hcmd)
      · exact h k
    · exact h m
  | claim k ord₁ ord₂ =>
    refine ⟨fun x hx => hx, hkeep k ?_⟩
    rw [Scheduler.rebuildQueuesFromStore_store]
    exact h k
  | stepDown k => exact ⟨fun x hx => hx, hkeep k (h k)⟩
  | round k r => exact ⟨fun x hx => hx, hkeep k ((h k).rewrites (Scheduler.round_rewrites _ r))⟩
  | runner k j err =>
    exact ⟨fun x hx => hx, hkeep k ((h k).rewrites (Store.Rewrites.refl.tryUpdate (Runner.finish j err)))⟩

theorem catchUp_covered {c : Ensemble σ n} {k : Fin n} (h : Covered c.cluster.log (c.nextJobID k) (c.store k)) :
    Covered c.cluster.log (c.nextJobID k) ((c.catchUp k).store k) := by
  have hstore : (c.catchUp k).store k =
      Replica.replay Cluster.applyCommand (c.store k) (c.cluster.log.drop (c.cluster.node k).applied) := by
    simp [store, catchUp, Cluster.withReplica]
  rw [hstore]
  exact h.replay _ fun cmd hcmd => List.mem_of_mem_drop hcmd

/-- A job created by a node that has counted up to the log has an id that no node has seen. -/
theorem Tracks.fresh {tr : List Job} {c : Ensemble σ n} (h : Tracks tr c) {k : Fin n}
    (hcount : ∀ id ∈ added c.cluster.log, id ≤ c.nextJobID k) :
    c.nextJobID k + 1 ∉ tr.map Job.id ∧ Store.get ((c.catchUp k).store k) (c.nextJobID k + 1) = none := by
  constructor
  · intro hin
    obtain ⟨j, hj, hid⟩ := List.mem_map.1 hin
    have hle := hcount j.id (h.logged j hj)
    omega
  · by_contra hsome
    rcases (catchUp_covered (h.covered k)).ids _ hsome with hle | hin
    · omega
    · have hle := hcount _ hin
      omega

theorem Tracks.submit {tr : List Job} {c c' : Ensemble σ n} (h : Tracks tr c) {k : Fin n} {js : List Job}
    (hs : Submitted c k js c') (hcount : js ≠ [] → ∀ id ∈ added c.cluster.log, id ≤ c.nextJobID k) :
    Tracks (tr ++ js) c' ∧ ∀ j ∈ js, Store.get ((c.catchUp k).store k) j.id = none := by
  have hnext : ∀ {c' : Ensemble σ n}, c'.nextJobID = Function.update c.nextJobID k (c.nextJobID k + 1) →
      ∀ m, c.nextJobID m ≤ c'.nextJobID m := by
    intro c' heq m
    rw [heq]
    by_cases hm : m = k
    · subst hm
      rw [Function.update_self]
      omega
    · simp [hm]
  cases hs with
  | duplicate => exact ⟨by rw [List.append_nil]; exact h, fun j hj => by cases hj⟩
  | failed hcounter hlog hstore =>
    refine ⟨⟨fun m => ?_, ?_, ?_⟩, fun j hj => by cases hj⟩
    · rw [hlog, hstore]
      exact (h.covered m).mono (fun _ hx => hx) (hnext hcounter m)
    · rw [hlog, List.append_nil]; exact h.logged
    · rw [List.append_nil]; exact h.distinct
  | @committed c' j js hid hcounter hlog hstore hjs =>
    have hgrow : ∀ cmd ∈ c.cluster.log, cmd ∈ c'.cluster.log := fun cmd hcmd => by
      rw [hlog]; exact List.mem_append_left _ hcmd
    have hentry : Command.addJob j ∈ c'.cluster.log := by rw [hlog]; simp
    have hadded : j.id ∈ added c'.cluster.log := mem_added.2 ⟨.addJob j, hentry, rfl, rfl⟩
    have hlogged : ∀ x ∈ tr, x.id ∈ added c'.cluster.log := fun x hx => added_mono hgrow (h.logged x hx)
    have hcovered : ∀ m, Covered c'.cluster.log (c'.nextJobID m) (c'.store m) := by
      intro m
      rw [hstore]
      split
      · rename_i hm
        subst hm
        exact ((catchUp_covered (h.covered m)).mono hgrow (hnext hcounter m)).apply hentry
      · exact (h.covered m).mono hgrow (hnext hcounter m)
    rcases hjs with rfl | rfl
    · refine ⟨⟨hcovered, ?_, ?_⟩, fun j hj => by cases hj⟩
      · rw [List.append_nil]; exact hlogged
      · rw [List.append_nil]; exact h.distinct
    · obtain ⟨hnew, hnone⟩ := h.fresh (hcount (List.cons_ne_nil j []))
      rw [← hid] at hnew hnone
      refine ⟨⟨hcovered, fun x hx => ?_, ?_⟩, fun x hx => ?_⟩
      · rcases List.mem_append.1 hx with hx | hx
        · exact hlogged x hx
        · cases List.mem_singleton.1 hx; exact hadded
      · rw [List.map_append, List.nodup_append]
        refine ⟨h.distinct, List.nodup_singleton _, fun a ha b hb hab => ?_⟩
        cases List.mem_singleton.1 hb
        exact hnew (hab ▸ ha)
      · cases List.mem_singleton.1 hx; exact hnone

theorem Tracks.restart [Store.ListsAll σ] {tr : List Job} {c : Ensemble σ n} (h : Tracks tr c) (k : Fin n) (keep : Bool)
    (replayed : Nat) (available : Chan WorkerClient) (broker : Option Broker) (ord ord₁ ord₂ : RangeOrder Int) :
    Tracks tr (c.restart k keep replayed available broker ord ord₁ ord₂) := by
  have hbase : Covered c.cluster.log (c.nextJobID k) (if keep then c.store k else Store.empty) := by
    split
    · exact h.covered k
    · refine ⟨Store.keyed_of_wf LawfulStore.wf_empty, fun id hid => ?_⟩
      exact absurd (LawfulStore.get_empty id) hid
  have hk := (hbase.replay (c.cluster.log.take replayed) fun cmd hcmd => List.mem_of_mem_take hcmd).keyed
  have hrestored := restored_covered hk c.cluster.log available broker ord ord₁ ord₂
  refine ⟨fun m => ?_, h.logged, h.distinct⟩
  by_cases hm : m = k
  · subst hm
    simpa [Ensemble.restart, store] using hrestored
  · simpa [Ensemble.restart, store, hm] using h.covered m

theorem Tracks.step [Store.ListsAll σ] {tr : List Job} {c : Ensemble σ n} (h : Tracks tr c) {i : Input n}
    (hi : c.CountedUp i) : Tracks (tr ++ (c.step i).2) (c.step i).1 ∧ ¬ c.Overwrites i := by
  cases i with
  | cluster i =>
    obtain ⟨hgrow, hcovered⟩ := cluster_covered h.covered i
    rw [show tr ++ (c.step (.cluster i)).2 = tr from List.append_nil tr]
    exact ⟨⟨hcovered, fun j hj => added_mono hgrow (h.logged j hj), h.distinct⟩, fun h => h⟩
  | submit k reply s =>
    obtain ⟨htracks, hnone⟩ := h.submit (submit_submitted c k reply s) hi
    refine ⟨htracks, ?_⟩
    rintro ⟨j, hj, hsome⟩
    exact hsome (hnone j hj)
  | restart k keep replayed available broker ord ord₁ ord₂ =>
    refine ⟨?_, fun h => h⟩
    rw [show tr ++ (c.step (.restart k keep replayed available broker ord ord₁ ord₂)).2 = tr from List.append_nil tr]
    exact h.restart k keep replayed available broker ord ord₁ ord₂

/-- `n` nodes that have started on empty stores. -/
def fresh (n : Nat) (σ : Type) [Store σ] : Ensemble σ n :=
  let e := restored (Store.empty : σ) (Chan.make 1) none .stored .stored .stored
  ⟨⟨[], fun _ => ⟨e.scheduler, 0⟩⟩, fun _ => e.nextJobID⟩

theorem fresh_starts (n : Nat) : (fresh n σ).Starts fun _ => Store.empty :=
  ⟨rfl, fun _ => ⟨_, _, _, _, _, rfl⟩⟩

end Ensemble

end Quorum
