/-
A cluster: nodes that apply one committed log through `FSM.Apply`, and whose schedulers may run. Replicas
agree as long as nothing else writes a node's store. `resultLoop`, `ProcessDelayedJobs` and the runners of
local workers do write it, past the log, for every completion, failure, retry and promotion they record.
-/
import Quorum.Consensus.Fsm
import Quorum.Lib.Machine
import Quorum.Lib.ReplicatedLog
import Quorum.Scheduler.Refine
import Quorum.Store.Memory
import Quorum.Worker.Runner

namespace Quorum

structure Node (σ : Type) where
  scheduler : Scheduler σ
  applied : Nat

structure Cluster (σ : Type) (n : Nat) where
  log : List Command
  node : Fin n → Node σ

namespace Cluster

variable {σ : Type} {n : Nat}

/-- What happens in a cluster: a proposal is committed, node `k` applies its next entry, or something
happens on node `k` alone: a leadership claim or loss, a round of its scheduler, or the end of a job on one
of its own workers, whose runner shares the node's store. -/
inductive Input (n : Nat) where
  | commit (cmd : Command)
  | apply (k : Fin n)
  | claim (k : Fin n) (ord₁ ord₂ : RangeOrder Int)
  | stepDown (k : Fin n)
  | round (k : Fin n) (r : Scheduler.Round)
  | runner (k : Fin n) (j : Job) (err : Option ExecError)

/-- The store and the applied index of a node. -/
def replica (c : Cluster σ n) (k : Fin n) : Replica σ := ⟨(c.node k).scheduler.store, (c.node k).applied⟩

def withScheduler (c : Cluster σ n) (k : Fin n) (s : Scheduler σ) : Cluster σ n :=
  { c with node := Function.update c.node k ⟨s, (c.node k).applied⟩ }

/-- Node `k` takes over what its replica has become. -/
def withReplica (c : Cluster σ n) (k : Fin n) (r : Replica σ) : Cluster σ n :=
  { c with node := Function.update c.node k ⟨{ (c.node k).scheduler with store := r.state }, r.applied⟩ }

theorem replica_withReplica (c : Cluster σ n) (k m : Fin n) (r : Replica σ) :
    (c.withReplica k r).replica m = if m = k then r else c.replica m := by
  unfold replica withReplica
  by_cases hm : m = k
  · subst hm; simp
  · simp [hm]

theorem replica_withScheduler (c : Cluster σ n) (k m : Fin n) {s : Scheduler σ}
    (hs : s.store = (c.node k).scheduler.store) : (c.withScheduler k s).replica m = c.replica m := by
  unfold replica withScheduler
  by_cases hm : m = k
  · subst hm; simp [hs]
  · simp [hm]

variable [Store σ]

/-- `FSM.Apply` as a transition of the store. -/
def applyCommand (st : σ) (cmd : Command) : σ := (fsmApply st cmd).1

def step (c : Cluster σ n) : Input n → Cluster σ n × List Grant
  | .commit cmd => ({ c with log := c.log ++ [cmd] }, [])
  | .apply k => (c.withReplica k ((c.replica k).advance applyCommand c.log), [])
  | .claim k ord₁ ord₂ => (c.withScheduler k ((c.node k).scheduler.rebuildQueuesFromStore ord₁ ord₂).1, [])
  | .stepDown k => (c.withScheduler k (c.node k).scheduler.clearLeases, [])
  | .round k r => (c.withScheduler k ((c.node k).scheduler.round r).1, ((c.node k).scheduler.round r).2)
  | .runner k j err => (c.withScheduler k ((c.node k).scheduler.tryUpdate (Runner.finish j err)), [])

def machine : Machine (Cluster σ n) (Input n) Grant := ⟨step⟩

/-- Nothing is committed and every node starts on the store `st`. -/
def Starts (c : Cluster σ n) (st : σ) : Prop := c.log = [] ∧ ∀ k, c.replica k = ⟨st, 0⟩

end Cluster

/-- The round writes the store: a result is accepted for a stored job, and its success may complete the
job, or its failure may schedule a retry or is final; or a due job may be promoted. -/
def Scheduler.WritesStore {σ : Type} [Store σ] (s : Scheduler σ) : Scheduler.Round → Prop
  | .resultLoop _ r => ∃ j, Store.get s.store r.jobID = some j ∧ s.isStale r = false ∧
      (r.success = true → isValidTransition j.status .completed = true) ∧
      (r.success = false → shouldRetry j = true → isValidTransition j.status .scheduled = true)
  | .processDelayedJobs now => ∃ id j, s.delayQueue.peek = some id ∧ Store.get s.store id = some j ∧
      j.nextRunAt ≤ now ∧ isValidTransition j.status .pending = true
  | _ => False

/-- The input writes a node's store past the log. -/
def Cluster.BypassesLog {σ : Type} [Store σ] {n : Nat} (c : Cluster σ n) : Cluster.Input n → Prop
  | .round k r => (c.node k).scheduler.WritesStore r
  | .runner k j err => ∃ e, Store.get (c.node k).scheduler.store j.id = some e ∧
      isValidTransition e.status (Runner.finish j err).status = true
  | _ => False

/-! ## Rounds that leave the store alone -/

namespace Scheduler

variable {σ : Type} [LawfulStore σ]

@[simp] theorem enqueueJob_store (s : Scheduler σ) (id : Int) (q : QueueRef) : (s.enqueueJob id q).store = s.store := by
  cases q <;> rfl

/-- The store refuses a transition that is not in the table. -/
theorem update_refused {st : σ} (hk : Store.Keyed st) {id : Int} {old j : Job} (hold : Store.get st id = some old)
    (hid : j.id = old.id) (hv : ¬ isValidTransition old.status j.status = true) :
    ∃ e, Store.update st j = .error e := by
  cases hu : Store.update st j with
  | error e => exact ⟨e, rfl⟩
  | ok st' =>
    obtain ⟨e, he, hve⟩ := LawfulStore.update_ok.1 ⟨st', hu⟩
    rw [hid, hk id old hold, hold] at he
    cases he; exact absurd hve hv

theorem tryUpdate_refused {s : Scheduler σ} (hk : Store.Keyed s.store) {id : Int} {old j : Job}
    (hold : Store.get s.store id = some old) (hid : j.id = old.id)
    (hv : ¬ isValidTransition old.status j.status = true) : s.tryUpdate j = s := by
  unfold tryUpdate
  rw [Store.tryUpdate_refused]
  intro e he
  rw [hid, hk id old hold, hold] at he
  cases he; exact hv

theorem resultLoop_store {s : Scheduler σ} (hk : Store.Keyed s.store) {now : Time} {r : Result}
    (h : ¬ s.WritesStore (.resultLoop now r)) : (s.resultLoop now r).store = s.store := by
  unfold resultLoop
  cases hj : Store.get s.store r.jobID with
  | none => rfl
  | some j =>
    dsimp only
    split
    · rfl
    · rename_i hs
      simp only [Bool.not_eq_true] at hs
      have hrel : Store.get (s.release r.jobID).store r.jobID = some j := hj
      have hkr : Store.Keyed (s.release r.jobID).store := hk
      split
      · rename_i hok
        have hv : ¬ isValidTransition j.status .completed = true := fun hv =>
          h ⟨j, hj, hs, fun _ => hv, fun hf => by rw [hok] at hf; cases hf⟩
        rw [tryUpdate_refused (j := { j with status := .completed }) hkr hrel rfl hv]
        rfl
      · rename_i hok
        split
        · rename_i hr
          have hv : ¬ isValidTransition j.status .scheduled = true := fun hv =>
            h ⟨j, hj, hs, fun hs' => absurd hs' hok, fun _ _ => hv⟩
          rw [enqueueJob_store, tryUpdate_refused (j := retryJob now (r.error.getD "") j) hkr hrel rfl hv]
          rfl
        · -- the last failure writes the dead-letter queue whatever the job's status
          rename_i hr
          exact absurd ⟨j, hj, hs, fun hs' => absurd hs' hok, fun _ hr' => absurd hr' hr⟩ h

theorem processDelayedJob_store {s : Scheduler σ} (hk : Store.Keyed s.store) {now : Time}
    (h : ¬ s.WritesStore (.processDelayedJobs now)) : ((s.processDelayedJob now).getD s).store = s.store := by
  unfold processDelayedJob
  cases hp : s.delayQueue.peek with
  | none => rfl
  | some id =>
    dsimp only
    cases hj : Store.get s.store id with
    | none => exact dropDelayed_store s
    | some j =>
      dsimp only
      split
      · rfl
      · rename_i hdue
        have hv : ¬ isValidTransition j.status .pending = true := fun hv =>
          h ⟨id, j, hp, hj, Int.not_lt.1 hdue, hv⟩
        obtain ⟨e, he⟩ := update_refused (j := { j with status := .pending }) hk hj rfl hv
        rw [dropDelayed_store, he]
        exact dropDelayed_store s

theorem round_store {s : Scheduler σ} (hk : Store.Keyed s.store) {r : Round} (h : ¬ s.WritesStore r) :
    (s.round r).1.store = s.store := by
  cases r with
  | workers available broker => rfl
  | dispatchLoop now submit => exact dispatchLoop_store s false now submit
  | resultLoop now r => exact resultLoop_store hk h
  | processDelayedJobs now => exact processDelayedJob_store hk h
  | recoveryLoop workerID ord => exact recoveryLoop_store s ord workerID

theorem rebuildQueuesFromStore_store (s : Scheduler σ) (ord₁ ord₂ : RangeOrder Int) :
    (s.rebuildQueuesFromStore ord₁ ord₂).1.store = s.store := by
  unfold rebuildQueuesFromStore
  split
  · rfl
  · rename_i l _
    have hs := (foldl_enqueue_priority l s).2
    dsimp only
    split
    · exact hs
    · rename_i l' _
      exact ((foldl_enqueue_delay l' _).2).trans hs

end Scheduler

namespace Cluster

variable {σ : Type} {n : Nat} [LawfulStore σ]

/-! ## Agreement -/

theorem applyCommand_keyed (st : σ) (cmd : Command) (h : Store.Keyed st) : Store.Keyed (applyCommand st cmd) := by
  have happ := fsmApply_applied st cmd
  unfold applyCommand
  generalize fsmApply st cmd = p at happ
  cases happ with
  | refused | unknown => exact h
  | addJob _ ha => exact h.put (LawfulStore.get_add ha)
  | updateJob _ hu => exact h.put (LawfulStore.get_update hu)
  | deleteJob => exact h.delete cmd.id
  | cancelJob _ hc => exact h.cancel hc
  | addCronJob _ hc => exact fun id j hj => h id j ((LawfulStore.get_addCron hc id).symm.trans hj)
  | deleteCronJob => exact fun id j hj => h id j ((LawfulStore.get_deleteCron st cmd.cronID id).symm.trans hj)

/-- Every node's store is what its applied entries make of `st`. -/
def InSync (st : σ) (c : Cluster σ n) : Prop := ∀ k, Replica.InSync applyCommand st c.log (c.replica k)

theorem step_inSync {st : σ} (hst : Store.Keyed st) {c : Cluster σ n} (h : InSync st c) {i : Input n}
    (hi : ¬ c.BypassesLog i) : InSync st (c.step i).1 := by
  intro m
  cases i with
  | commit cmd => exact (h m).append cmd
  | apply k =>
    show Replica.InSync applyCommand st c.log ((c.withReplica k _).replica m)
    rw [replica_withReplica]
    split
    · exact (h k).advance
    · exact h m
  | claim k ord₁ ord₂ =>
    show Replica.InSync applyCommand st c.log ((c.withScheduler k _).replica m)
    rw [replica_withScheduler c k m (Scheduler.rebuildQueuesFromStore_store _ ord₁ ord₂)]
    exact h m
  | stepDown k =>
    show Replica.InSync applyCommand st c.log ((c.withScheduler k _).replica m)
    rw [replica_withScheduler c k m (s := (c.node k).scheduler.clearLeases) rfl]
    exact h m
  | round k r =>
    show Replica.InSync applyCommand st c.log ((c.withScheduler k _).replica m)
    -- the node's store is replayed from the log, so its jobs are stored under their ids
    have hk : Store.Keyed (c.node k).scheduler.store := (h k).inv hst applyCommand_keyed
    rw [replica_withScheduler c k m (Scheduler.round_store hk hi)]
    exact h m
  | runner k j err =>
    show Replica.InSync applyCommand st c.log ((c.withScheduler k _).replica m)
    have hsame : Store.tryUpdate (c.node k).scheduler.store (Runner.finish j err) = (c.node k).scheduler.store := by
      refine Store.tryUpdate_refused fun e he hv => hi ⟨e, ?_, hv⟩
      rwa [Runner.finish_id] at he
    rw [replica_withScheduler c k m (s := (c.node k).scheduler.tryUpdate (Runner.finish j err)) hsame]
    exact h m

/-- Replica agreement, in every run in which nothing writes a node's store past the log. -/
theorem replicas_agree (c : Cluster σ n) (st : σ) (hst : Store.Keyed st) (hc : c.Starts st) (is : List (Input n))
    (h : machine.EveryStep (fun _ c i => ¬ c.BypassesLog i) c is) (a b : Fin n)
    (hab : ((machine.exec c is).node a).applied = ((machine.exec c is).node b).applied) :
    ((machine.exec c is).node a).scheduler.store = ((machine.exec c is).node b).scheduler.store := by
  have hsync : InSync st (machine.exec c is) := by
    refine Machine.EveryStep.inv (P := fun _ c => InSync st c) (fun k => ?_)
      (fun _ c i hP hi => step_inSync hst hP hi) h
    rw [hc.2 k]
    exact ⟨Nat.zero_le _, rfl⟩
  exact (hsync a).agree (hsync b) hab

/-- `n` nodes with empty stores. -/
def fresh (n : Nat) (store : σ) (available : Chan WorkerClient) : Cluster σ n :=
  { log := [], node := fun _ => ⟨.new store available none, 0⟩ }

/-- Two nodes apply a job and a cancellation; the first one leads and reads a late result for the job. -/
theorem replicas_agree_cancelled :
    let c := fresh 2 (Store.empty : MemoryStore) (Chan.make 1)
    let is : List (Input 2) := [.commit (.addJob (.newJob 1 "email" 1)), .apply 0, .claim 0 .stored .stored, .apply 1,
      .commit (.cancelJob 1), .apply 1, .apply 0, .round 0 (.resultLoop 9 ⟨1, true, none, 1, by decide⟩)]
    ((machine.exec c is).node 0).scheduler.store = ((machine.exec c is).node 1).scheduler.store := by
  refine replicas_agree _ Store.empty (Store.keyed_of_wf LawfulStore.wf_empty) ⟨rfl, fun _ => rfl⟩ _ ?_ 0 1 rfl
  simp only [Machine.everyStep_cons, Machine.everyStep_nil, BypassesLog, not_false_eq_true, true_and, and_true]
  rintro ⟨j, hj, -, hv, -⟩
  cases hj
  cases hv rfl

/-- Two nodes have applied the same job; the leader dispatches it and reads its result. The stores differ. -/
theorem completed_on_leader_only :
    let c := fresh 2 (Store.empty : MemoryStore) ⟨1, [⟨7⟩], by decide⟩
    let is : List (Input 2) := [.commit (.addJob (.newJob 1 "email" 1)), .apply 0, .apply 1, .claim 0 .stored .stored,
      .round 0 (.dispatchLoop 5 fun _ _ => none), .round 0 (.resultLoop 9 ⟨1, true, none, 1, by decide⟩)]
    ((machine.exec c is).node 0).applied = ((machine.exec c is).node 1).applied ∧
      Store.get ((machine.exec c is).node 0).scheduler.store 1 =
        some { Job.newJob 1 "email" 1 with status := .completed } ∧
      Store.get ((machine.exec c is).node 1).scheduler.store 1 = some (Job.newJob 1 "email" 1) :=
  ⟨rfl, rfl, rfl⟩

end Cluster

end Quorum
