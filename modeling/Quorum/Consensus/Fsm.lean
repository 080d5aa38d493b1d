/-
The replicated state machine (`internal/consensus/fsm.go`) and a proposal to it
(`RaftNode.Propose` in `raft.go`). Commands are taken as decoded; what hashicorp/raft does with a
proposal is the `RaftReply` argument.
-/
import Quorum.Store.Interface

namespace Quorum

/-- `consensus.CommandType`, a string type. -/
inductive CommandType where
  | addJob
  | updateJob
  | deleteJob
  | cancelJob
  | addCronJob
  | deleteCronJob
  | other (name : String)
  deriving DecidableEq, Repr

/-- `consensus.Command`. -/
structure Command where
  type : CommandType
  job : Job
  id : Int
  cron : CronJob
  cronID : String
  deriving DecidableEq, Repr

namespace Command

def zero (type : CommandType) : Command :=
  { type := type, job := .zero, id := 0, cron := ⟨"", "", "", 0, 0⟩, cronID := "" }

/-- The command of `ProposeAddJob`. -/
def addJob (j : Job) : Command := { zero .addJob with job := j }

/-- The command of `ProposeDeleteJob`. -/
def deleteJob (id : Int) : Command := { zero .deleteJob with id := id }

/-- The command of `ProposeCancelJob`. -/
def cancelJob (id : Int) : Command := { zero .cancelJob with id := id }

/-- The command of `ProposeAddCron`. -/
def addCron (c : CronJob) : Command := { zero .addCronJob with cron := c }

/-- The command of `ProposeDeleteCron`. -/
def deleteCron (id : String) : Command := { zero .deleteCronJob with cronID := id }

end Command

section
variable {σ : Type} [Store σ]

/-- `FSM.Apply` on a decoded command: the store afterwards and the error returned as the response. An
unknown command type is logged and answered with `nil`. -/
def fsmApply (st : σ) (cmd : Command) : σ × Option String :=
  match cmd.type with
  | .addJob => orUnchanged st (Store.add st cmd.job)
  | .updateJob => orUnchanged st (Store.update st cmd.job)
  | .deleteJob => ((Store.delete st cmd.id).2, none)
  | .cancelJob => orUnchanged st (Store.cancel st cmd.id)
  | .addCronJob => orUnchanged st (Store.addCron st cmd.cron)
  | .deleteCronJob => ((Store.deleteCron st cmd.cronID).2, none)
  | .other _ => (st, none)

/-- The cases of `FSM.Apply`: it makes the call of the store that the command is for. A call that fails leaves the
store as it is, and so does a type that is not known. -/
inductive Applied (st : σ) (cmd : Command) : σ × Option String → Prop
  | refused (err : String) : Applied st cmd (st, some err)
  | unknown {name : String} (ht : cmd.type = .other name) : Applied st cmd (st, none)
  | addJob {st' : σ} (ht : cmd.type = .addJob) (h : Store.add st cmd.job = .ok st') : Applied st cmd (st', none)
  | updateJob {st' : σ} (ht : cmd.type = .updateJob) (h : Store.update st cmd.job = .ok st') :
      Applied st cmd (st', none)
  | deleteJob (ht : cmd.type = .deleteJob) : Applied st cmd ((Store.delete st cmd.id).2, none)
  | cancelJob {st' : σ} (ht : cmd.type = .cancelJob) (h : Store.cancel st cmd.id = .ok st') : Applied st cmd (st', none)
  | addCronJob {st' : σ} (ht : cmd.type = .addCronJob) (h : Store.addCron st cmd.cron = .ok st') :
      Applied st cmd (st', none)
  | deleteCronJob (ht : cmd.type = .deleteCronJob) : Applied st cmd ((Store.deleteCron st cmd.cronID).2, none)

theorem Applied.of_call {st : σ} {cmd : Command} {r : Except String σ}
    (h : ∀ st', r = .ok st' → Applied st cmd (st', none)) : Applied st cmd (orUnchanged st r) := by
  cases r with
  | error err => exact .refused err
  | ok st' => exact h st' rfl

theorem fsmApply_applied (st : σ) (cmd : Command) : Applied st cmd (fsmApply st cmd) := by
  unfold fsmApply
  cases ht : cmd.type with
  | addJob => exact .of_call fun _ h => .addJob ht h
  | updateJob => exact .of_call fun _ h => .updateJob ht h
  | deleteJob => exact .deleteJob ht
  | cancelJob => exact .of_call fun _ h => .cancelJob ht h
  | addCronJob => exact .of_call fun _ h => .addCronJob ht h
  | deleteCronJob => exact .deleteCronJob ht
  | other name => exact .unknown ht

/-- `FSM.Snapshot`: the jobs that `Persist` writes. -/
def fsmSnapshot (ord : RangeOrder Int) (st : σ) : List Job := Store.list ord st

/-- `FSM.Restore` on a decoded snapshot: the jobs are added to what is there, and the errors of `Add` are dropped. -/
def fsmRestore (st : σ) (jobs : List Job) : σ := jobs.foldl (fun st j => (orUnchanged st (Store.add st j)).1) st

/-- What becomes of a proposal: this node does not lead, raft reports an error, or the entry was
committed and applied on this node. -/
inductive RaftReply where
  | notLeader (leaderAddr : String)
  | failed (err : String)
  | applied

/-- `RaftNode.Propose`: the store afterwards and the error. -/
def propose (reply : RaftReply) (cmd : Command) (st : σ) : σ × Option String :=
  match reply with
  | .notLeader leaderAddr => (st, some s!"not leader, leader is {leaderAddr}")
  | .failed err => (st, some s!"raft apply error: {err}")
  | .applied => fsmApply st cmd

theorem propose_addJob (j : Job) (st : σ) :
    propose .applied (.addJob j) st = orUnchanged st (Store.add st j) := rfl

end

end Quorum
