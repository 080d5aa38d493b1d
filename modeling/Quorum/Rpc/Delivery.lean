/-
The way of a job to a worker node and of its result back (`internal/runner`, `cmd/worker/main.go`,
`internal/rpc/server`), around the control node. The runner drops a result when the node's channel is full, and the
forwarder loses it when the call of `ReportResult` fails; `Carried` says that an execution of a job, or a result of it,
is somewhere on this way.
-/
import Quorum.Rpc.Fleet
import Quorum.Rpc.Pool

namespace Quorum

/-! ## The worker node -/

namespace WorkerNode

/-- The jobs the node executes or has a result of that it has not handed over. -/
def jobs (n : WorkerNode) : List Int :=
  n.executing.map Job.id ++ n.results.buf.map Result.jobID ++ n.reporting.toList.map Result.jobID

/-- `ExecutionServer.SubmitJob`. -/
def submitJob (n : WorkerNode) (req : SubmitJobRequest) : WorkerNode :=
  { n with executing := n.executing ++ [Rpc.receivedJob req] }

/-- The runner returns and sends its result, if there is room for it. -/
def finish (n : WorkerNode) (i : Nat) (err : Option ExecError) : WorkerNode :=
  match n.executing[i]? with
  | some j => { n with executing := n.executing.eraseIdx i, results := n.results.trySend (Runner.result j err) }
  | none => n

/-- The forwarder takes the next result and calls `ReportResult`. -/
def forward (n : WorkerNode) : WorkerNode :=
  match n.reporting, n.results.tryRecv with
  | none, some (r, ch) => { n with results := ch, reporting := some r }
  | _, _ => n

end WorkerNode

/-- The control node and the worker nodes, each known by the id it registers with. -/
structure Delivery (σ : Type) where
  control : Fleet σ
  node : Int → WorkerNode

namespace Delivery

/-! ## The steps -/

inductive Act where
  /-- A step of the control node alone. -/
  | control (a : Fleet.Act)
  /-- A round of `dispatchLoop`; `rpc` is how the call of `SubmitJob` ends. -/
  | dispatchLoop (now : Time) (rpc : WorkerClient → Job → RpcOutcome)
  | finish (id : Int) (i : Nat) (err : Option ExecError)
  | forward (id : Int)
  /-- The call of `ReportResult` goes on: it fails, or the handler sends the result if there is room. -/
  | reportResult (id : Int) (failed : Bool)
  | claim (ord₁ ord₂ : RangeOrder Int)
  | stepDown

/-- The steps of the control node in which no worker node takes part. -/
def isLocal : Fleet.Act → Bool
  | .dispatchLoop _ _ | .reportResult _ _ _ | .executionLost _ _ => false
  | _ => true

section
variable {σ : Type} [Store σ]

def setNode (s : Delivery σ) (id : Int) (n : WorkerNode) : Delivery σ := { s with node := Function.update s.node id n }

/-- The node executes a job that it has received, whatever becomes of the answer. -/
def receive (rpc : WorkerClient → Job → RpcOutcome) (s : Delivery σ) (g : Grant) : Delivery σ :=
  let w : WorkerClient := ⟨g.lease.workerID⟩
  if (rpc w g.job).received then s.setNode w.id ((s.node w.id).submitJob (Rpc.submitRequest w g.job).decoded) else s

/-- `ReportResult` with the result of node `id`; while there is no room the call waits. -/
def reportResult (s : Delivery σ) (id : Int) (failed : Bool) : Delivery σ :=
  match (s.node id).reporting with
  | none => s
  | some r =>
    let req := (Rpc.reportRequest ⟨id⟩ r).decoded
    let reported := s.setNode id { s.node id with reporting := none }
    if failed then reported
    else if s.control.delivers false then
      { reported with control := s.control.reportResult req.workerId (Rpc.reportedResult req) false }
    else s

def step (timeout : Duration) (s : Delivery σ) : Act → Delivery σ × List Grant
  | .control a => if isLocal a then ({ s with control := (s.control.step timeout a).1 }, []) else (s, [])
  | .dispatchLoop now rpc =>
    let p := s.control.step timeout (.dispatchLoop now fun w j => (rpc w j).error)
    (p.2.foldl (receive rpc) { s with control := p.1 }, p.2)
  | .finish id i err => (s.setNode id ((s.node id).finish i err), [])
  | .forward id => (s.setNode id (s.node id).forward, [])
  | .reportResult id failed => (s.reportResult id failed, [])
  | .claim ord₁ ord₂ => ({ s with control := { s.control with engine := s.control.engine.rebuild ord₁ ord₂ } }, [])
  | .stepDown => ({ s with control := { s.control with engine := s.control.engine.stepDown } }, [])

end

end Delivery

def delivery {σ : Type} [Store σ] (timeout : Duration) : Machine (Delivery σ) Delivery.Act Grant :=
  ⟨Delivery.step timeout⟩

/-! ## What a worker node carries -/

namespace WorkerNode

variable {n : WorkerNode} {id : Int}

theorem mem_jobs : id ∈ n.jobs ↔
    (∃ j ∈ n.executing, j.id = id) ∨ (∃ r ∈ n.results.buf, r.jobID = id) ∨
      ∃ r, n.reporting = some r ∧ r.jobID = id := by
  simp only [jobs, List.mem_append, List.mem_map, Option.mem_toList, or_assoc]

theorem mem_jobs_submitJob (req : SubmitJobRequest) (h : id ∈ n.jobs ∨ id = req.id) : id ∈ (n.submitJob req).jobs := by
  rw [mem_jobs] at h ⊢
  rcases h with (⟨j, hj, hid⟩ | hrest) | hid
  · exact .inl ⟨j, List.mem_append_left _ hj, hid⟩
  · exact .inr hrest
  · exact .inl ⟨Rpc.receivedJob req, List.mem_append_right _ (List.mem_singleton_self _), hid.symm⟩

/-- A runner that returns turns the execution into a result, unless there is no room for it. -/
theorem mem_jobs_finish (i : Nat) (err : Option ExecError) (h : id ∈ n.jobs) :
    id ∈ (n.finish i err).jobs ∨
      ¬ n.results.buf.length < n.results.cap ∧ ∃ j, n.executing[i]? = some j ∧ j.id = id := by
  unfold finish
  split
  · rename_i j hj
    rw [mem_jobs] at h ⊢
    dsimp only
    rcases h with ⟨k, hk, hid⟩ | ⟨r, hr, hid⟩ | hrep
    · obtain ⟨hi, hget⟩ := List.getElem?_eq_some_iff.1 hj
      rcases List.mem_cons.1 ((List.getElem_cons_eraseIdx_perm hi).mem_iff.2 hk) with heq | hrest
      · rw [hget] at heq
        subst heq
        rw [Chan.buf_trySend]
        by_cases hroom : n.results.buf.length < n.results.cap
        · rw [if_pos hroom]
          refine .inl (.inr (.inl ⟨_, List.mem_append_right _ (List.mem_singleton_self _), ?_⟩))
          exact (Rpc.survives_result k err).jobID.trans hid
        · exact .inr ⟨hroom, k, hj, hid⟩
      · exact .inl (.inl ⟨k, hrest, hid⟩)
    · refine .inl (.inr (.inl ⟨r, ?_, hid⟩))
      rw [Chan.buf_trySend]
      split
      · exact List.mem_append_left _ hr
      · exact hr
    · exact .inl (.inr (.inr hrep))
  · exact .inl h

theorem mem_jobs_forward (h : id ∈ n.jobs) : id ∈ n.forward.jobs := by
  unfold forward
  split
  · rename_i r ch hnone hrecv
    rw [mem_jobs] at h ⊢
    rw [Chan.tryRecv_eq_some hrecv, hnone] at h
    rcases h with hexec | ⟨k, hk, hid⟩ | ⟨k, hk, -⟩
    · exact .inl hexec
    · rcases List.mem_cons.1 hk with rfl | hrest
      · exact .inr (.inr ⟨k, rfl, hid⟩)
      · exact .inr (.inl ⟨k, hrest, hid⟩)
    · cases hk
  · exact h

theorem jobs_eq_nil : n.jobs = [] ↔ n.executing = [] ∧ n.results.buf = [] ∧ n.reporting = none := by
  simp only [jobs, List.append_eq_nil_iff, List.map_eq_nil_iff, Option.toList_eq_nil_iff, and_assoc]

theorem finish_of_nil (h : n.jobs = []) (i : Nat) (err : Option ExecError) : n.finish i err = n := by
  unfold finish
  rw [(jobs_eq_nil.1 h).1]
  rfl

theorem forward_of_nil (h : n.jobs = []) : n.forward = n := by
  obtain ⟨-, hbuf, hrep⟩ := jobs_eq_nil.1 h
  unfold forward
  rw [hrep, Chan.tryRecv_eq_none.2 hbuf]

/-- A result that finds no room takes one occurrence of its job off the node. -/
theorem count_jobs_finish {i : Nat} {j : Job} (err : Option ExecError) (hj : n.executing[i]? = some j)
    (hfull : ¬ n.results.buf.length < n.results.cap) : (n.finish i err).jobs.count j.id + 1 = n.jobs.count j.id := by
  obtain ⟨hi, rfl⟩ := List.getElem?_eq_some_iff.1 hj
  have hexec := ((List.getElem_cons_eraseIdx_perm hi).map Job.id).count_eq n.executing[i].id
  rw [List.map_cons, List.count_cons_self] at hexec
  have hsame : (n.results.trySend (Runner.result n.executing[i] err)).buf = n.results.buf := by
    rw [Chan.buf_trySend, if_neg hfull]
  simp only [finish, hj, jobs, hsame, List.count_append]
  omega

theorem count_jobs_reported {r : Result} (hrep : n.reporting = some r) :
    ({ n with reporting := none } : WorkerNode).jobs.count r.jobID + 1 = n.jobs.count r.jobID := by
  simp only [jobs, hrep, List.count_append, Option.toList_some, Option.toList_none, List.map_cons, List.map_nil,
    List.count_singleton_self, List.count_nil, Nat.add_zero, Nat.add_assoc]

end WorkerNode

/-! ## The nodes of `Pool` -/

namespace Pool

/-- The nodes behind the channel `Available` take the same steps. -/
theorem step_node (s : Pool) (id : Int) (i : Nat) (err : Option ExecError) :
    (s.step (.nodeFinish id i err)).1 = s.setNode id ((s.node id).finish i err) ∧
      (s.step (.forward id)).1 = s.setNode id (s.node id).forward := by
  have hself : s.setNode id (s.node id) = s := by unfold setNode; rw [Function.update_eq_self]
  constructor
  · cases hexec : (s.node id).executing[i]? with
    | none =>
      simp only [step, WorkerNode.finish, hexec]
      exact hself.symm
    | some j => simp only [step, WorkerNode.finish, hexec]
  · cases hrep : (s.node id).reporting with
    | some r =>
      simp only [step, WorkerNode.forward, hrep]
      exact hself.symm
    | none =>
      cases hrecv : (s.node id).results.tryRecv with
      | none =>
        simp only [step, WorkerNode.forward, hrep, hrecv]
        exact hself.symm
      | some p => simp only [step, WorkerNode.forward, hrep, hrecv]

end Pool

/-! ## What is on its way -/

namespace Delivery

variable {σ : Type} {s : Delivery σ} {id : Int}

/-- An execution of the job is outstanding, or a result of it is at a worker node, in transit or in `Results`. -/
def Carried (s : Delivery σ) (id : Int) : Prop :=
  (∃ w, id ∈ (s.node w).jobs) ∨ ∃ r ∈ s.control.results.buf, r.jobID = id

/-- Another node than `w` executes the job or has a result of it, or a result of it is in `Results`. -/
def CarriedElsewhere (s : Delivery σ) (w id : Int) : Prop :=
  (∃ k, k ≠ w ∧ id ∈ (s.node k).jobs) ∨ ∃ r ∈ s.control.results.buf, r.jobID = id

theorem carried_iff (w : Int) : s.Carried id ↔ id ∈ (s.node w).jobs ∨ s.CarriedElsewhere w id := by
  constructor
  · rintro (⟨k, hk⟩ | hres)
    · by_cases hkw : k = w
      · subst hkw
        exact .inl hk
      · exact .inr (.inl ⟨k, hkw, hk⟩)
    · exact .inr (.inr hres)
  · rintro (hown | ⟨k, -, hk⟩ | hres)
    · exact .inl ⟨w, hown⟩
    · exact .inl ⟨k, hk⟩
    · exact .inr hres

/-- A change of one node does not touch what is carried elsewhere. -/
theorem setNode_carried (w : Int) (n : WorkerNode) :
    (s.setNode w n).Carried id ↔ id ∈ n.jobs ∨ s.CarriedElsewhere w id := by
  have hnode : ∀ k, k ≠ w → (s.setNode w n).node k = s.node k := fun k hk => Function.update_of_ne hk _ _
  have helse : (s.setNode w n).CarriedElsewhere w id ↔ s.CarriedElsewhere w id := by
    refine or_congr_left (exists_congr fun k => and_congr_right fun hk => ?_)
    rw [hnode k hk]
  rw [carried_iff w, helse, show (s.setNode w n).node w = n from Function.update_self _ _ _]

/-- Node `w` has the job more than once, or it is carried elsewhere. -/
def CarriedTwice (s : Delivery σ) (w id : Int) : Prop := 1 < (s.node w).jobs.count id ∨ s.CarriedElsewhere w id

/-- What is left of a job after a node has lost one occurrence of it. -/
theorem setNode_carried_iff {w : Int} {n : WorkerNode} (h : n.jobs.count id + 1 = (s.node w).jobs.count id) :
    (s.setNode w n).Carried id ↔ s.CarriedTwice w id := by
  have hin : id ∈ n.jobs ↔ 1 < (s.node w).jobs.count id := by
    rw [← List.count_pos_iff]
    omega
  rw [setNode_carried, hin]
  rfl

theorem carried_setNode {w : Int} {n : WorkerNode} (h : id ∈ n.jobs) : (s.setNode w n).Carried id :=
  (setNode_carried w n).2 (.inl h)

theorem Carried.setNode (h : s.Carried id) (w : Int) (n : WorkerNode) :
    (s.setNode w n).Carried id ∨ id ∈ (s.node w).jobs := by
  rcases (carried_iff w).1 h with hown | helse
  · exact .inr hown
  · exact .inl ((setNode_carried w n).2 (.inr helse))

theorem Carried.setNode_of_imp (h : s.Carried id) {w : Int} {n : WorkerNode} (hn : id ∈ (s.node w).jobs → id ∈ n.jobs) :
    (s.setNode w n).Carried id := by
  rcases h.setNode w n with hother | hown
  · exact hother
  · exact carried_setNode (hn hown)

theorem receive_control (rpc : WorkerClient → Job → RpcOutcome) (s : Delivery σ) (g : Grant) :
    (s.receive rpc g).control = s.control := by
  unfold receive
  dsimp only
  split <;> rfl

theorem Carried.receive (h : s.Carried id) (rpc : WorkerClient → Job → RpcOutcome) (g : Grant) :
    (s.receive rpc g).Carried id := by
  unfold Delivery.receive
  dsimp only
  split
  · exact h.setNode_of_imp fun hin => WorkerNode.mem_jobs_submitJob _ (.inl hin)
  · exact h

/-- The nodes keep what they carry and execute what they have received. -/
theorem foldl_receive (rpc : WorkerClient → Job → RpcOutcome) (gs : List Grant) (s : Delivery σ) :
    (gs.foldl (receive rpc) s).control = s.control ∧ (∀ id, s.Carried id → (gs.foldl (receive rpc) s).Carried id) ∧
      ∀ g ∈ gs, (rpc ⟨g.lease.workerID⟩ g.job).received = true → (gs.foldl (receive rpc) s).Carried g.job.id := by
  induction gs generalizing s with
  | nil => exact ⟨rfl, fun _ h => h, fun _ hg => absurd hg List.not_mem_nil⟩
  | cons g gs ih =>
    obtain ⟨hcontrol, hkeep, hnew⟩ := ih (s.receive rpc g)
    refine ⟨hcontrol.trans (receive_control rpc s g), fun id h => hkeep id (h.receive rpc g), fun k hk hrec => ?_⟩
    rcases List.mem_cons.1 hk with rfl | hrest
    · refine hkeep _ ?_
      unfold receive
      dsimp only
      rw [if_pos hrec]
      exact carried_setNode (WorkerNode.mem_jobs_submitJob _ (.inr rfl))
    · exact hnew k hrest hrec

/-- Without the result it reports a node carries what it carried, apart from that result's job. -/
theorem Carried.reported (h : s.Carried id) {w : Int} {r : Result} (hrep : (s.node w).reporting = some r) :
    (s.setNode w { s.node w with reporting := none }).Carried id ∨ r.jobID = id := by
  rcases h.setNode w { s.node w with reporting := none } with hother | hown
  · exact .inl hother
  · rcases WorkerNode.mem_jobs.1 hown with hexec | hres | ⟨k, hk, hid⟩
    · exact .inl (carried_setNode (WorkerNode.mem_jobs.2 (.inl hexec)))
    · exact .inl (carried_setNode (WorkerNode.mem_jobs.2 (.inr (.inl hres))))
    · rw [hrep] at hk
      cases hk
      exact .inr hid

theorem reportResult_failed {w : Int} {r : Result} (hrep : (s.node w).reporting = some r) :
    s.reportResult w true = s.setNode w { s.node w with reporting := none } := by
  unfold reportResult
  rw [hrep]
  rfl

theorem reportResult_delivered {w : Int} {r : Result} (hrep : (s.node w).reporting = some r)
    (hroom : s.control.delivers false = true) :
    s.reportResult w false = { s.setNode w { s.node w with reporting := none } with
      control := s.control.reportResult (Rpc.reportRequest ⟨w⟩ r).decoded.workerId
        (Rpc.reportedResult (Rpc.reportRequest ⟨w⟩ r).decoded) false } := by
  unfold reportResult
  rw [hrep]
  dsimp only
  rw [if_neg nofun, if_pos hroom]

theorem reportResult_waits {w : Int} {r : Result} (hrep : (s.node w).reporting = some r)
    (hroom : ¬ s.control.delivers false = true) : s.reportResult w false = s := by
  unfold reportResult
  rw [hrep]
  dsimp only
  rw [if_neg nofun, if_neg hroom]

end Delivery

end Quorum
