/-
Which worker a job is submitted to. The broker's tables follow every registration and every eviction, so a registered
worker gets the types it registered for and no other. But the workers in `Available` are not looked at again when they
are evicted or time out, and one that the broker does not know any more passes for a worker of every type: the
routing is right in exactly the runs in which no such worker is the first of `Available` to answer for the next job.
-/
import Quorum.Rpc.Fleet
import Quorum.Store.Memory

namespace Quorum.Fleet

variable {σ : Type}

/-- A job is submitted only to a worker that is registered, alive and registered for its type. -/
def RoutesTo [Store σ] (timeout : Duration) (s : Fleet σ) (a : Act) : Prop :=
  ∀ g ∈ (s.step timeout a).2,
    ∃ info, s.workers.lookup g.lease.workerID = some info ∧ info.alive = true ∧ Handles info.topics g.job.type

/-- When `dispatchLoop` runs, the first worker in `Available` for which `CanHandle` answers true for the job at the
head of `PriorityQueue` is registered and alive. -/
def FirstIsLive [Store σ] (s : Fleet σ) : Act → Prop
  | .dispatchLoop _ _ => ∀ j w, s.scheduler.nextJob = some j → s.scheduler.firstWorker j.type = some w → s.Live w.id
  | _ => True

/-- The broker answers for a registered worker by its topics. -/
def Routed (s : Fleet σ) : Prop :=
  ∃ b, s.scheduler.broker = some b ∧
    ∀ id info, s.workers.lookup id = some info → ∀ jobType, b.canHandle id jobType = true ↔ Handles info.topics jobType

namespace Routed

variable {s : Fleet σ}

/-- A step that leaves the broker alone and registers nobody. -/
theorem of_same {t : Fleet σ} (h : Routed s) (hbroker : t.scheduler.broker = s.scheduler.broker)
    (hworkers : ∀ id info, t.workers.lookup id = some info →
      ∃ info', s.workers.lookup id = some info' ∧ info.topics = info'.topics) :
    Routed t := by
  obtain ⟨b, hb, hcan⟩ := h
  refine ⟨b, hbroker.trans hb, fun id info hid jobType => ?_⟩
  obtain ⟨info', hid', htopics⟩ := hworkers id info hid
  rw [htopics]
  exact hcan id info' hid' jobType

theorem register (h : Routed s) (id : Int) (topics : List String) (now : Time) : Routed (s.register id topics now) := by
  obtain ⟨b, hb, hcan⟩ := h
  have hb' : (s.register id topics now).scheduler.broker = s.scheduler.broker.map fun b =>
    b.registerWorker id topics := rfl
  refine ⟨b.registerWorker id topics, by rw [hb', hb]; rfl, fun k info hk jobType => ?_⟩
  have hk' : (s.workers.insert id { lastHeartbeat := now, alive := true, topics := topics }).lookup k = some info := hk
  rw [GoMap.lookup_insert_ite] at hk'
  split at hk'
  · rename_i hid
    cases hk'
    rw [hid]
    exact b.canHandle_registerWorker id topics jobType
  · rename_i hid
    rw [b.canHandle_registerWorker_ne hid]
    exact hcan k info hk' jobType

theorem remove (h : Routed s) (id : Int) : Routed (s.remove id) := by
  obtain ⟨b, hb, hcan⟩ := h
  have hb' : (s.remove id).scheduler.broker = s.scheduler.broker.map fun b => b.unregisterWorker id := rfl
  refine ⟨b.unregisterWorker id, by rw [hb', hb]; rfl, fun k info hk jobType => ?_⟩
  have hk' : (s.workers.erase id).lookup k = some info := hk
  rw [GoMap.lookup_erase_ite] at hk'
  split at hk'
  · cases hk'
  · rename_i hid
    rw [b.canHandle_unregisterWorker_ne hid]
    exact hcan k info hk' jobType

/-- Writing a worker's entry with its topics as they are. -/
theorem of_insert {id : Int} {info new : WorkerInfo} (hid : s.workers.lookup id = some info)
    (htopics : new.topics = info.topics) (k : Int) (i : WorkerInfo) (hk : (s.workers.insert id new).lookup k = some i) :
    ∃ i', s.workers.lookup k = some i' ∧ i.topics = i'.topics := by
  rw [GoMap.lookup_insert_ite] at hk
  split at hk
  · rename_i heq
    cases hk
    exact ⟨info, by rw [heq]; exact hid, htopics⟩
  · exact ⟨i, hk, rfl⟩

theorem start [Store σ] (st : σ) (resultBuffer : Nat) : Routed (Fleet.start st resultBuffer) :=
  ⟨.new, rfl, fun _ _ hid => by cases hid⟩

theorem step [Store σ] (h : Routed s) (timeout : Duration) (a : Act) : Routed (s.step timeout a).1 := by
  have hself : ∀ id info, s.workers.lookup id = some info → ∃ info', s.workers.lookup id = some info' ∧
      info.topics = info'.topics :=
    fun id info hid => ⟨info, hid, rfl⟩
  cases a with
  | registerWorker id topics dialed now =>
    cases dialed with
    | false => exact h
    | true => exact (h.register id topics now).of_same rfl fun k info hk => ⟨info, hk, rfl⟩
  | remove id => exact h.remove id
  | heartbeat id now =>
    simp only [Fleet.step, heartbeat]
    split
    · exact h
    · rename_i info hid
      exact h.of_same rfl (of_insert hid rfl)
  | monitorWorker id now =>
    simp only [Fleet.step, monitorWorker]
    split
    · exact h
    · rename_i info hid
      split
      · exact h.of_same rfl (of_insert hid rfl)
      · exact h
  | dispatchLoop now submit => exact h.of_same (dispatch_round timeout s now submit).frame.2.1 hself
  | reportResult workerID r ctxDone =>
    simp only [Fleet.step, reportResult]
    split
    · split
      · exact h.of_same rfl hself
      · exact h.of_same rfl hself
    · exact h
  | executionLost workerID jobID => exact h
  | resultLoop now =>
    simp only [Fleet.step]
    split
    · exact h
    · rename_i r ch _
      exact h.of_same (resultLoop_frame now r s.scheduler).2.1 hself
  | receiveDead =>
    simp only [Fleet.step]
    split
    · exact h.of_same rfl hself
    · exact h
  | recover ord =>
    simp only [Fleet.step]
    split
    · exact h
    · rename_i id _
      exact h.of_same (recoveryLoop_frame ord id s.scheduler).2.1 hself
  | jobCall raft c => exact h.of_same (jobCall_frame raft c s.engine).2.1 hself

end Routed

/-- A worker that the broker answers for and that is registered is registered for the type. -/
theorem Routed.handles [Store σ] {s : Fleet σ} (h : Routed s) {jobType : String} {w : WorkerClient}
    (hw : s.scheduler.firstWorker jobType = some w) {info : WorkerInfo} (hid : s.workers.lookup w.id = some info) :
    Handles info.topics jobType := by
  obtain ⟨b, hb, hcan⟩ := h
  have hpick := List.find?_some hw
  unfold Scheduler.canHandle at hpick
  rw [hb] at hpick
  exact (hcan w.id info hid jobType).1 hpick

theorem routesTo_step_iff [Store σ] {s : Fleet σ} (h : Routed s) (timeout : Duration) (a : Act) :
    RoutesTo timeout s a ↔ s.FirstIsLive a := by
  cases a with
  | dispatchLoop now submit =>
    constructor
    · intro hroute j w hj hw
      obtain ⟨info, hid, halive, -⟩ := hroute _ (mem_dispatchLoop.2 ⟨j, w, hj, hw, rfl⟩)
      exact ⟨info, hid, halive⟩
    · intro hfirst g hg
      obtain ⟨j, w, hj, hw, rfl⟩ := mem_dispatchLoop.1 hg
      obtain ⟨info, hid, halive⟩ := hfirst j w hj hw
      exact ⟨info, hid, halive, h.handles hw hid⟩
  | registerWorker | remove | heartbeat | monitorWorker | reportResult | executionLost | resultLoop | receiveDead
  | recover | jobCall =>
    refine iff_of_true (fun g hg => ?_) trivial
    obtain ⟨_, _, ha⟩ := step_grants (List.ne_nil_of_mem hg)
    cases ha

end Quorum.Fleet
