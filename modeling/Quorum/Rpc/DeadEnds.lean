/-
Jobs of which nothing will be heard. A lease goes only with a result or with the death of its worker. A pending job that
is in no queue and leased to a live worker has an execution or a result on its way in exactly the runs in which no step
loses the last one of such a job, or brings the worker of such a job back to life.
-/
import Quorum.Engine.Moves
import Quorum.Rpc.Delivery

namespace Quorum

/-! ## Stuck jobs -/

/-- The job is pending, in no queue and leased to the worker. -/
structure Board.Stuck (b : Board) (w id : Int) : Prop where
  pending : ∃ j, b.job id = some j ∧ j.status = .pending
  ready : id ∉ b.ready
  delayed : id ∉ b.delayed
  leased : b.LeasedTo w id

namespace Board

variable {b b' : Board} {w id : Int}

theorem Dispatches.stuck {now : Time} {gs : List Grant} (hd : b.Dispatches now gs b') (h : b'.Stuck w id) :
    b.Stuck w id ∨ ∃ g ∈ gs, g.accepted = true ∧ g.lease.workerID = w ∧ g.job.id = id := by
  obtain ⟨⟨j, hj, hst⟩, hready, hdelayed, hleased⟩ := h
  cases hd with
  | idle _ => exact .inl ⟨⟨j, hj, hst⟩, hready, hdelayed, hleased⟩
  | requeue _ => exact .inl ⟨⟨j, hj, hst⟩, hready, hdelayed, hleased⟩
  | @skip k rest hids hterm =>
    refine .inl ⟨⟨j, hj, hst⟩, ?_, hdelayed, hleased⟩
    rw [hids, Multiset.mem_cons, not_or]
    refine ⟨?_, hready⟩
    rintro rfl
    have hended := hterm j hj
    rw [hst] at hended
    cases hended
  | @refuse k rest j' w' hids hstored _ =>
    obtain ⟨l, hl, hlw⟩ := hleased
    rw [dropLease_lease] at hl
    split at hl
    · cases hl
    · exact .inl ⟨⟨j, hj, hst⟩, hready, hdelayed, l, hl, hlw⟩
  | @grant k rest j' w' hids hstored _ =>
    obtain ⟨l, hl, hlw⟩ := hleased
    rw [setLease_lease] at hl
    split at hl
    · rename_i hk
      cases hl
      exact .inr ⟨_, List.mem_singleton_self _, rfl, hlw, hstored.2.trans hk.symm⟩
    · rename_i hk
      refine .inl ⟨⟨j, hj, hst⟩, ?_, hdelayed, l, hl, hlw⟩
      rw [hids, Multiset.mem_cons, not_or]
      exact ⟨hk, hready⟩

/-- A result without an attempt releases the lease of its job. -/
theorem Reports.stuck {now : Time} {r : Result} (hr : b.Reports now r b') (hattempt : r.attempt = 0)
    (h : b'.Stuck w id) :
    b.Stuck w id ∧ r.jobID ≠ id := by
  obtain ⟨⟨j, hj, hst⟩, hready, hdelayed, l, hl, hlw⟩ := h
  cases hr with
  | missing hnone =>
    refine ⟨⟨⟨j, hj, hst⟩, hready, hdelayed, l, hl, hlw⟩, ?_⟩
    rintro rfl
    rw [hnone] at hj
    cases hj
  | stale _ hpos _ => omega
  | completed hstored _ _ =>
    simp only [write_lease, dropLease_lease] at hl
    split at hl
    · cases hl
    · rename_i hid
      rw [write_job, if_neg fun hk => hid (hk.2.trans hstored.2)] at hj
      exact ⟨⟨⟨j, hj, hst⟩, by simpa using hready, by simpa using hdelayed, l, hl, hlw⟩, fun heq => hid heq.symm⟩
  | retried hstored _ _ _ =>
    simp only [withDelayed_lease, write_lease, dropLease_lease] at hl
    split at hl
    · cases hl
    · rename_i hid
      rw [withDelayed_job, write_job, if_neg fun hk => hid (hk.2.trans hstored.2)] at hj
      rw [withDelayed_delayed, Multiset.mem_cons, not_or] at hdelayed
      exact ⟨⟨⟨j, hj, hst⟩, by simpa using hready, hdelayed.2, l, hl, hlw⟩, fun heq => hid heq.symm⟩
  | buried hstored _ _ _ =>
    simp only [bury_lease, write_lease, dropLease_lease] at hl
    split at hl
    · cases hl
    · rename_i hid
      rw [bury_job, write_job, if_neg fun hk => hid (hk.2.trans hstored.2)] at hj
      exact ⟨⟨⟨j, hj, hst⟩, by simpa using hready, by simpa using hdelayed, l, hl, hlw⟩, fun heq => hid heq.symm⟩

theorem Promotes.stuck {now : Time} (hp : b.Promotes now b') (h : b'.Stuck w id) : b.Stuck w id := by
  obtain ⟨⟨j, hj, hst⟩, hready, hdelayed, hleased⟩ := h
  cases hp with
  | wait => exact ⟨⟨j, hj, hst⟩, hready, hdelayed, hleased⟩
  | @drop k rest hids hnone =>
    refine ⟨⟨j, hj, hst⟩, hready, ?_, hleased⟩
    rw [hids, Multiset.mem_cons, not_or]
    refine ⟨?_, hdelayed⟩
    rintro rfl
    rw [show b.job id = some j from hj] at hnone
    cases hnone
  | @refused k rest j' hids hstored _ hinvalid =>
    refine ⟨⟨j, hj, hst⟩, hready, ?_, hleased⟩
    rw [hids, Multiset.mem_cons, not_or]
    refine ⟨?_, hdelayed⟩
    rintro rfl
    -- a pending job may become pending
    cases hstored.1.symm.trans hj
    rw [hst, isValidTransition_self] at hinvalid
    cases hinvalid
  | @promoted k rest j' hids hstored _ _ =>
    rw [withReady_ready, Multiset.mem_cons, not_or] at hready
    have hjob : b.job id = some j := by
      rw [withReady_job, withDelayed_job, setJob_job, if_neg fun hk => hready.1 (hk.trans hstored.2)] at hj
      exact hj
    refine ⟨⟨j, hjob, hst⟩, hready.2, ?_, hleased⟩
    rw [hids, Multiset.mem_cons, not_or]
    exact ⟨hready.1, hdelayed⟩

theorem Recovers.stuck {k : Int} (hr : b.Recovers k b') (h : b'.Stuck w id) : b.Stuck w id := by
  obtain ⟨⟨j, hj, hst⟩, hready, hdelayed, l, hl, hlw⟩ := h
  have hnot : ¬ b.LeasedTo k id := by
    intro hk
    rw [hr.released id hk] at hl
    cases hl
  obtain ⟨hlease, hcount⟩ := hr.kept id hnot
  refine ⟨⟨j, by rw [← hr.job]; exact hj, hst⟩, ?_, by rw [← hr.delayed]; exact hdelayed,
    l, by rw [← hlease]; exact hl, hlw⟩
  rw [← Multiset.count_eq_zero, ← hcount, Multiset.count_eq_zero]
  exact hready

theorem setJob_stuck {j : Job} (hne : id ≠ j.id) (h : (b.setJob j).Stuck w id) : b.Stuck w id := by
  obtain ⟨⟨k, hk, hst⟩, hready, hdelayed, hleased⟩ := h
  rw [setJob_job, if_neg hne] at hk
  exact ⟨⟨k, hk, hst⟩, hready, hdelayed, hleased⟩

theorem push_stuck {k : Int} {q : QueueRef} (h : (b.push k q).Stuck w id) : b.Stuck w id := by
  obtain ⟨hpending, hready, hdelayed, hleased⟩ := h
  cases q with
  | priority => exact ⟨hpending, fun hin => hready (Multiset.mem_cons_of_mem hin), hdelayed, hleased⟩
  | delay => exact ⟨hpending, hready, fun hin => hdelayed (Multiset.mem_cons_of_mem hin), hleased⟩

/-- A job that is stuck after a step was stuck before, and the step has not received a result of it; or it has just been
placed with its worker. -/
theorem Step.stuck {raft : Option RaftReply} {next n' : Int} {i : Engine.Input} {gs : List Grant}
    (hs : b.Step raft next i gs n' b') (hb : b.Bounded next)
    (hi : ∀ now r, i = .round (.resultLoop now r) → r.attempt = 0) (h : b'.Stuck w id) :
    (b.Stuck w id ∧ ∀ now r, i = .round (.resultLoop now r) → r.jobID ≠ id) ∨
      ∃ g ∈ gs, g.accepted = true ∧ g.lease.workerID = w ∧ g.job.id = id := by
  -- a new id has no lease
  have hfresh : ∀ {j : Job}, j.id = next + 1 → b.LeasedTo w id → id ≠ j.id := by
    rintro j hj ⟨l, hl, -⟩ heq
    rw [(hb id (by omega)).lease] at hl
    cases hl
  cases hs with
  | submitted _ hnew =>
    have hset := push_stuck h
    exact .inl ⟨setJob_stuck (hfresh (newJob_id hnew) hset.leased) hset, fun _ _ heq => by subst heq; cases hnew⟩
  | committed _ hnew =>
    exact .inl ⟨setJob_stuck (hfresh (newJob_id hnew) h.leased) h, fun _ _ heq => by subst heq; cases hnew⟩
  | rejected hnew => exact .inl ⟨h, fun _ _ heq => by subst heq; cases hnew⟩
  | deduplicated _ => exact .inl ⟨h, nofun⟩
  | @cancelled k j hstored _ =>
    refine .inl ⟨setJob_stuck ?_ h, nofun⟩
    rintro rfl
    obtain ⟨j', hj', hst⟩ := h.pending
    rw [setJob_job, if_pos rfl] at hj'
    cases hj'
    cases hst
  | notCancelled => exact .inl ⟨h, nofun⟩
  | @deleted k =>
    obtain ⟨⟨j, hj, hst⟩, hready, hdelayed, hleased⟩ := h
    rw [removeJob_job] at hj
    split at hj
    · cases hj
    · exact .inl ⟨⟨⟨j, hj, hst⟩, hready, hdelayed, hleased⟩, nofun⟩
  | notDeleted => exact .inl ⟨h, nofun⟩
  | rounds hr =>
    cases hr with
    | workers => exact .inl ⟨h, nofun⟩
    | dispatches hd =>
      rcases hd.stuck h with hold | hnew
      · exact .inl ⟨hold, nofun⟩
      · exact .inr hnew
    | @reports now r _ hrep =>
      obtain ⟨hold, hne⟩ := hrep.stuck (hi now r rfl) h
      exact .inl ⟨hold, fun _ _ heq => by cases heq; exact hne⟩
    | promotes hp => exact .inl ⟨hp.stuck h, nofun⟩
    | recovers hrec => exact .inl ⟨hrec.stuck h, nofun⟩

theorem stuck_of_rebuilt {pend sched : List Int} (hr : Scheduler.Rebuilt b b' pend sched) (h : b'.Stuck w id) :
    b.Stuck w id := by
  obtain ⟨hpending, hready, hdelayed, hleased⟩ := h
  rw [hr.board] at hpending hready hdelayed hleased
  exact ⟨hpending, fun hin => hready (Multiset.mem_add.2 (.inl hin)),
    fun hin => hdelayed (Multiset.mem_add.2 (.inl hin)), hleased⟩

end Board

/-! ## The control node -/

namespace Fleet

variable {σ : Type} [LawfulStore σ] {timeout : Duration} {s : Fleet σ} {a : Act}

theorem step_sound (hs : s.engine.Sound) (timeout : Duration) (a : Act) : (s.step timeout a).1.engine.Sound := by
  obtain ⟨raft, i, heng, -⟩ := step_engine timeout s a
  rw [heng]
  exact Engine.step_sound raft hs i

/-- If no result has an attempt, a job that is stuck after a step was stuck before, and the step has not received a
result of it; or it has just been placed with its worker. -/
theorem step_stuck (timeout : Duration) (hs : s.engine.Sound) (hres : ∀ r ∈ s.results.buf, r.attempt = 0) {w id : Int}
    (h : (s.step timeout a).1.engine.board.Stuck w id) :
    (s.engine.board.Stuck w id ∧ ∀ now r ch, a = .resultLoop now → s.results.tryRecv = some (r, ch) → r.jobID ≠ id) ∨
      ∃ g ∈ (s.step timeout a).2, g.accepted = true ∧ g.lease.workerID = w ∧ g.job.id = id := by
  obtain ⟨raft, i, heng, hgs, hrecv⟩ := step_engine timeout s a
  rw [heng] at h
  rw [hgs]
  have hattempt : ∀ now r, i = .round (.resultLoop now r) → r.attempt = 0 := by
    intro now r hi
    obtain ⟨-, ch, hch⟩ := (hrecv now r).1 hi
    exact hres r (by rw [Chan.tryRecv_eq_some hch]; exact List.mem_cons_self)
  rcases (Engine.step_board raft hs.wf i).stuck hs.bounded hattempt h with ⟨hold, hne⟩ | hnew
  · exact .inl ⟨hold, fun now r ch ha hch => hne now r ((hrecv now r).2 ⟨ha, ch, hch⟩)⟩
  · exact .inr hnew

omit [LawfulStore σ] in
/-- A result that is handed over is in `Results`, behind those that were there. -/
theorem results_reportResult (workerID : Int) (r : Result) {ctxDone : Bool} (h : s.delivers ctxDone = true) :
    (s.reportResult workerID r ctxDone).results.buf = s.results.buf ++ [r] := by
  have hroom : s.results.buf.length < s.results.cap := by
    unfold delivers at h
    exact of_decide_eq_true (Bool.and_eq_true_iff.1 h).2
  have hbuf : (s.results.trySend r).buf = s.results.buf ++ [r] := by rw [Chan.buf_trySend, if_pos hroom]
  unfold reportResult
  rw [if_pos h]
  dsimp only
  split
  · exact hbuf
  · exact hbuf

/-- `Results` grows only by a report and shrinks only by a round of `resultLoop`. -/
theorem results_step (timeout : Duration) (s : Fleet σ) (a : Act) (ha : Delivery.isLocal a = true) :
    (s.step timeout a).1.results = s.results ∨
      ∃ now r, a = .resultLoop now ∧ s.results.tryRecv = some (r, (s.step timeout a).1.results) := by
  cases a with
  | dispatchLoop | reportResult | executionLost => cases ha
  | registerWorker id topics dialed now => cases dialed <;> exact .inl rfl
  | remove id => exact .inl rfl
  | heartbeat id now => exact .inl (s.heartbeat_frame id now).2.1
  | monitorWorker id now => exact .inl (s.monitorWorker_frame timeout now id).2
  | resultLoop now =>
    simp only [step]
    split
    · exact .inl rfl
    · rename_i r ch hch
      exact .inr ⟨now, r, rfl, hch⟩
  | receiveDead => exact .inl (s.receiveDead_frame timeout).2.1
  | recover ord =>
    simp only [step]
    split <;> exact .inl rfl
  | jobCall raft c => exact .inl rfl

end Fleet

namespace Delivery

variable {σ : Type} [LawfulStore σ]

/-- The job is pending, in no queue and leased to a live worker. -/
def Exposed (s : Delivery σ) (id : Int) : Prop := ∃ w, s.control.engine.board.Stuck w id ∧ s.control.Live w

/-- Nothing will ever be heard of the job while its worker stays alive. -/
def DeadEnd (s : Delivery σ) (id : Int) : Prop := s.Exposed id ∧ ¬ s.Carried id

/-- The step leads into no dead end: a result that is dropped, because the node's channel is full, or not delivered is
not the only thing left of an exposed job, and a worker that comes back to life holds no stuck job that nothing
carries. -/
def KeepsCarried (s : Delivery σ) : Act → Prop
  | .finish w i _ => ¬ (s.node w).results.buf.length < (s.node w).results.cap →
      ∀ j, (s.node w).executing[i]? = some j → s.Exposed j.id → s.CarriedTwice w j.id
  | .reportResult w true => ∀ r, (s.node w).reporting = some r → s.Exposed r.jobID → s.CarriedTwice w r.jobID
  | .control (.registerWorker w _ true _) => ∀ id, s.control.engine.board.Stuck w id → s.Carried id
  | .control (.heartbeat w _) =>
      (s.control.workers.lookup w).isSome = true → ∀ id, s.control.engine.board.Stuck w id → s.Carried id
  | _ => True

/-! ## One step -/

section
variable {timeout : Duration} {s : Delivery σ} {id : Int}

/-- The engine is sound and no result has an attempt. -/
structure Coherent (s : Delivery σ) : Prop where
  sound : s.control.engine.Sound
  results : ∀ r ∈ s.control.results.buf, r.attempt = 0

namespace Coherent

theorem reportResult (hs : s.Coherent) (w : Int) (failed : Bool) : (s.reportResult w failed).Coherent := by
  cases hrep : (s.node w).reporting with
  | none =>
    unfold Delivery.reportResult
    rw [hrep]
    exact hs
  | some r =>
    cases failed with
    | true =>
      rw [reportResult_failed hrep]
      exact ⟨hs.sound, hs.results⟩
    | false =>
      by_cases hroom : s.control.delivers false = true
      · rw [reportResult_delivered hrep hroom]
        refine ⟨Fleet.step_sound hs.sound 0 (.reportResult _ _ false), fun k hk => ?_⟩
        rw [Fleet.results_reportResult _ _ hroom] at hk
        rcases List.mem_append.1 hk with hold | hnew
        · exact hs.results k hold
        · -- the message has no field for the attempt
          rw [List.mem_singleton.1 hnew]
          rfl
      · rw [reportResult_waits hrep hroom]
        exact hs

theorem step (hs : s.Coherent) (timeout : Duration) (a : Act) : (s.step timeout a).1.Coherent := by
  cases a with
  | control a =>
    simp only [Delivery.step]
    split
    · rename_i hlocal
      refine ⟨Fleet.step_sound hs.sound timeout a, fun r hr => hs.results r ?_⟩
      rcases Fleet.results_step timeout s.control a hlocal with hsame | ⟨now, k, -, hrecv⟩
      · rw [← hsame]
        exact hr
      · rw [Chan.tryRecv_eq_some hrecv]
        exact List.mem_cons_of_mem _ hr
    · exact hs
  | dispatchLoop now rpc =>
    let submit := fun w j => (rpc w j).error
    have hcontrol := (foldl_receive rpc (s.control.step timeout (.dispatchLoop now submit)).2
      { s with control := (s.control.step timeout (.dispatchLoop now submit)).1 }).1
    refine ⟨?_, ?_⟩
    · simp only [Delivery.step]
      rw [hcontrol]
      exact Fleet.step_sound hs.sound timeout (.dispatchLoop now submit)
    · simp only [Delivery.step]
      rw [hcontrol]
      exact hs.results
  | finish w i err => exact ⟨hs.sound, hs.results⟩
  | forward w => exact ⟨hs.sound, hs.results⟩
  | reportResult w failed => exact hs.reportResult w failed
  | claim ord₁ ord₂ => exact ⟨Engine.event_sound hs.sound (.claim ord₁ ord₂), hs.results⟩
  | stepDown => exact ⟨Engine.event_sound hs.sound .stepDown, hs.results⟩

end Coherent

theorem control_deadEnd (hs : s.Coherent) {a : Fleet.Act} (hlocal : isLocal a = true)
    (hkeep : s.KeepsCarried (.control a)) (h : DeadEnd { s with control := (s.control.step timeout a).1 } id) :
    s.DeadEnd id := by
  obtain ⟨⟨w, hstuck, hlive⟩, hnot⟩ := h
  have hgs : (s.control.step timeout a).2 = [] := Fleet.step_grants_nil fun now submit ha => by subst ha; cases hlocal
  rcases Fleet.step_stuck timeout hs.sound hs.results hstuck with ⟨hold, hne⟩ | ⟨g, hg, -⟩
  · have hlost : ¬ s.Carried id := by
      rintro (hnode | ⟨r, hr, hid⟩)
      · exact hnot (.inl hnode)
      · rcases Fleet.results_step timeout s.control a hlocal with hsame | ⟨now, k, ha, hrecv⟩
        · exact hnot (.inr ⟨r, by rw [hsame]; exact hr, hid⟩)
        · rw [Chan.tryRecv_eq_some hrecv] at hr
          rcases List.mem_cons.1 hr with rfl | hrest
          · exact hne now r _ ha hrecv hid
          · exact hnot (.inr ⟨r, hrest, hid⟩)
    rcases Fleet.live_of_step hlive with halive | ⟨topics, now, rfl⟩ | ⟨now, rfl, hreg⟩
    · exact ⟨⟨w, hold, halive⟩, hlost⟩
    · exact absurd (hkeep id hold) hlost
    · exact absurd (hkeep hreg id hold) hlost
  · rw [hgs] at hg
    cases hg

theorem dispatchLoop_deadEnd (hs : s.Coherent) (now : Time) (rpc : WorkerClient → Job → RpcOutcome)
    (h : (s.step timeout (.dispatchLoop now rpc)).1.DeadEnd id) : s.DeadEnd id := by
  let submit := fun w j => (rpc w j).error
  let t : Delivery σ := { s with control := (s.control.step timeout (.dispatchLoop now submit)).1 }
  obtain ⟨hcontrol, hkeep, hnew⟩ := foldl_receive rpc (s.control.step timeout (.dispatchLoop now submit)).2 t
  obtain ⟨⟨w, hstuck, hlive⟩, hnot⟩ := h
  have hstuck' : t.control.engine.board.Stuck w id := by rw [← hcontrol]; exact hstuck
  have hlive' : t.control.Live w := by rw [← hcontrol]; exact hlive
  rcases Fleet.step_stuck timeout hs.sound hs.results hstuck' with ⟨hold, -⟩ | ⟨g, hg, hacc, -, hid⟩
  · refine ⟨⟨w, hold, hlive'⟩, fun hcarried => hnot (hkeep id ?_)⟩
    exact hcarried
  · have hnone : (rpc ⟨g.lease.workerID⟩ g.job).error = none :=
      (Fleet.dispatch_round timeout s.control now submit).submit_accepted hg hacc
    have hrec : (rpc ⟨g.lease.workerID⟩ g.job).received = true := by
      cases hrpc : rpc ⟨g.lease.workerID⟩ g.job with
      | accepted => rfl
      | failed received err => rw [hrpc] at hnone; cases hnone
    exact absurd (hid ▸ hnew g hg hrec) hnot

/-- A result that is delivered carries its job in the channel of the control node. -/
theorem delivered_deadEnd (hs : s.Coherent) {w : Int} {r : Result} (hrep : (s.node w).reporting = some r)
    (hroom : s.control.delivers false = true) (h : (s.reportResult w false).DeadEnd id) : s.DeadEnd id := by
  rw [reportResult_delivered hrep hroom] at h
  obtain ⟨⟨k, hstuck, hlive⟩, hnot⟩ := h
  generalize hreq : (Rpc.reportRequest ⟨w⟩ r).decoded = req at hstuck hlive hnot
  have hjob : (Rpc.reportedResult req).jobID = r.jobID := by rw [← hreq]; rfl
  have hbuf := Fleet.results_reportResult req.workerId (Rpc.reportedResult req) hroom
  let a : Fleet.Act := .reportResult req.workerId (Rpc.reportedResult req) false
  have hstuck' : (s.control.step 0 a).1.engine.board.Stuck k id := hstuck
  have hlive' : (s.control.step 0 a).1.Live k := hlive
  rcases Fleet.step_stuck 0 hs.sound hs.results hstuck' with ⟨hold, -⟩ | ⟨g, hg, -⟩
  · rcases Fleet.live_of_step hlive' with halive | ⟨_, _, ha⟩ | ⟨_, ha, _⟩
    · refine ⟨⟨k, hold, halive⟩, fun hcarried => hnot ?_⟩
      rcases hcarried.reported hrep with (hnode | ⟨m, hm, hid⟩) | hid
      · exact .inl hnode
      · exact .inr ⟨m, by rw [hbuf]; exact List.mem_append_left _ hm, hid⟩
      · refine .inr ⟨Rpc.reportedResult req, ?_, hjob.trans hid⟩
        rw [hbuf]
        exact List.mem_append_right _ (List.mem_singleton_self _)
    · cases (show Fleet.Act.reportResult _ _ _ = _ from ha)
    · cases (show Fleet.Act.reportResult _ _ _ = _ from ha)
  · cases hg

theorem reportResult_deadEnd (hs : s.Coherent) {w : Int} {failed : Bool}
    (hkeep : s.KeepsCarried (.reportResult w failed)) (h : (s.reportResult w failed).DeadEnd id) : s.DeadEnd id := by
  cases hrep : (s.node w).reporting with
  | none =>
    unfold reportResult at h
    rw [hrep] at h
    exact h
  | some r =>
    cases failed with
    | true =>
      rw [reportResult_failed hrep] at h
      obtain ⟨hexp, hnot⟩ := h
      have hexp' : s.Exposed id := hexp
      refine ⟨hexp', fun hcarried => hnot ?_⟩
      rcases hcarried.reported hrep with hother | rfl
      · exact hother
      · exact (setNode_carried_iff (WorkerNode.count_jobs_reported hrep)).2 (hkeep r hrep hexp')
    | false =>
      by_cases hroom : s.control.delivers false = true
      · exact delivered_deadEnd hs hrep hroom h
      · rw [reportResult_waits hrep hroom] at h
        exact h

/-- A dead end after a step was one before, or the step leads into it. -/
theorem deadEnd_of_step (hs : s.Coherent) {a : Act} (hkeep : s.KeepsCarried a) (h : (s.step timeout a).1.DeadEnd id) :
    s.DeadEnd id := by
  cases a with
  | control a =>
    simp only [step] at h
    split at h
    · rename_i hlocal
      exact control_deadEnd hs hlocal hkeep h
    · exact h
  | dispatchLoop now rpc => exact dispatchLoop_deadEnd hs now rpc h
  | finish w i err =>
    obtain ⟨hexp, hnot⟩ := h
    have hexp' : s.Exposed id := hexp
    refine ⟨hexp', fun hcarried => hnot ?_⟩
    rcases hcarried.setNode w ((s.node w).finish i err) with hother | hown
    · exact hother
    · rcases WorkerNode.mem_jobs_finish i err hown with hin | ⟨hfull, j, hj, rfl⟩
      · exact carried_setNode hin
      · exact (setNode_carried_iff (WorkerNode.count_jobs_finish err hj hfull)).2 (hkeep hfull j hj hexp')
  | forward w =>
    obtain ⟨hexp, hnot⟩ := h
    exact ⟨hexp, fun hcarried => hnot (hcarried.setNode_of_imp WorkerNode.mem_jobs_forward)⟩
  | reportResult w failed => exact reportResult_deadEnd hs hkeep h
  | claim ord₁ ord₂ =>
    obtain ⟨⟨w, hstuck, hlive⟩, hnot⟩ := h
    obtain ⟨-, -, pend, sched, hr⟩ := Scheduler.rebuildQueuesFromStore_board hs.sound.wf ord₁ ord₂
    exact ⟨⟨w, Board.stuck_of_rebuilt hr hstuck, hlive⟩, hnot⟩
  | stepDown =>
    obtain ⟨⟨w, ⟨_, _, _, l, hl, _⟩, _⟩, _⟩ := h
    cases hl

/-- A step that leads into no dead end meets the condition. -/
theorem keepsCarried_of_step {a : Act} (h : ∀ id, ¬ (s.step timeout a).1.DeadEnd id) : s.KeepsCarried a := by
  cases a with
  | finish w i err =>
    intro hfull j hj hexp
    rw [← setNode_carried_iff (WorkerNode.count_jobs_finish err hj hfull)]
    by_contra hnot
    exact h j.id ⟨hexp, hnot⟩
  | reportResult w failed =>
    cases failed with
    | false => trivial
    | true =>
      intro r hrep hexp
      rw [← setNode_carried_iff (WorkerNode.count_jobs_reported hrep)]
      by_contra hnot
      refine h r.jobID ?_
      show (s.reportResult w true).DeadEnd r.jobID
      rw [reportResult_failed hrep]
      exact ⟨hexp, hnot⟩
  | control a =>
    cases a with
    | registerWorker w topics dialed now =>
      cases dialed with
      | false => trivial
      | true =>
        intro id hstuck
        by_contra hnot
        exact h id ⟨⟨w, hstuck, (Fleet.live_registerWorker s.control w topics now w).2 (.inl rfl)⟩, hnot⟩
    | heartbeat w now =>
      intro hreg id hstuck
      by_contra hnot
      have hlive := (Fleet.live_heartbeat s.control w now w).2 (.inl ⟨rfl, hreg⟩)
      obtain ⟨heng, hres, -⟩ := s.control.heartbeat_frame w now
      refine h id ⟨⟨w, ?_, hlive⟩, ?_⟩
      · show (s.control.heartbeat w now).engine.board.Stuck w id
        rw [heng]
        exact hstuck
      · rintro (hnode | ⟨r, hr, hid⟩)
        · exact hnot (.inl hnode)
        · refine hnot (.inr ⟨r, ?_, hid⟩)
          rw [← hres]
          exact hr
    | remove | monitorWorker | dispatchLoop | reportResult | executionLost | resultLoop | receiveDead | recover
    | jobCall =>
      trivial
  | dispatchLoop | forward | claim | stepDown => trivial

/-! ## Runs -/

/-- Before the first job has been given to a worker. -/
structure Starts (s : Delivery σ) : Prop where
  sound : s.control.engine.Sound
  leases : ∀ id, s.control.leases.get id = none
  node : ∀ w, (s.node w).jobs = []
  results : s.control.results.buf = []

theorem Starts.coherent (h : s.Starts) : s.Coherent := by
  refine ⟨h.sound, fun r hr => ?_⟩
  rw [h.results] at hr
  cases hr

theorem Starts.not_deadEnd (h : s.Starts) (id : Int) : ¬ s.DeadEnd id := by
  rintro ⟨⟨w, ⟨-, -, -, l, hl, -⟩, -⟩, -⟩
  rw [show s.control.engine.board.lease id = s.control.leases.get id from rfl, h.leases id] at hl
  cases hl

end

/-- The control node and its worker nodes on an empty store, each node with a result channel of its own size. -/
def start (resultBuffer : Nat) (buffer : Int → Nat) : Delivery σ :=
  { control := Fleet.start Store.empty resultBuffer, node := fun w => ⟨[], .make (buffer w), none⟩ }

theorem starts_start (resultBuffer : Nat) (buffer : Int → Nat) : (start resultBuffer buffer : Delivery σ).Starts :=
  ⟨Engine.sound_new _ _, fun _ => rfl, fun _ => rfl, rfl⟩

section
variable {timeout : Duration} {w : Int}

omit [LawfulStore σ] in
theorem foldl_receive_node (rpc : WorkerClient → Job → RpcOutcome) (gs : List Grant) (s : Delivery σ)
    (hw : ∀ g ∈ gs, g.lease.workerID ≠ w) : (gs.foldl (receive rpc) s).node w = s.node w := by
  induction gs generalizing s with
  | nil => rfl
  | cons g gs ih =>
    rw [List.foldl_cons, ih _ fun k hk => hw k (List.mem_cons_of_mem _ hk)]
    unfold receive
    dsimp only
    split
    · exact Function.update_of_ne (hw g List.mem_cons_self).symm _ _
    · rfl

omit [LawfulStore σ] in
theorem setNode_jobs_nil {s : Delivery σ} {k : Int} {n : WorkerNode} (h : (s.node w).jobs = [])
    (hn : (s.node k).jobs = [] → n.jobs = []) : ((s.setNode k n).node w).jobs = [] := by
  show (Function.update s.node k n w).jobs = []
  by_cases hk : w = k
  · subst hk
    rw [Function.update_self]
    exact hn h
  · rw [Function.update_of_ne hk]
    exact h

theorem jobs_step_nil {s : Delivery σ} (h : (s.node w).jobs = []) {a : Act}
    (hw : ∀ g ∈ (s.step timeout a).2, g.lease.workerID ≠ w) : ((s.step timeout a).1.node w).jobs = [] := by
  cases a with
  | control a =>
    simp only [step]
    split <;> exact h
  | dispatchLoop now rpc =>
    simp only [step] at hw ⊢
    rw [foldl_receive_node rpc _ _ hw]
    exact h
  | finish k i err => exact setNode_jobs_nil h fun hk => by rw [WorkerNode.finish_of_nil hk]; exact hk
  | forward k => exact setNode_jobs_nil h fun hk => by rw [WorkerNode.forward_of_nil hk]; exact hk
  | reportResult k failed =>
    show ((s.reportResult k failed).node w).jobs = []
    -- the node that reports has its result gone; no other node is touched
    have hreported : ((s.setNode k { s.node k with reporting := none }).node w).jobs = [] := by
      refine setNode_jobs_nil h fun hk => ?_
      obtain ⟨hexec, hbuf, -⟩ := WorkerNode.jobs_eq_nil.1 hk
      exact WorkerNode.jobs_eq_nil.2 ⟨hexec, hbuf, rfl⟩
    unfold reportResult
    split
    · exact h
    · dsimp only
      split
      · exact hreported
      · split
        · exact hreported
        · exact h
  | claim ord₁ ord₂ => exact h
  | stepDown => exact h

/-- A node that is given no job has none. -/
theorem jobs_exec_nil {s : Delivery σ} (h : (s.node w).jobs = []) (acts : List Act)
    (hw : ∀ g ∈ (delivery timeout).trace s acts, g.lease.workerID ≠ w) :
    (((delivery timeout).exec s acts).node w).jobs = [] := by
  induction acts generalizing s with
  | nil => exact h
  | cons a acts ih =>
    rw [Machine.trace_cons] at hw
    rw [Machine.exec_cons]
    refine ih (jobs_step_nil h fun g hg => hw g (List.mem_append_left _ hg)) fun g hg => ?_
    exact hw g (List.mem_append_right _ hg)

/-- A run that has given jobs to one worker only, and has neither jobs there nor results, carries nothing. -/
theorem not_carried_of_trace {s : Delivery σ} (hs : s.Starts) {acts : List Act}
    (hw : ((delivery timeout).trace s acts).map (fun g => g.lease.workerID) = [w])
    (hnode : (((delivery timeout).exec s acts).node w).jobs = [])
    (hres : ((delivery timeout).exec s acts).control.results.buf.map Result.jobID = []) (id : Int) :
    ¬ ((delivery timeout).exec s acts).Carried id := by
  rintro (⟨k, hk⟩ | ⟨r, hr, -⟩)
  · by_cases hkw : k = w
    · subst hkw
      rw [hnode] at hk
      cases hk
    · rw [jobs_exec_nil (hs.node k) acts] at hk
      · cases hk
      · intro g hg heq
        have hmem := List.mem_map_of_mem (f := fun g : Grant => g.lease.workerID) hg
        rw [hw] at hmem
        exact hkw (heq.symm.trans (List.mem_singleton.1 hmem))
  · rw [List.map_eq_nil_iff.1 hres] at hr
    cases hr

end

/-- What has to be looked at to see that a job is exposed. -/
theorem exposed_of_eq {s : Delivery σ} {w id : Int}
    (hpending : (Store.get s.control.scheduler.store id).map Job.status = some .pending)
    (hready : id ∉ s.control.scheduler.priorityQueue.items) (hdelayed : id ∉ s.control.scheduler.delayQueue.items)
    (hlease : (s.control.leases.get id).map Lease.workerID = some w)
    (hlive : (s.control.workers.lookup w).map WorkerInfo.alive = some true) : s.Exposed id := by
  obtain ⟨j, hj, hst⟩ := Option.map_eq_some_iff.1 hpending
  obtain ⟨l, hl, hlw⟩ := Option.map_eq_some_iff.1 hlease
  obtain ⟨info, hinfo, halive⟩ := Option.map_eq_some_iff.1 hlive
  refine ⟨w, ⟨⟨j, hj, hst⟩, fun hin => hready ?_, fun hin => hdelayed ?_, l, hl, hlw⟩, info, hinfo, halive⟩
  · exact Array.mem_toList_iff.1 hin
  · exact Array.mem_toList_iff.1 hin

end Delivery

end Quorum
