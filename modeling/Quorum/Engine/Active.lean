/-
No active job is stranded: a stored pending job is in the priority queue or leased, a stored scheduled
job is in the delay queue. Every step of the standalone engine keeps this. With Raft it holds after a
leadership claim, and every step keeps it except the submission whose job is applied: that job reaches
the store and no queue.
-/
import Quorum.Engine.Moves
import Quorum.Store.Memory

namespace Quorum

open Engine (Input)

namespace Board

/-- The job stored under `id` is where the scheduler finds it. -/
structure ActiveAt (b : Board) (id : Int) : Prop where
  pending : ∀ j, b.job id = some j → j.status = .pending → id ∈ b.ready ∨ (b.lease id).isSome = true
  scheduled : ∀ j, b.job id = some j → j.status = .scheduled → id ∈ b.delayed

def Active (b : Board) : Prop := ∀ id, b.ActiveAt id

/-! ## One round of a loop -/

/-- Where the job does not change and the places it is found in do not shrink, it stays active. -/
theorem ActiveAt.grow {b b' : Board} {id : Int} (h : b.ActiveAt id) (hj : b'.job id = b.job id)
    (hr : id ∈ b.ready → id ∈ b'.ready) (hd : id ∈ b.delayed → id ∈ b'.delayed)
    (hl : b'.lease id = b.lease id ∨ id ∈ b'.ready) : b'.ActiveAt id := by
  refine ⟨fun j hk hp => ?_, fun j hk hs => hd (h.scheduled j (hj ▸ hk) hs)⟩
  rcases h.pending j (hj ▸ hk) hp with hin | hsome
  · exact .inl (hr hin)
  · rcases hl with hl | hl
    · exact .inr (hl ▸ hsome)
    · exact .inl hl

/-- A job in another status is active wherever it is. -/
theorem activeAt_of_status {b : Board} {id : Int}
    (h : ∀ j, b.job id = some j → j.status ≠ .pending ∧ j.status ≠ .scheduled) : b.ActiveAt id :=
  ⟨fun j hj hp => absurd hp (h j hj).1, fun j hj hs => absurd hs (h j hj).2⟩

theorem activeAt_of_terminal {b : Board} {id : Int}
    (h : ∀ j, b.job id = some j → j.status.isTerminal = true) : b.ActiveAt id := by
  refine activeAt_of_status fun j hj => ⟨fun hs => ?_, fun hs => ?_⟩
  · have ht := h j hj; rw [hs] at ht; cases ht
  · have ht := h j hj; rw [hs] at ht; cases ht

theorem mem_rest {k id : Int} {m rest : Multiset Int} (hids : m = id ::ₘ rest) (hne : k ≠ id) (hk : k ∈ m) :
    k ∈ rest := by
  rw [hids, Multiset.mem_cons] at hk
  exact hk.resolve_left hne

theorem Dispatches.active {now : Time} {b b' : Board} {gs : List Grant} (hd : b.Dispatches now gs b')
    (h : b.Active) : b'.Active := by
  intro k
  cases hd with
  | idle _ => exact h k
  | requeue _ => exact h k
  | @skip id rest hids hterm =>
    by_cases hk : k = id
    · subst hk; exact activeAt_of_terminal hterm
    · exact (h k).grow rfl (mem_rest hids hk) (fun hin => hin) (.inl rfl)
  | @refuse id rest j w hids hst hterm =>
    have hready : id ∈ b.ready := by rw [hids]; exact Multiset.mem_cons_self id rest
    by_cases hk : k = id
    · subst hk; exact (h k).grow rfl (fun hin => hin) (fun hin => hin) (.inr hready)
    · exact (h k).grow rfl (fun hin => hin) (fun hin => hin) (.inl (by simp [hk]))
  | @grant id rest j w hids hst hterm =>
    by_cases hk : k = id
    · subst hk
      exact ⟨fun _ _ _ => .inr (by simp), fun j' hj' hs => (h k).scheduled j' hj' hs⟩
    · exact (h k).grow rfl (mem_rest hids hk) (fun hin => hin) (.inl (by simp [hk]))

/-- Writing a terminal status over the stored job `j`: a pending job takes the write. -/
theorem Active.write_terminal {b : Board} (h : b.Active) {id : Int} {j j' : Job} (hst : b.Stored id j)
    (hid : j'.id = j.id) (ht : j'.status.isTerminal = true)
    (hv : j.status = .pending → isValidTransition j.status j'.status = true) :
    ((b.dropLease id).write j j').Active := by
  intro k
  by_cases hk : k = id
  · subst hk
    refine ⟨fun x hx hp => ?_, fun x hx hs => ?_⟩
    · rw [write_job, hid, hst.2] at hx
      split at hx
      · cases hx; rw [hp] at ht; cases ht
      · rename_i hn
        rw [dropLease_job, hst.1] at hx; cases hx
        exact absurd ⟨hv hp, rfl⟩ hn
    · rw [write_job, hid, hst.2] at hx
      split at hx
      · cases hx; rw [hs] at ht; cases ht
      · rw [dropLease_job] at hx
        simpa using (h k).scheduled x hx hs
  · refine (h k).grow ?_ (by simp) (by simp) (.inl (by simp [hk]))
    simp [hid, hst.2, hk]

theorem Reports.active {now : Time} {r : Result} {b b' : Board} (hr : b.Reports now r b') (h : b.Active) :
    b'.Active := by
  cases hr with
  | missing _ => exact h
  | stale _ _ _ => exact h
  | completed hst _ _ =>
    exact h.write_terminal hst rfl rfl fun hp => isValidTransition_to_completed.2 (.inl hp)
  | @buried j hst _ _ _ =>
    have hw : ((b.dropLease r.jobID).write j { j with status := .failed, lastError := r.error.getD "" }).Active :=
      h.write_terminal hst rfl rfl fun hp => isValidTransition_to_failed.2 (.inl hp)
    exact fun k => ⟨(hw k).pending, (hw k).scheduled⟩
  | @retried j hst _ _ _ =>
    intro k
    by_cases hk : k = r.jobID
    · subst hk
      refine ⟨fun x hx hp => ?_, fun _ _ _ => by simp⟩
      rw [withDelayed_job, write_job] at hx
      split at hx
      · cases hx; cases hp
      · rename_i hn
        rw [dropLease_job, hst.1] at hx; cases hx
        exact absurd ⟨isValidTransition_to_scheduled.2 (.inl hp), hst.2.symm⟩ hn
    · refine (h k).grow ?_ (by simp) (by simp [hk]) (.inl (by simp [hk]))
      simp [Scheduler.retryJob, hst.2, hk]

theorem Promotes.active {now : Time} {b b' : Board} (hp : b.Promotes now b') (h : b.Active) : b'.Active := by
  intro k
  cases hp with
  | wait => exact h k
  | @drop id rest hids hnone =>
    by_cases hk : k = id
    · subst hk
      exact activeAt_of_status fun j hj => by rw [withDelayed_job, hnone] at hj; cases hj
    · exact (h k).grow rfl (fun hin => hin) (mem_rest hids hk) (.inl rfl)
  | @refused id rest j hids hst _ hv =>
    by_cases hk : k = id
    · subst hk
      refine activeAt_of_status fun x hx => ?_
      rw [withDelayed_job, hst.1] at hx; cases hx
      rw [← Bool.not_eq_true, isValidTransition_to_pending, not_or] at hv
      exact hv
    · exact (h k).grow rfl (fun hin => hin) (mem_rest hids hk) (.inl rfl)
  | @promoted id rest j hids hst _ _ =>
    by_cases hk : k = id
    · subst hk
      refine ⟨fun _ _ _ => .inl (by simp), fun x hx hs => ?_⟩
      rw [withReady_job, withDelayed_job, setJob_job, if_pos hst.2.symm] at hx
      cases hx; cases hs
    · refine (h k).grow ?_ (by simp [hk]) (mem_rest hids hk) (.inl rfl)
      simp [hst.2, hk]

theorem Recovers.active {w : Int} {b b' : Board} (hr : b.Recovers w b') (h : b.Active) : b'.Active := by
  intro k
  refine ⟨fun j hj hp => ?_, fun j hj hs => ?_⟩
  · rw [hr.job] at hj
    by_cases hl : b.LeasedTo w k
    · refine .inl (Multiset.count_pos.1 ?_)
      rw [hr.requeued k j hl hj hp]; omega
    · obtain ⟨hlease, hcount⟩ := hr.kept k hl
      rcases (h k).pending j hj hp with hin | hsome
      · exact .inl (Multiset.count_pos.1 (by rw [hcount]; exact Multiset.count_pos.2 hin))
      · exact .inr (by rw [hlease]; exact hsome)
  · rw [hr.job] at hj
    rw [hr.delayed]
    exact (h k).scheduled j hj hs

theorem Rounds.active {r : Scheduler.Round} {b b' : Board} {gs : List Grant} (hr : b.Rounds r gs b') (h : b.Active) :
    b'.Active := by
  cases hr with
  | workers => exact h
  | dispatches hd => exact hd.active h
  | reports hr => exact hr.active h
  | promotes hp => exact hp.active h
  | recovers hr => exact hr.active h

/-! ## Every step -/

/-- A new job that is pushed onto its queue. -/
theorem Active.submit {b : Board} (h : b.Active) {i : Input} {id : Int} {q : QueueRef} {j : Job}
    (hi : i.newJob id = some (q, j)) : ((b.setJob j).push j.id q).Active := by
  have hq : (q = .priority ∧ j.status = .pending) ∨ (q = .delay ∧ j.status = .scheduled) := by
    cases i <;> cases hi
    · exact .inl ⟨rfl, rfl⟩
    · exact .inr ⟨rfl, rfl⟩
    · exact .inl ⟨rfl, rfl⟩
  intro k
  rcases hq with ⟨rfl, hst⟩ | ⟨rfl, hst⟩
  · by_cases hk : k = j.id
    · subst hk
      refine ⟨fun _ _ _ => .inl (by simp [push]), fun x hx hs => ?_⟩
      simp only [push, withReady_job, setJob_job, if_true] at hx
      cases hx; rw [hst] at hs; cases hs
    · exact (h k).grow (by simp [push, hk]) (by simp [push, hk]) (fun hin => hin) (.inl rfl)
  · by_cases hk : k = j.id
    · subst hk
      refine ⟨fun x hx hp => ?_, fun _ _ _ => by simp [push]⟩
      simp only [push, withDelayed_job, setJob_job, if_true] at hx
      cases hx; rw [hst] at hp; cases hp
    · exact (h k).grow (by simp [push, hk]) (fun hin => hin) (by simp [push, hk]) (.inl rfl)

/-- Every step keeps active jobs active, but for a submission that Raft applies. -/
theorem Step.active {raft : Option RaftReply} {n n' : Int} {b b' : Board} {i : Input} {gs : List Grant}
    (hs : b.Step raft n i gs n' b') (h : b.Active) (hc : raft = some .applied → i.newJob (n + 1) = none) :
    b'.Active := by
  cases hs with
  | submitted _ hi => exact h.submit hi
  | committed hr hi => rw [hc hr] at hi; cases hi
  | @cancelled id j hst _ =>
    intro k
    by_cases hk : k = id
    · subst hk
      refine activeAt_of_terminal fun x hx => ?_
      rw [setJob_job, if_pos hst.2.symm] at hx
      cases hx; rfl
    · exact (h k).grow (by simp [hst.2, hk]) (fun hin => hin) (fun hin => hin) (.inl rfl)
  | @deleted id =>
    intro k
    by_cases hk : k = id
    · subst hk
      exact activeAt_of_status fun x hx => by simp at hx
    · exact (h k).grow (by simp [hk]) (fun hin => hin) (fun hin => hin) (.inl rfl)
  | rejected _ | deduplicated _ | notCancelled | notDeleted => exact h
  | rounds hr => exact hr.active h

end Board

namespace Engine

variable {σ : Type} [LawfulStore σ]

/-- From the empty store, after every run of the standalone engine, no active job is stranded. -/
theorem standalone_active (available : Chan WorkerClient) (broker : Option Broker) (is : List Input) :
    (standalone.exec (new (Store.empty : σ) available broker) is).board.Active := by
  have hrun : (standalone.exec (new (Store.empty : σ) available broker) is).Sound ∧
      (standalone.exec (new (Store.empty : σ) available broker) is).board.Active := by
    refine Machine.exec_inv (P := fun e : Engine σ => e.Sound ∧ e.board.Active) ⟨sound_new available broker, ?_⟩
      (fun e i h => ?_) is
    · intro id
      refine Board.activeAt_of_status fun j hj => ?_
      have hnone : Store.get (Store.empty : σ) id = none := LawfulStore.get_empty id
      rw [show (new (Store.empty : σ) available broker).board.job id = none from hnone] at hj
      cases hj
    · exact ⟨step_sound none h.1 i, (step_board none h.1.wf i).active h.2 (fun hr => by cases hr)⟩
  exact hrun.2

/-! ## The leader -/

/-- The jobs whose submission returned without an error in a step. -/
def returned (raft : Option RaftReply) (e : Engine σ) : Input → List Job
  | .submitJob jobType priority => (e.submitJob raft jobType priority).1.toOption.toList
  | .submitJobAt jobType priority runAt => (e.submitJobAt raft jobType priority runAt).1.toOption.toList
  | .submitJobIdempotent key jobType priority =>
    (e.submitJobIdempotent raft key jobType priority).1.toOption.toList.map Prod.fst
  | _ => []

/-- The engine of a node that leads: each call comes with what raft does to its proposal. The outputs are
the jobs whose submission returned without an error. -/
def leading : Machine (Engine σ) (RaftReply × Input) Job :=
  ⟨fun e p => ((e.step (some p.1) p.2).1, e.returned (some p.1) p.2)⟩

/-- `SubmitJobIdempotent` finds its key and returns the job that has it. -/
def Deduplicates (e : Engine σ) : Input → Prop
  | .submitJobIdempotent key _ _ => key ≠ "" ∧ (Store.findByIdempotencyKey e.scheduler.store key).isSome = true
  | _ => False

/-- The call is a submission past the idempotency check, and its `add_job` is applied: `FSM.Apply` runs and the
store takes the job. -/
def AppliesJob (e : Engine σ) (p : RaftReply × Input) : Prop :=
  p.1 = .applied ∧ ¬ e.Deduplicates p.2 ∧
    ∃ q j st, p.2.newJob (e.nextJobID + 1) = some (q, j) ∧ Store.add e.scheduler.store j = .ok st

/-- After a rebuild every active job is queued. -/
theorem rebuild_active {e : Engine σ} (h : e.scheduler.WF) (ord₁ ord₂ : RangeOrder Int) :
    (e.rebuild ord₁ ord₂).board.Active := by
  obtain ⟨-, -, pend, sched, hr⟩ := Scheduler.rebuildQueuesFromStore_board h ord₁ ord₂
  intro id
  rw [show (e.rebuild ord₁ ord₂).board = _ from hr.board]
  refine ⟨fun j hj hp => .inl ?_, fun j hj hs => ?_⟩
  · have hmem := (hr.memPending id).2 ⟨j, hj, hp⟩
    simp [hmem]
  · have hmem := (hr.memScheduled id).2 ⟨j, hj, hs⟩
    simp [hmem]

/-- All three submissions end here. If the store refuses the job, nothing happens. -/
theorem accept_refused {e : Engine σ} (what : String) (q : QueueRef) {j : Job}
    (h : ∀ st, Store.add e.scheduler.store j ≠ .ok st) :
    (e.accept (some .applied) what q j).2.scheduler = e.scheduler := by
  cases hadd : Store.add e.scheduler.store j with
  | ok st => exact absurd hadd (h st)
  | error err =>
    simp only [accept, propose_addJob, hadd]
    rfl

/-- If the store takes it, it is returned, stored, and in no queue. -/
theorem accept_applied {e : Engine σ} (what : String) (q : QueueRef) {j : Job} {st : σ}
    (hadd : Store.add e.scheduler.store j = .ok st) (hun : e.board.Unused j.id)
    (hst : j.status = .pending ∨ j.status = .scheduled) :
    (e.accept (some .applied) what q j).1 = .ok j ∧ ¬ (e.accept (some .applied) what q j).2.board.ActiveAt j.id := by
  have heq : e.accept (some .applied) what q j = (.ok j, e.withStore st) := by
    simp only [accept, propose_addJob, hadd]
    rfl
  have hb : (e.withStore st).board = e.board.setJob j := board_add hadd
  rw [heq]
  refine ⟨rfl, fun hact => ?_⟩
  rw [hb] at hact
  rcases hst with hst | hst
  · rcases hact.pending j (by simp) hst with hin | hsome
    · exact hun.ready hin
    · rw [Board.setJob_lease, hun.lease] at hsome; cases hsome
  · exact hun.delayed (hact.scheduled j (by simp) hst)

/-- A submission whose job is not applied leaves the scheduler alone. -/
theorem submission_refused {e : Engine σ} {i : Input} {q : QueueRef} {j : Job}
    (hi : i.newJob (e.nextJobID + 1) = some (q, j)) (hno : ¬ e.AppliesJob (.applied, i)) :
    (e.step (some .applied) i).1.scheduler = e.scheduler := by
  have hadd : ¬ e.Deduplicates i → ∀ st, Store.add e.scheduler.store j ≠ .ok st :=
    fun hd st hst => hno ⟨rfl, hd, q, j, st, hi, hst⟩
  cases i with
  | submitJob jobType priority =>
    cases hi
    exact accept_refused (e := e.takeID) "add_job" .priority (hadd id)
  | submitJobAt jobType priority runAt =>
    cases hi
    exact accept_refused (e := e.takeID) "add_job_at" .delay (hadd id)
  | submitJobIdempotent key jobType priority =>
    cases hi
    show (e.submitJobIdempotent (some .applied) key jobType priority).2.scheduler = e.scheduler
    unfold submitJobIdempotent
    by_cases hkey : key = ""
    · subst hkey
      rw [if_pos rfl]
      exact accept_refused (e := e.takeID) "add_job" .priority (hadd fun hd => hd.1 rfl)
    · rw [if_neg hkey]
      cases hf : Store.findByIdempotencyKey e.scheduler.store key with
      | some existing => rfl
      | none =>
        have hnd : ¬ e.Deduplicates (.submitJobIdempotent key jobType priority) := by
          rintro ⟨-, hsome⟩
          rw [hf] at hsome; cases hsome
        exact accept_refused (e := e.takeID) "add_job (idempotent)" .priority (hadd hnd)
  | cancelJob _ | deleteJob _ | round _ => cases hi

/-- A step that applies no job keeps the store coherent and the active jobs active. -/
theorem leading_step {e : Engine σ} {p : RaftReply × Input} (h : e.scheduler.WF ∧ e.board.Active)
    (hno : ¬ e.AppliesJob p) : (e.step (some p.1) p.2).1.scheduler.WF ∧ (e.step (some p.1) p.2).1.board.Active := by
  obtain ⟨reply, i⟩ := p
  by_cases hr : reply = .applied
  · subst hr
    cases hi : i.newJob (e.nextJobID + 1) with
    | none => exact ⟨step_wf h.1 i fun _ hn => absurd hi hn, (step_board _ h.1 i).active h.2 fun _ => hi⟩
    | some p =>
      have hsame := submission_refused (q := p.1) (j := p.2) hi hno
      unfold Engine.board
      rw [hsame]
      exact h
  · have hadds : ¬ Adds (some reply) := by
      rintro (hn | hs)
      · cases hn
      · cases hs; exact hr rfl
    refine ⟨step_wf h.1 i fun ha _ => absurd ha hadds, (step_board _ h.1 i).active h.2 fun ha => ?_⟩
    cases ha; exact absurd rfl hr

theorem mem_returned {x : Except String Job} {j : Job} (h : x = .ok j) : j ∈ x.toOption.toList := by
  rw [h]; exact List.mem_singleton_self j

theorem mem_returned_fst {x : Except String Job} {j : Job} (h : x = .ok j) :
    j ∈ (x.map fun j => (j, false)).toOption.toList.map Prod.fst := by
  rw [h]; exact List.mem_singleton_self j

/-- A submission whose job is applied under an unused id returns a job that is stranded. -/
theorem returned_stranded {e : Engine σ} (hs : e.Sound) {p : RaftReply × Input} (h : e.AppliesJob p) :
    ∃ j ∈ e.returned (some p.1) p.2, ¬ (e.step (some p.1) p.2).1.board.ActiveAt j.id := by
  obtain ⟨reply, i⟩ := p
  obtain ⟨hr, hnd, q, j, st, hi, hadd⟩ := h
  dsimp only at hr hnd hi
  subst hr
  have hun : e.takeID.board.Unused (e.nextJobID + 1) := hs.bounded (e.nextJobID + 1) (by omega)
  cases i with
  | submitJob jobType priority =>
    cases hi
    obtain ⟨hok, hact⟩ := accept_applied (e := e.takeID) "add_job" .priority hadd hun (.inl rfl)
    exact ⟨_, mem_returned hok, hact⟩
  | submitJobAt jobType priority runAt =>
    cases hi
    obtain ⟨hok, hact⟩ := accept_applied (e := e.takeID) "add_job_at" .delay hadd hun (.inr rfl)
    exact ⟨_, mem_returned hok, hact⟩
  | submitJobIdempotent key jobType priority =>
    cases hi
    show ∃ j ∈ (e.submitJobIdempotent (some .applied) key jobType priority).1.toOption.toList.map Prod.fst,
      ¬ (e.submitJobIdempotent (some .applied) key jobType priority).2.board.ActiveAt j.id
    unfold submitJobIdempotent
    by_cases hkey : key = ""
    · subst hkey
      obtain ⟨hok, hact⟩ := accept_applied (e := e.takeID) "add_job" .priority hadd hun (.inl rfl)
      rw [if_pos rfl]
      exact ⟨_, mem_returned_fst hok, hact⟩
    · obtain ⟨hok, hact⟩ := accept_applied (e := e.takeID) "add_job (idempotent)" .priority hadd hun (.inl rfl)
      rw [if_neg hkey]
      cases hf : Store.findByIdempotencyKey e.scheduler.store key with
      | some existing => exact absurd ⟨hkey, by rw [hf]; rfl⟩ hnd
      | none => exact ⟨_, mem_returned_fst hok, hact⟩
  | cancelJob _ | deleteJob _ | round _ => cases hi

/-- After a claim of leadership, active jobs are never stranded in a run in which no submission has its job
applied. In every other run of a node whose counter is above the ids in use, the first such
submission returns a job that is stranded. -/
theorem leading_active (e : Engine σ) (h : e.scheduler.WF) (ord₁ ord₂ : RangeOrder Int)
    (is : List (RaftReply × Input)) :
    (leading.EveryStep (fun _ e p => ¬ e.AppliesJob p) (e.rebuild ord₁ ord₂) is →
      (leading.exec (e.rebuild ord₁ ord₂) is).board.Active) ∧
    (e.Sound →
      ((∀ pre, pre <+: is → ∀ j ∈ leading.trace (e.rebuild ord₁ ord₂) pre,
          (leading.exec (e.rebuild ord₁ ord₂) pre).board.ActiveAt j.id) ↔
        leading.EveryStep (fun _ e p => ¬ e.AppliesJob p) (e.rebuild ord₁ ord₂) is)) := by
  have hrun : ∀ js, leading.EveryStep (fun _ e p => ¬ e.AppliesJob p) (e.rebuild ord₁ ord₂) js →
      (leading.exec (e.rebuild ord₁ ord₂) js).board.Active := by
    intro js hjs
    exact (Machine.EveryStep.inv (P := fun _ e => e.scheduler.WF ∧ e.board.Active)
      ⟨rebuild_wf h ord₁ ord₂, rebuild_active h ord₁ ord₂⟩ (fun _ _ _ hP hno => leading_step hP hno) hjs).2
  refine ⟨hrun is, fun hs => ⟨fun hact pre p post heq happ => ?_, fun hno pre hpre j _ => ?_⟩⟩
  · have hsound : (leading.exec (e.rebuild ord₁ ord₂) pre).Sound :=
      Machine.exec_inv (M := leading) (rebuild_sound hs ord₁ ord₂) (fun _ p hP => step_sound (some p.1) hP p.2) pre
    obtain ⟨j, hj, hstr⟩ := returned_stranded hsound happ
    refine hstr ?_
    have hsnoc := hact (pre ++ [p]) ⟨post, by simp [heq]⟩ j ?_
    · rw [Machine.exec_append] at hsnoc; exact hsnoc
    · rw [Machine.trace_append]
      exact List.mem_append_right _ (List.mem_append_left _ hj)
  · obtain ⟨post, rfl⟩ := hpre
    exact hrun pre hno.init j.id

/-- A node restarts with one pending job, claims leadership, fails to propose a second one and dispatches. -/
theorem leading_active_refused_submission :
    (leading.exec (((new (Store.empty : MemoryStore) (Chan.make 1) none).submitJob none "email" 1).2.rebuild
        .stored .stored)
      [(.failed "timed out", .submitJob "report" 2),
        (.applied, .round (.dispatchLoop 5 fun _ _ => none))]).board.Active := by
  refine (leading_active _ (step_sound none (sound_new _ _) (.submitJob "email" 1)).wf _ _ _).1 ?_
  rw [Machine.everyStep_cons, Machine.everyStep_cons]
  refine ⟨?_, ?_, Machine.everyStep_nil⟩
  · rintro ⟨happ, -⟩; cases happ
  · rintro ⟨-, -, q, j, st, hi, -⟩; cases hi

/-- A leader with an empty store: the submission returns a pending job that is neither queued nor leased. -/
theorem applied_submission_stranded :
    let e := (new (Store.empty : MemoryStore) (Chan.make 1) none).rebuild .stored .stored
    let e' := leading.exec e [(.applied, .submitJob "email" 1)]
    leading.trace e [(.applied, .submitJob "email" 1)] = [Job.newJob 1 "email" 1] ∧
      Store.get e'.scheduler.store 1 = some (Job.newJob 1 "email" 1) ∧
      e'.scheduler.priorityQueue.items = #[] ∧ e'.scheduler.leases.get 1 = none ∧ ¬ e'.board.ActiveAt 1 := by
  refine ⟨rfl, rfl, rfl, rfl, fun h => ?_⟩
  rcases h.pending (Job.newJob 1 "email" 1) rfl rfl with hin | hsome
  · exact absurd hin (Multiset.notMem_zero 1)
  · cases hsome

end Engine

end Quorum
