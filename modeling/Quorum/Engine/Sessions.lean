/-
The ids a node gives out, over all its sessions. The counter is memory; at each boot `Restore` sets it to the largest
id in the store. A job that was deleted does not count any more, so its id may be given out again: the ids only grow
exactly if at every restart the largest id given out so far is still reached by a stored job.
-/
import Quorum.Engine.Server
import Quorum.Store.Bolt

namespace Quorum

namespace Engine

variable {σ : Type} [LawfulStore σ]

/-- The loop over the stored jobs ends at its start or at the id of one of them. -/
theorem foldl_maxID_mem : ∀ (l : List Job) (m : Int),
    l.foldl (fun m j => if j.id > m then j.id else m) m = m ∨
      ∃ j ∈ l, l.foldl (fun m j => if j.id > m then j.id else m) m = j.id
  | [], _ => .inl rfl
  | x :: l, m => by
    rw [List.foldl_cons]
    rcases foldl_maxID_mem l (if x.id > m then x.id else m) with h | ⟨j, hj, h⟩
    · rw [h]
      split
      · exact .inr ⟨x, List.mem_cons_self, rfl⟩
      · exact .inl rfl
    · exact .inr ⟨j, List.mem_cons_of_mem x hj, h⟩

/-- `Restore` sets the counter to zero or to a stored id. -/
theorem boot_nextJobID {st : σ} (h : LawfulStore.WF st) (available : Chan WorkerClient) (broker : Option Broker)
    (ord ord₁ ord₂ ord₃ ord₄ : RangeOrder Int) :
    0 ≤ (boot st available broker ord ord₁ ord₂ ord₃ ord₄).nextJobID ∧
      ((boot st available broker ord ord₁ ord₂ ord₃ ord₄).nextJobID = 0 ∨
        ∃ j, Store.get st (boot st available broker ord ord₁ ord₂ ord₃ ord₄).nextJobID = some j) := by
  have hmax : (boot st available broker ord ord₁ ord₂ ord₃ ord₄).nextJobID =
      (Store.list ord st).foldl (fun m j => if j.id > m then j.id else m) 0 := rfl
  rw [hmax]
  refine ⟨(le_foldl_maxID _ 0).1, ?_⟩
  rcases foldl_maxID_mem (Store.list ord st) 0 with h0 | ⟨j, hj, hid⟩
  · exact .inl h0
  · rw [hid]
    exact .inr ⟨j, (LawfulStore.mem_list h).1 hj⟩

end Engine

namespace Server

variable {σ : Type} [LawfulStore σ]

/-- The ids of the new jobs that submissions have returned. -/
def issued (tr : List Shown) : List Int := tr.filterMap fun x => match x with
  | .returned _ j false => some j.id
  | _ => none

theorem issued_append (tr tr' : List Shown) : issued (tr ++ tr') = issued tr ++ issued tr' := List.filterMap_append

theorem issued_none {tr : List Shown} (h : ∀ key j, .returned key j false ∉ tr) : issued tr = [] := by
  refine List.filterMap_eq_nil_iff.2 fun x hx => ?_
  cases x with
  | returned key j duplicate =>
    cases duplicate with
    | true => rfl
    | false => exact absurd hx (h key j)
  | started id => rfl
  | granted g => rfl

theorem answer_accept (key what : String) (q : QueueRef) (j : Job) (e : Engine σ) :
    issued (answer key (e.accept none what q j).1) = [] ∨ issued (answer key (e.accept none what q j).1) = [j.id] := by
  unfold Engine.accept
  dsimp only
  split
  · exact .inl rfl
  · exact .inr rfl

/-- An act gives out no id, or the next one. -/
theorem issued_step (s : Server σ) (a : Act) :
    issued (s.step a).2 = [] ∨
      issued (s.step a).2 = [s.engine.nextJobID + 1] ∧ (s.step a).1.engine.nextJobID = s.engine.nextJobID + 1 ∧
        a.isRestart = false := by
  have hadds : ∀ {j : Job}, s.Adds a j → (s.step a).1.engine.nextJobID = s.engine.nextJobID + 1 := fun h => h.nextJobID
  have hstep := s.step_outcome a
  generalize s.step a = p at hstep hadds ⊢
  cases hstep with
  | submitJob =>
    rcases answer_accept "" "add_job" .priority (Job.newJob (s.engine.nextJobID + 1) _ _) s.engine.takeID with h | h
    · exact .inl h
    · exact .inr ⟨h, hadds .submitJob, rfl⟩
  | @submitJobAt jobType priority runAt =>
    rcases answer_accept "" "add_job_at" .delay
      { Job.newJob (s.engine.nextJobID + 1) jobType priority with status := .scheduled, nextRunAt := runAt }
      s.engine.takeID with h | h
    · exact .inl h
    · exact .inr ⟨h, hadds .submitJobAt, rfl⟩
  | @addKeyed key jobType priority hsub =>
    rcases answer_accept key "add_job (idempotent)" .priority
      { Job.newJob (s.engine.nextJobID + 1) jobType priority with idempotencyKey := key } s.engine.takeID with h | h
    · exact .inl h
    · exact .inr ⟨h, hadds (.addKeyed hsub), rfl⟩
  | takeReady =>
    refine .inl (issued_none fun key j hj => ?_)
    obtain ⟨k, -, hk⟩ := List.mem_map.1 hj
    cases hk
  | dispatch =>
    refine .inl (issued_none fun key j hj => ?_)
    obtain ⟨g, -, hg⟩ := List.mem_map.1 hj
    cases hg
  | idle | found | notFound | cancelJob | deleteJob | workers | readResult | writeResult | readDelayed | writeDelayed |
      releaseWorker | requeueReleased | finish | restart => exact .inl rfl

theorem accept_ok {e : Engine σ} {j : Job} {st : σ} (h : Store.add e.scheduler.store j = .ok st) (what : String)
    (q : QueueRef) : (e.accept none what q j).1 = .ok j := by
  simp only [Engine.accept, h]

/-- Without a key a submission on a sound server succeeds. -/
theorem submitJob_issued {s : Server σ} (h : s.Sound) (jobType : String) (priority : Int) :
    issued (s.step (.submitJob jobType priority)).2 = [s.engine.nextJobID + 1] := by
  obtain ⟨st, hadd⟩ := LawfulStore.add_ok (h.fresh (a := .submitJob jobType priority) .submitJob) rfl
  have hok := accept_ok (e := s.engine.takeID) hadd "add_job" .priority
  exact congrArg (fun p => issued (answer "" p)) hok

/-- What a submission right after a restart returns. -/
theorem restarted_issued {s : Server σ} (h : s.Sound) (available : Chan WorkerClient) (broker : Option Broker)
    (ord ord₁ ord₂ ord₃ ord₄ : RangeOrder Int) (jobType : String) (priority : Int) :
    issued (server.trace s [.restart available broker ord ord₁ ord₂ ord₃ ord₄, .submitJob jobType priority]) =
      [(Engine.boot s.store available broker ord ord₁ ord₂ ord₃ ord₄).nextJobID + 1] := by
  have hs := step_sound h (.restart available broker ord ord₁ ord₂ ord₃ ord₄)
  have hsub := submitJob_issued hs jobType priority
  rw [Machine.trace_cons, Machine.trace_cons, Machine.trace_nil, List.append_nil]
  exact hsub

/-- At a restart every id given out so far is reached by the id of a stored job. -/
def RestartKeeps (tr : List Shown) (s : Server σ) (a : Act) : Prop :=
  a.isRestart = true → ∀ id ∈ issued tr, ∃ k j, Store.get s.store k = some j ∧ id ≤ k

/-- What every run keeps: the counter is not negative and ids are positive. -/
structure Numbered (tr : List Shown) (s : Server σ) : Prop where
  sound : s.Sound
  counter : 0 ≤ s.engine.nextJobID
  positive : ∀ id ∈ issued tr, 0 < id

theorem Numbered.step {tr : List Shown} {s : Server σ} (h : Numbered tr s) (a : Act) :
    Numbered (tr ++ (s.step a).2) (s.step a).1 := by
  have hcounter : 0 ≤ (s.step a).1.engine.nextJobID := by
    cases ha : a.isRestart with
    | false => exact Int.le_trans h.counter (nextJobID_step ha)
    | true =>
      cases a with
      | restart available broker ord ord₁ ord₂ ord₃ ord₄ =>
        exact (Engine.boot_nextJobID h.sound.wf available broker ord ord₁ ord₂ ord₃ ord₄).1
      | _ => cases ha
  refine ⟨step_sound h.sound a, hcounter, fun id hid => ?_⟩
  rw [issued_append, List.mem_append] at hid
  rcases hid with hid | hid
  · exact h.positive id hid
  · have hpos := h.counter
    rcases issued_step s a with hnone | ⟨hone, -, -⟩
    · rw [hnone] at hid; cases hid
    · rw [hone] at hid
      cases List.mem_singleton.1 hid
      omega

/-- The ids given out grow, up to the counter. -/
structure Growing (tr : List Shown) (s : Server σ) : Prop where
  sound : s.Sound
  grow : (issued tr).Pairwise (· < ·)
  le : ∀ id ∈ issued tr, id ≤ s.engine.nextJobID

theorem Growing.step {tr : List Shown} {s : Server σ} (h : Growing tr s) {a : Act} (ha : RestartKeeps tr s a) :
    Growing (tr ++ (s.step a).2) (s.step a).1 := by
  have hs := step_sound h.sound a
  -- the ids given out before stay below the counter
  have hle : ∀ id ∈ issued tr, id ≤ (s.step a).1.engine.nextJobID := by
    intro id hid
    cases hr : a.isRestart with
    | false => exact Int.le_trans (h.le id hid) (nextJobID_step hr)
    | true =>
      obtain ⟨k, j, hj, hk⟩ := ha hr id hid
      cases a with
      | restart available broker ord ord₁ ord₂ ord₃ ord₄ =>
        refine Int.le_trans hk (hs.stored k j ?_)
        rw [show (s.step (.restart available broker ord ord₁ ord₂ ord₃ ord₄)).1.store = s.store from
          boot_store h.sound.wf available broker ord ord₁ ord₂ ord₃ ord₄]
        exact hj
      | _ => cases hr
  rcases issued_step s a with hnone | ⟨hone, hnext, -⟩
  · refine ⟨hs, ?_, ?_⟩
    · rw [issued_append, hnone, List.append_nil]; exact h.grow
    · rw [issued_append, hnone, List.append_nil]; exact hle
  · refine ⟨hs, ?_, fun id hid => ?_⟩
    · rw [issued_append, hone]
      refine List.pairwise_append.2 ⟨h.grow, List.pairwise_singleton _ _, fun id hid k hk => ?_⟩
      cases List.mem_singleton.1 hk
      have hold := h.le id hid
      omega
    · rw [issued_append, hone, List.mem_append] at hid
      rcases hid with hid | hid
      · exact hle id hid
      · cases List.mem_singleton.1 hid
        omega

/-- Over all sessions, a submission would at every moment return an id above all those given out before, exactly if at
every restart they are all reached by stored jobs. -/
theorem ids_grow_iff (st : σ) (hst : LawfulStore.WF st) (available : Chan WorkerClient) (broker : Option Broker)
    (ord ord₁ ord₂ ord₃ ord₄ : RangeOrder Int) (acts : List Act) :
    (∀ pre, pre <+: acts → ∀ jobType priority, (issued (server.trace (start st available broker ord ord₁ ord₂ ord₃ ord₄)
        (pre ++ [.submitJob jobType priority]))).Pairwise (· < ·)) ↔
      server.EveryStep RestartKeeps (start st available broker ord ord₁ ord₂ ord₃ ord₄) acts := by
  have hstart := start_sound hst available broker ord ord₁ ord₂ ord₃ ord₄
  have hcounter : 0 ≤ (start st available broker ord ord₁ ord₂ ord₃ ord₄).engine.nextJobID :=
    (Engine.boot_nextJobID hst available broker ord ord₁ ord₂ ord₃ ord₄).1
  generalize start st available broker ord ord₁ ord₂ ord₃ ord₄ = s at hstart hcounter
  constructor
  · rintro hall pre a post rfl ha id hid
    cases a with
    | restart available broker ord ord₁ ord₂ ord₃ ord₄ =>
      have hnum : Numbered (server.trace s pre) (server.exec s pre) :=
        Machine.EveryStep.inv (M := server) (C := fun _ _ _ => True) (P := Numbered)
          ⟨hstart, hcounter, fun id hid => (by cases hid)⟩ (fun _ _ a h _ => h.step a) fun _ _ _ _ => trivial
      have hnext := (Engine.boot_nextJobID hnum.sound.wf available broker ord ord₁ ord₂ ord₃ ord₄).2
      have hpos := hnum.positive id hid
      -- the id that a submission right after the restart returns is above `id`
      have hgrow := hall (pre ++ [.restart available broker ord ord₁ ord₂ ord₃ ord₄]) ⟨post, by simp⟩ "" 0
      rw [List.append_assoc, Machine.trace_append, issued_append, List.singleton_append,
        restarted_issued hnum.sound] at hgrow
      have hlt := (List.pairwise_append.1 hgrow).2.2 id hid _ (List.mem_singleton_self _)
      rcases hnext with hzero | ⟨j, hj⟩
      · omega
      · exact ⟨_, j, hj, by omega⟩
    | _ => cases ha
  · rintro hc pre ⟨post, rfl⟩ jobType priority
    have hrun : Growing (server.trace s (pre ++ [.submitJob jobType priority]))
        (server.exec s (pre ++ [.submitJob jobType priority])) := by
      refine Machine.EveryStep.inv (M := server) (C := RestartKeeps) (P := Growing)
        ⟨hstart, List.Pairwise.nil, fun id hid => (by cases hid)⟩ (fun _ _ a h ha => h.step ha) ?_
      exact Machine.everyStep_snoc.2 ⟨hc.init, fun hr => by cases hr⟩
    exact hrun.grow

/-- Two jobs are submitted and the first is deleted; after a restart the ids go on with 3. -/
theorem ids_grow_first_deleted :
    let acts : List Act := [.submitJob "email" 1, .submitJob "email" 1, .deleteJob 1,
      .restart (Chan.make 1) none .stored .stored .stored .stored .stored, .submitJob "email" 1]
    issued (server.trace (start (Store.empty : BoltStore) (Chan.make 1) none .stored .stored .stored .stored .stored)
        (acts ++ [.submitJob "email" 1])) = [1, 2, 3, 4] ∧
      (issued (server.trace (start (Store.empty : BoltStore) (Chan.make 1) none .stored .stored .stored .stored .stored)
        (acts ++ [.submitJob "email" 1]))).Pairwise (· < ·) := by
  refine ⟨rfl, (ids_grow_iff Store.empty LawfulStore.wf_empty _ _ _ _ _ _ _ _).2 ?_ _ List.prefix_rfl "email" 1⟩
  simp only [Machine.everyStep_cons, Machine.everyStep_nil, and_true]
  refine ⟨fun h => (by cases h), fun h => (by cases h), fun h => (by cases h), fun _ id hid => ?_,
    fun h => (by cases h)⟩
  -- job 2 is still stored
  have hid' : id ∈ [1, 2] := hid
  refine ⟨2, Job.newJob 2 "email" 1, rfl, ?_⟩
  simp only [List.mem_cons, List.not_mem_nil, or_false] at hid'
  omega

/-- Job 1 is submitted and deleted, and the server restarts: the next submission returns job 1 once more. -/
theorem id_returned_twice :
    issued (server.trace (start (Store.empty : BoltStore) (Chan.make 1) none .stored .stored .stored .stored .stored)
      [.submitJob "email" 1, .deleteJob 1, .restart (Chan.make 1) none .stored .stored .stored .stored .stored,
        .submitJob "email" 1]) = [1, 1] := rfl

end Server

end Quorum
