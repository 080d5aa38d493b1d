/-
Lost updates. `Store.Update` checks the transition of the status and overwrites the whole record, so a copy that was
read before a failure was counted takes the count back when it is written. Only `resultLoop` counts failures, and
it is one goroutine: the retry counts never go down exactly if the accepted updates of `ProcessDelayedJobs`
and of the runners find the count they have read.
-/
import Quorum.Engine.Server
import Quorum.Store.Memory

namespace Quorum

namespace Server

variable {σ : Type} [LawfulStore σ]

/-- The act takes no counted failure back. -/
def KeepsCounts (s : Server σ) (a : Act) : Prop :=
  ∀ id x y, Store.get s.store id = some x → Store.get (s.step a).1.store id = some y → x.retryCount ≤ y.retryCount

/-- An accepted update of `ProcessDelayedJobs` or of a runner finds the retry count of its copy. -/
def FindsCount (s : Server σ) (a : Act) : Prop :=
  ∀ c j old, s.WritesBack a c j → (∀ now, a ≠ .writeResult now) → Store.get s.store j.id = some old →
    isValidTransition old.status j.status = true → old.retryCount = c.retryCount

omit [LawfulStore σ] in
/-- Only `resultLoop` counts. -/
theorem WritesBack.count {s : Server σ} {a : Act} {c j : Job} (h : s.WritesBack a c j) :
    (∃ now r, a = .writeResult now ∧ s.reporting = some (r, c)) ∧ c.retryCount ≤ j.retryCount ∨
      (∀ now, a ≠ .writeResult now) ∧ j.retryCount = c.retryCount := by
  cases h with
  | completed hr => exact .inl ⟨⟨_, _, rfl, hr⟩, Int.le_refl _⟩
  | failed hr => exact .inl ⟨⟨_, _, rfl, hr⟩, Int.le_refl _⟩
  | retried hr =>
    refine .inl ⟨⟨_, _, rfl, hr⟩, ?_⟩
    simp only [Scheduler.retryJob]; omega
  | promoted _ => exact .inr ⟨fun _ h => (by cases h), rfl⟩
  | @finished n err c _ =>
    refine .inr ⟨fun _ h => (by cases h), ?_⟩
    cases err with
    | none => rfl
    | some e => simp only [Runner.finish]; split <;> rfl

/-- An update that the transition table allows is carried out. -/
theorem WritesBack.stored {s : Server σ} {a : Act} {c j old : Job} (h : s.WritesBack a c j)
    (ha : ∀ now, a ≠ .writeResult now) (hold : Store.get s.store j.id = some old)
    (hv : isValidTransition old.status j.status = true) : Store.get (s.step a).1.store j.id = some j := by
  obtain ⟨st, hu⟩ := LawfulStore.update_ok.2 ⟨old, hold, hv⟩
  have hget := LawfulStore.get_update hu j.id
  rw [if_pos rfl] at hget
  cases h with
  | completed _ | retried _ | failed _ => exact absurd rfl (ha _)
  | promoted hp =>
    simp only [step, hp]
    show Store.get (s.engine.scheduler.promote _ _).store _ = _
    unfold Scheduler.promote
    dsimp only
    rw [Scheduler.dropDelayed_store, show Store.update s.engine.scheduler.store _ = _ from hu]
    exact hget
  | finished hn =>
    simp only [step, hn]
    show Store.get (Store.tryUpdate s.store _) _ = _
    unfold Store.tryUpdate
    rw [hu]
    exact hget

/-- No copy is ahead of the stored job, and the copy of `resultLoop` has its count. -/
structure Counted (s : Server σ) : Prop where
  sound : s.Sound
  copies : ∀ c ∈ s.held, ∀ x, Store.get s.store c.id = some x → c.retryCount ≤ x.retryCount
  reporting : ∀ r c, s.reporting = some (r, c) → ∀ x, Store.get s.store c.id = some x → c.retryCount = x.retryCount

theorem Counted.keeps_iff {s : Server σ} (h : s.Counted) (a : Act) : s.KeepsCounts a ↔ s.FindsCount a := by
  constructor
  · intro hk c j old hw ha hold hv
    have hle := hk j.id old j hold (hw.stored ha hold hv)
    rw [hw.id_eq] at hold
    have hge := h.copies c hw.held old hold
    rcases hw.count with ⟨⟨now, r, rfl, -⟩, -⟩ | ⟨-, heq⟩
    · exact absurd rfl (ha now)
    · omega
  · intro hf id x y hx hy
    have hch := step_job h.sound.wf a id
    rw [hy] at hch
    generalize hz : some y = z at hch
    cases hch with
    | same => cases hz.trans hx; exact Int.le_refl _
    | added hadd hid =>
      rw [← hid, h.sound.fresh hadd] at hx
      cases hx
    | @written c j old hw hid hold hv =>
      cases hz
      cases hx.symm.trans hold
      have hidc := hw.id_eq
      rcases hw.count with ⟨⟨now, r, -, hr⟩, hle⟩ | ⟨ha, heq⟩
      · have hrep := h.reporting r c hr x (by rw [← hidc, hid]; exact hx)
        omega
      · have hfind := hf c y x hw ha (by rw [hid]; exact hx) hv
        omega
    | cancelled _ hold _ =>
      cases hz
      cases hx.symm.trans hold
      exact Int.le_refl _
    | deleted _ => cases hz

/-- Where the copy of `resultLoop` comes from. -/
theorem reporting_step {s : Server σ} {a : Act} {r : Result} {c : Job} (h : (s.step a).1.reporting = some (r, c)) :
    s.reporting = some (r, c) ∧ (∀ now, a ≠ .writeResult now) ∨
      (s.step a).1.store = s.store ∧ ∃ id, Store.get s.store id = some c := by
  have hstep := s.step_outcome a
  generalize s.step a = p at hstep h ⊢
  cases hstep with
  | idle hidle =>
    refine .inl ⟨h, ?_⟩
    rintro now rfl
    exact hidle fun hnone => by cases hnone.symm.trans h
  | readResult =>
    obtain ⟨j, hj, heq⟩ := Option.map_eq_some_iff.1 h
    cases heq
    exact .inr ⟨rfl, _, hj⟩
  | writeResult => cases h
  | restart => cases h
  | submitJob | submitJobAt | found | notFound | addKeyed | cancelJob | deleteJob | workers | takeReady
  | dispatch | readDelayed | writeDelayed | releaseWorker | requeueReleased | finish =>
    exact .inl ⟨h, fun _ ha => by cases ha⟩

theorem Counted.step {s : Server σ} (h : s.Counted) {a : Act} (hf : s.FindsCount a) : (s.step a).1.Counted := by
  have hkeep := (h.keeps_iff a).2 hf
  refine ⟨step_sound h.sound a, ?_, ?_⟩
  · exact copies_step h.sound a (R := fun c x => c.retryCount ≤ x.retryCount) (fun _ => Int.le_refl _) h.copies
      fun c id x y hx hy hle => Int.le_trans hle (hkeep id x y hx hy)
  · intro r c hr y hy
    rcases reporting_step hr with ⟨hr, ha⟩ | ⟨hstore, id, hget⟩
    · -- while `resultLoop` holds its copy nobody counts
      have hch := step_job h.sound.wf a c.id
      rw [hy] at hch
      generalize hz : some y = z at hch
      cases hch with
      | same => exact h.reporting r c hr y hz.symm
      | added hadd hid =>
        have hle := h.sound.held c (mem_held.2 (.inr (.inl ⟨r, hr⟩)))
        have hnew := hadd.id_eq
        omega
      | @written c' j old hw hid hold hv =>
        cases hz
        have hrep := h.reporting r c hr old hold
        have hfind := hf c' y old hw ha (by rw [hid]; exact hold) hv
        rcases hw.count with ⟨⟨now, _, rfl, -⟩, -⟩ | ⟨-, heq⟩
        · exact absurd rfl (ha now)
        · omega
      | @cancelled old _ hold _ =>
        cases hz
        exact h.reporting r c hr old hold
      | deleted _ => cases hz
    · rw [hstore] at hy
      have hid := LawfulStore.get_id h.sound.wf hget
      subst hid
      cases hget.symm.trans hy
      rfl

/-- In a run of a server no retry count ever goes down exactly if every accepted update of `ProcessDelayedJobs` and of
a runner finds the count its copy has. -/
theorem counts_kept_iff (st : σ) (hst : LawfulStore.WF st) (available : Chan WorkerClient) (broker : Option Broker)
    (ord ord₁ ord₂ ord₃ ord₄ : RangeOrder Int) (acts : List Act) :
    server.EveryStep (fun _ s a => s.KeepsCounts a) (start st available broker ord ord₁ ord₂ ord₃ ord₄) acts ↔
      server.EveryStep (fun _ s a => s.FindsCount a) (start st available broker ord ord₁ ord₂ ord₃ ord₄) acts := by
  have h0 : (start st available broker ord ord₁ ord₂ ord₃ ord₄).Counted :=
    ⟨start_sound hst available broker ord ord₁ ord₂ ord₃ ord₄, fun c hc => (by cases hc), fun r c hr => (by cases hr)⟩
  constructor
  · exact Machine.EveryStep.imp (P := fun _ s => s.Counted) h0 (fun _ s a h hk => h.step ((h.keeps_iff a).1 hk))
      fun _ s a h => (h.keeps_iff a).1
  · exact Machine.EveryStep.imp (P := fun _ s => s.Counted) h0 (fun _ s a h hf => h.step hf)
      fun _ s a h => (h.keeps_iff a).2

/-- A failure is counted, and the job is promoted after its backoff with the count it has. -/
theorem counts_kept_retried :
    server.EveryStep (fun _ s a => s.KeepsCounts a)
      (start (Store.empty : MemoryStore) ⟨1, [⟨7⟩], by decide⟩ none .stored .stored .stored .stored .stored)
      [.submitJob "email" 1, .takeReady, .dispatch 5 fun _ _ => none, .readResult failure, .writeResult 9,
        .readDelayed (99 * second), .writeDelayed] := by
  refine (counts_kept_iff Store.empty LawfulStore.wf_empty _ _ _ _ _ _ _ _).2 ?_
  simp only [Machine.everyStep_cons, Machine.everyStep_nil, and_true]
  refine ⟨?_, ?_, ?_, ?_, ?_, ?_, ?_⟩
  · intro c j old hw; cases hw
  · intro c j old hw; cases hw
  · intro c j old hw; cases hw
  · intro c j old hw; cases hw
  · intro c j old _ ha; exact absurd rfl (ha 9)
  · intro c j old hw; cases hw
  · intro c j old hw _ hold _
    cases hw with
    | promoted hp =>
      cases hp
      cases hold
      rfl

/-- Job 1 was re-queued when worker 7 was declared dead, and the late failure of worker 7 has made it scheduled when
it is dispatched to worker 8. Its backoff is over and `ProcessDelayedJobs` has read it; the failure of worker 8 is
counted as the second; the promotion writes the record with one. -/
theorem count_taken_back :
    let s := server.exec
      (start (Store.empty : MemoryStore) ⟨2, [⟨7⟩, ⟨8⟩], by decide⟩ none .stored .stored .stored .stored .stored)
      [.submitJob "email" 1, .takeReady, .dispatch 5 fun _ _ => none, .releaseWorker 7 .stored, .requeueReleased,
        .readResult failure, .writeResult 9, .takeReady, .dispatch 10 fun _ _ => none, .readDelayed (99 * second),
        .readResult failure, .writeResult (99 * second)]
    (Store.get s.store 1).map Job.retryCount = some 2 ∧
      (Store.get (server.exec s [.writeDelayed]).store 1).map Job.retryCount = some 1 :=
  ⟨rfl, rfl⟩

end Server

end Quorum
