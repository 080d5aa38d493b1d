/-
Cancelling executions (`Runner.Cancel` and the frame of `Runner.Execute` in `internal/runner/runner.go`). The table of
cancel functions has one entry per job id. An execution writes the entry of its job when it begins and deletes it when
it ends, whoever has written it, so two executions of one job take each other's entry away: every running execution
can be cancelled in exactly the runs in which neither happens.
-/
import Quorum.Lib.GoMap
import Quorum.Lib.Machine

namespace Quorum

namespace Cancellation

/-- An execution in progress. -/
structure Execution where
  jobID : Int
  cancelled : Bool
  deriving DecidableEq

/-- The table of a runner, where a cancel function is known by the number of the execution it belongs to, and the
executions in progress. -/
structure State where
  activeTasks : GoMap Int Nat
  running : GoMap Nat Execution
  calls : Nat

/-- `Execute` up to the call of the executor, the deferred function at its end, and a call of `Cancel`. -/
inductive Act where
  | execute (jobID : Int)
  | finish (call : Nat)
  | cancel (jobID : Int)

namespace State

def new : State := ⟨∅, ∅, 0⟩

def execute (s : State) (jobID : Int) : State :=
  { activeTasks := s.activeTasks.insert jobID s.calls, running := s.running.insert s.calls ⟨jobID, false⟩,
    calls := s.calls + 1 }

/-- The entry is deleted by the job's id. -/
def finish (s : State) (call : Nat) : State :=
  match s.running.lookup call with
  | none => s
  | some e => { s with activeTasks := s.activeTasks.erase e.jobID, running := s.running.erase call }

/-- The context of a call is cancelled. -/
def cancelCall (s : State) (call : Nat) : State :=
  match s.running.lookup call with
  | none => s
  | some e => { s with running := s.running.insert call { e with cancelled := true } }

/-- `Cancel`, with the value it returns. The function it takes out of the table is called after the lock is released.
No other `Cancel` can reach it by then, so the execution counts as cancelled from the moment its function is taken. -/
def cancel (s : State) (jobID : Int) : State × Bool :=
  match s.activeTasks.lookup jobID with
  | none => (s, false)
  | some call => ({ s with activeTasks := s.activeTasks.erase jobID }.cancelCall call, true)

end State

/-- A step, with the answer of a `Cancel`. -/
def step (s : State) : Act → State × List Bool
  | .execute jobID => (s.execute jobID, [])
  | .finish call => (s.finish call, [])
  | .cancel jobID => ((s.cancel jobID).1, [(s.cancel jobID).2])

def machine : Machine State Act Bool := ⟨step⟩

/-- The call is an execution of the job that is in progress and has not been cancelled. -/
def State.Active (s : State) (jobID : Int) (call : Nat) : Prop := s.running.lookup call = some ⟨jobID, false⟩

instance (s : State) (jobID : Int) (call : Nat) : Decidable (s.Active jobID call) :=
  inferInstanceAs (Decidable (_ = _))

/-- A `Cancel` of a job with such executions returns true and cancels them all. -/
def State.Cancellable (s : State) : Prop :=
  ∀ jobID, (∃ call, s.Active jobID call) → (s.cancel jobID).2 = true ∧ ∀ call, ¬ (s.cancel jobID).1.Active jobID call

/-- No execution begins, or ends, while another one of its job is in progress and has not been cancelled. -/
def Alone (s : State) : Act → Prop
  | .execute jobID => ∀ call, ¬ s.Active jobID call
  | .finish call => ∀ e, s.running.lookup call = some e → ∀ other, other ≠ call → ¬ s.Active e.jobID other
  | .cancel _ => True

/-! ## What the table holds -/

/-- An entry belongs to an execution of the job that is in progress and has not been cancelled; calls are numbered. -/
structure State.Tidy (s : State) : Prop where
  active : ∀ jobID call, s.activeTasks.lookup jobID = some call → s.Active jobID call
  numbered : ∀ call e, s.running.lookup call = some e → call < s.calls

/-- Every execution in progress that has not been cancelled has the entry of its job. -/
def State.Held (s : State) : Prop := ∀ jobID call, s.Active jobID call → s.activeTasks.lookup jobID = some call

namespace State

variable {s : State}

theorem Active.job_eq {id id' : Int} {call : Nat} (h : s.Active id call) (h' : s.Active id' call) : id = id' := by
  have heq := h.symm.trans h'
  cases heq
  rfl

/-! ## What each call does -/

theorem entry_execute (s : State) (jobID id : Int) :
    (s.execute jobID).activeTasks.lookup id = if id = jobID then some s.calls else s.activeTasks.lookup id :=
  GoMap.lookup_insert_ite ..

theorem active_execute (h : s.Tidy) (jobID id : Int) (call : Nat) :
    (s.execute jobID).Active id call ↔ (call = s.calls ∧ id = jobID) ∨ s.Active id call := by
  unfold Active execute
  rw [GoMap.lookup_insert_ite]
  split
  · rename_i hcall
    subst hcall
    constructor
    · intro heq
      cases heq
      exact .inl ⟨rfl, rfl⟩
    · rintro (⟨-, rfl⟩ | hold)
      · rfl
      · exact absurd (h.numbered _ _ hold) (Nat.lt_irrefl _)
  · rename_i hcall
    constructor
    · exact .inr
    · rintro (⟨heq, -⟩ | hold)
      · exact absurd heq hcall
      · exact hold

theorem finish_of_none {call : Nat} (h : s.running.lookup call = none) : s.finish call = s := by
  unfold finish
  rw [h]

theorem finish_of_some {call : Nat} {e : Execution} (h : s.running.lookup call = some e) :
    s.finish call = { s with activeTasks := s.activeTasks.erase e.jobID, running := s.running.erase call } := by
  unfold finish
  rw [h]

theorem entry_finish {call : Nat} {e : Execution} (h : s.running.lookup call = some e) (id : Int) :
    (s.finish call).activeTasks.lookup id = if id = e.jobID then none else s.activeTasks.lookup id := by
  rw [finish_of_some h]
  exact GoMap.lookup_erase_ite ..

theorem active_finish {call : Nat} {e : Execution} (h : s.running.lookup call = some e) (id : Int) (c : Nat) :
    (s.finish call).Active id c ↔ c ≠ call ∧ s.Active id c := by
  rw [finish_of_some h]
  unfold Active
  rw [GoMap.lookup_erase_ite]
  split
  · rename_i hc
    exact iff_of_false nofun fun hand => hand.1 hc
  · rename_i hc
    exact ⟨fun hactive => ⟨hc, hactive⟩, fun hand => hand.2⟩

theorem active_cancelCall (call : Nat) (id : Int) (c : Nat) :
    (s.cancelCall call).Active id c ↔ c ≠ call ∧ s.Active id c := by
  unfold Active cancelCall
  cases hcall : s.running.lookup call with
  | none =>
    dsimp only
    refine ⟨fun hactive => ⟨?_, hactive⟩, fun hand => hand.2⟩
    rintro rfl
    rw [hcall] at hactive
    cases hactive
  | some e =>
    dsimp only
    rw [GoMap.lookup_insert_ite]
    split
    · rename_i hc
      exact iff_of_false (fun heq => by cases heq) fun hand => hand.1 hc
    · rename_i hc
      exact ⟨fun hactive => ⟨hc, hactive⟩, fun hand => hand.2⟩

/-- Cancelling a call touches neither the table nor the numbers. -/
theorem cancelCall_frame (s : State) (call : Nat) :
    (s.cancelCall call).activeTasks = s.activeTasks ∧ (s.cancelCall call).calls = s.calls ∧
      ∀ c e, (s.cancelCall call).running.lookup c = some e → ∃ e', s.running.lookup c = some e' := by
  unfold cancelCall
  split
  · exact ⟨rfl, rfl, fun c e h => ⟨e, h⟩⟩
  · rename_i e' hcall
    refine ⟨rfl, rfl, fun c e h => ?_⟩
    dsimp only at h
    rw [GoMap.lookup_insert_ite] at h
    split at h
    · rename_i hc
      exact ⟨e', by rw [hc, hcall]⟩
    · exact ⟨e, h⟩

theorem cancel_of_none {jobID : Int} (h : s.activeTasks.lookup jobID = none) : s.cancel jobID = (s, false) := by
  unfold cancel
  rw [h]

theorem cancel_of_some {jobID : Int} {call : Nat} (h : s.activeTasks.lookup jobID = some call) :
    s.cancel jobID = ({ s with activeTasks := s.activeTasks.erase jobID }.cancelCall call, true) := by
  unfold cancel
  rw [h]

theorem entry_cancel {jobID : Int} {call : Nat} (h : s.activeTasks.lookup jobID = some call) (id : Int) :
    (s.cancel jobID).1.activeTasks.lookup id = if id = jobID then none else s.activeTasks.lookup id := by
  rw [cancel_of_some h, (cancelCall_frame _ call).1]
  exact GoMap.lookup_erase_ite ..

theorem active_cancel {jobID : Int} {call : Nat} (h : s.activeTasks.lookup jobID = some call) (id : Int) (c : Nat) :
    (s.cancel jobID).1.Active id c ↔ c ≠ call ∧ s.Active id c := by
  rw [cancel_of_some h]
  exact active_cancelCall call id c

/-! ## The entries are those of active executions -/

theorem tidy_new : new.Tidy := by
  constructor
  · intro id call h
    cases h
  · intro call e h
    cases h

theorem Tidy.execute (h : s.Tidy) (jobID : Int) : (s.execute jobID).Tidy := by
  constructor
  · intro id call hentry
    refine (active_execute h jobID id call).2 ?_
    rw [entry_execute] at hentry
    split at hentry
    · rename_i hid
      cases hentry
      exact .inl ⟨rfl, hid⟩
    · exact .inr (h.active id call hentry)
  · intro call e hrun
    show call < s.calls + 1
    unfold State.execute at hrun
    rw [GoMap.lookup_insert_ite] at hrun
    split at hrun
    · omega
    · have hlt := h.numbered call e hrun
      omega

theorem Tidy.finish (h : s.Tidy) (call : Nat) : (s.finish call).Tidy := by
  cases hcall : s.running.lookup call with
  | none =>
    rw [finish_of_none hcall]
    exact h
  | some e =>
    constructor
    · intro id c hentry
      rw [entry_finish hcall] at hentry
      split at hentry
      · cases hentry
      · rename_i hid
        have hactive := h.active id c hentry
        refine (active_finish hcall id c).2 ⟨?_, hactive⟩
        -- the call that ends has an entry under its own job only
        rintro rfl
        have heq := hactive.symm.trans hcall
        cases heq
        exact hid rfl
    · intro c e' hrun
      rw [finish_of_some hcall] at hrun ⊢
      rw [GoMap.lookup_erase_ite] at hrun
      split at hrun
      · cases hrun
      · exact h.numbered c e' hrun

theorem Tidy.cancel (h : s.Tidy) (jobID : Int) : (s.cancel jobID).1.Tidy := by
  cases hentry : s.activeTasks.lookup jobID with
  | none =>
    rw [cancel_of_none hentry]
    exact h
  | some call =>
    constructor
    · intro id c hc
      rw [entry_cancel hentry] at hc
      split at hc
      · cases hc
      · rename_i hid
        have hactive := h.active id c hc
        refine (active_cancel hentry id c).2 ⟨?_, hactive⟩
        rintro rfl
        exact hid (hactive.job_eq (h.active jobID c hentry))
    · intro c e hrun
      rw [cancel_of_some hentry] at hrun ⊢
      obtain ⟨-, hcalls, hrunning⟩ := cancelCall_frame { s with activeTasks := s.activeTasks.erase jobID } call
      obtain ⟨e', he'⟩ := hrunning c e hrun
      rw [hcalls]
      exact h.numbered c e' he'

theorem Tidy.step (h : s.Tidy) (a : Act) : (Cancellation.step s a).1.Tidy := by
  cases a with
  | execute jobID => exact h.execute jobID
  | finish call => exact h.finish call
  | cancel jobID => exact h.cancel jobID

/-! ## When every active execution has its entry -/

/-- A `Cancel` reaches the execution that has the entry, and no other. -/
theorem cancellable_iff_held : s.Cancellable ↔ s.Held := by
  constructor
  · intro hcan id call hactive
    obtain ⟨hreturns, hnone⟩ := hcan id ⟨call, hactive⟩
    cases hentry : s.activeTasks.lookup id with
    | none =>
      rw [cancel_of_none hentry] at hreturns
      cases hreturns
    | some c =>
      by_contra hne
      refine hnone call ((active_cancel hentry id call).2 ⟨?_, hactive⟩)
      rintro rfl
      exact hne rfl
  · rintro hheld id ⟨call, hactive⟩
    have hentry := hheld id call hactive
    refine ⟨by rw [cancel_of_some hentry], fun c hc => ?_⟩
    obtain ⟨hne, hc⟩ := (active_cancel hentry id c).1 hc
    exact hne (Option.some.inj ((hheld id c hc).symm.trans hentry))

/-- A new execution takes the entry of one that is active. -/
theorem Held.execute_iff (h : s.Tidy) (hheld : s.Held) (jobID : Int) :
    (s.execute jobID).Held ↔ ∀ call, ¬ s.Active jobID call := by
  constructor
  · intro hnext call hactive
    have heq := hnext jobID call ((active_execute h jobID jobID call).2 (.inr hactive))
    have hlt := h.numbered call _ hactive
    rw [entry_execute, if_pos rfl] at heq
    cases heq
    omega
  · intro halone id call hactive
    rw [entry_execute]
    rcases (active_execute h jobID id call).1 hactive with ⟨rfl, rfl⟩ | hold
    · exact if_pos rfl
    · rw [if_neg, hheld id call hold]
      rintro rfl
      exact halone call hold

/-- An execution that ends takes the entry of another one that is active. -/
theorem Held.finish_iff (hheld : s.Held) (call : Nat) :
    (s.finish call).Held ↔ ∀ e, s.running.lookup call = some e → ∀ other, other ≠ call → ¬ s.Active e.jobID other := by
  cases hcall : s.running.lookup call with
  | none =>
    rw [finish_of_none hcall]
    refine iff_of_true hheld fun e he => ?_
    cases he
  | some e =>
    constructor
    · intro hnext e' he' other hne hactive
      cases he'
      have heq := hnext e.jobID other ((active_finish hcall e.jobID other).2 ⟨hne, hactive⟩)
      rw [entry_finish hcall, if_pos rfl] at heq
      cases heq
    · intro halone id c hactive
      obtain ⟨hne, hc⟩ := (active_finish hcall id c).1 hactive
      rw [entry_finish hcall, if_neg, hheld id c hc]
      rintro rfl
      exact halone e rfl c hne hc

theorem Held.cancel (hheld : s.Held) (jobID : Int) : (s.cancel jobID).1.Held := by
  cases hentry : s.activeTasks.lookup jobID with
  | none =>
    rw [cancel_of_none hentry]
    exact hheld
  | some call =>
    intro id c hactive
    obtain ⟨hne, hc⟩ := (active_cancel hentry id c).1 hactive
    have hid := hheld id c hc
    rw [entry_cancel hentry, if_neg, hid]
    rintro rfl
    exact hne (Option.some.inj (hid.symm.trans hentry))

/-- A step keeps the entries of the active executions exactly if it meets the condition. -/
theorem Held.step_iff (h : s.Tidy) (hheld : s.Held) (a : Act) : (Cancellation.step s a).1.Held ↔ Alone s a := by
  cases a with
  | execute jobID => exact hheld.execute_iff h jobID
  | finish call => exact hheld.finish_iff call
  | cancel jobID => exact iff_of_true (hheld.cancel jobID) trivial

end State

/-- Every running execution stays cancellable throughout a run exactly if no execution begins or ends while another
one of its job is in progress and has not been cancelled. -/
theorem cancellable_iff_alone (acts : List Act) :
    (∀ pre, pre <+: acts → (machine.exec .new pre).Cancellable) ↔
      machine.EveryStep (fun _ s a => Alone s a) .new acts := by
  have hheld : State.new.Held := fun _ _ h => by cases h
  rw [← Machine.everyPrefix_iff (M := machine) (P := State.Held) (Q := State.Tidy) State.tidy_new hheld
    (fun s a h => h.step a) (fun s a h hs => hs.step_iff h a) acts]
  exact forall₂_congr fun pre _ => State.cancellable_iff_held

/-- Two executions of job 1 overlap. A `Cancel` returns true and leaves the first one running; once the first one has
ended, it returns false while the second one is running. -/
theorem overlapping_not_cancelled :
    let both := machine.exec .new [.execute 1, .execute 1]
    let second := machine.exec .new [.execute 1, .execute 1, .finish 0]
    both.Active 1 0 ∧ (both.cancel 1).2 = true ∧ (both.cancel 1).1.Active 1 0 ∧
      second.Active 1 1 ∧ (second.cancel 1).2 = false := by
  decide +kernel

end Cancellation

end Quorum
