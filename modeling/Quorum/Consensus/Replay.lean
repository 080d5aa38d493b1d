/-
Replaying a log without its failed entries. `FSM.Apply` decodes the data of an entry, whatever bytes it is, and calls
a method of the store; the entry fails if the bytes do not decode or the method returns an error. A failed entry
leaves the store as it was, so it can be taken out of the log.
-/
import Quorum.Consensus.Fsm
import Quorum.Lib.Machine
import Quorum.Store.Methods

namespace Quorum

namespace Replay

/-- The error that `Apply` returns, if any. -/
def response : Except String Unit → Option String
  | .ok _ => none
  | .error err => some err

theorem response_outcome {σ : Type} (s : σ) (r : Except String σ) :
    ((outcome s r).2, response (outcome s r).1) = orUnchanged s r := by
  cases r <;> rfl

section
variable {σ : Type} [MethodStore σ] (unmarshal : List UInt8 → Except String Command)

/-- `FSM.Apply` on the data of an entry; `unmarshal` is `json.Unmarshal` into a `Command`. -/
def apply (data : List UInt8) : Method σ Unit :=
  match unmarshal data with
  | .error err => throw s!"unmarshal command: {err}"
  | .ok cmd =>
    match cmd.type with
    | .addJob => MethodStore.addBody cmd.job
    | .updateJob => MethodStore.updateBody cmd.job
    | .deleteJob => do let _ ← MethodStore.deleteBody cmd.id
    | .cancelJob => MethodStore.cancelBody cmd.id
    | .addCronJob => MethodStore.addCronBody cmd.cron
    | .deleteCronJob => do let _ ← MethodStore.deleteCronBody cmd.cronID
    | .other _ => pure ()

/-- The entries are applied one after the other; each step emits the response. -/
def machine : Machine σ (List UInt8) (Option String) :=
  ⟨fun s data => (((apply unmarshal data).call s).2, [response ((apply unmarshal data).call s).1])⟩

/-- The entries of the log for which `Apply` returned no error. -/
def accepted (s : σ) (entries : List (List UInt8)) : List (List UInt8) :=
  ((entries.zip ((machine unmarshal).trace s entries)).filter fun p => p.2.isNone).map Prod.fst

variable {unmarshal}

/-- On data that decodes, `Apply` is `fsmApply`. -/
theorem step_decoded (s : σ) {data : List UInt8} {cmd : Command} (h : unmarshal data = .ok cmd) :
    ((machine unmarshal).step s data).1 = (fsmApply s cmd).1 ∧
      ((machine unmarshal).step s data).2 = [(fsmApply s cmd).2] := by
  have hcall : (((apply unmarshal data).call s).2, response ((apply unmarshal data).call s).1) = fsmApply s cmd := by
    unfold apply fsmApply
    rw [h]
    dsimp only
    cases cmd.type with
    | addJob => dsimp only; rw [MethodStore.call_add, response_outcome]
    | updateJob => dsimp only; rw [MethodStore.call_update, response_outcome]
    | deleteJob => dsimp only; rw [Method.call_bind, MethodStore.call_delete]; rfl
    | cancelJob => dsimp only; rw [MethodStore.call_cancel, response_outcome]
    | addCronJob => dsimp only; rw [MethodStore.call_addCron, response_outcome]
    | deleteCronJob => dsimp only; rw [Method.call_bind, MethodStore.call_deleteCron]; rfl
    | other name => rfl
  rw [← hcall]
  exact ⟨rfl, rfl⟩

theorem step_malformed (s : σ) {data : List UInt8} {err : String} (h : unmarshal data = .error err) :
    (machine unmarshal).step s data = (s, [some s!"unmarshal command: {err}"]) := by
  simp only [machine, apply, h]
  rfl

theorem fsmApply_failed {s : σ} {cmd : Command} {err : String} (h : (fsmApply s cmd).2 = some err) :
    (fsmApply s cmd).1 = s := by
  have happ := fsmApply_applied s cmd
  generalize fsmApply s cmd = p at happ h ⊢
  cases happ with
  | refused | unknown => rfl
  | addJob | updateJob | deleteJob | cancelJob | addCronJob | deleteCronJob => cases h

/-- One entry: it is answered with one response, and where that is an error the store is the old one. -/
theorem step_cases (unmarshal : List UInt8 → Except String Command) (s : σ) (data : List UInt8) :
    ((machine unmarshal).step s data).2 = [none] ∨ ∃ err, (machine unmarshal).step s data = (s, [some err]) := by
  cases h : unmarshal data with
  | error err => exact .inr ⟨_, step_malformed s h⟩
  | ok cmd =>
    obtain ⟨hstore, hresponse⟩ := step_decoded s h
    cases hr : (fsmApply s cmd).2 with
    | none =>
      rw [hr] at hresponse
      exact .inl hresponse
    | some err =>
      rw [hr] at hresponse
      rw [fsmApply_failed hr] at hstore
      exact .inr ⟨err, Prod.ext hstore hresponse⟩

/-- The log without its failed entries leads to the same store, and no entry of it fails. -/
theorem replay_accepted (s : σ) (entries : List (List UInt8)) :
    (machine unmarshal).exec s (accepted unmarshal s entries) = (machine unmarshal).exec s entries ∧
      ∀ r ∈ (machine unmarshal).trace s (accepted unmarshal s entries), r = none := by
  induction entries generalizing s with
  | nil => exact ⟨rfl, nofun⟩
  | cons data entries ih =>
    rcases step_cases unmarshal s data with hok | ⟨err, hfail⟩
    · obtain ⟨hexec, htrace⟩ := ih ((machine unmarshal).step s data).1
      have hacc : accepted unmarshal s (data :: entries) =
          data :: accepted unmarshal ((machine unmarshal).step s data).1 entries := by
        unfold accepted
        rw [Machine.trace_cons, hok]
        rfl
      rw [hacc, Machine.exec_cons, Machine.exec_cons, Machine.trace_cons, hok]
      refine ⟨hexec, fun r hr => ?_⟩
      rcases List.mem_append.1 hr with hr | hr
      · exact List.mem_singleton.1 hr
      · exact htrace r hr
    · have hacc : accepted unmarshal s (data :: entries) = accepted unmarshal s entries := by
        unfold accepted
        rw [Machine.trace_cons, hfail]
        rfl
      rw [hacc, Machine.exec_cons, hfail]
      exact ih s

end

/-- Failed commands leave no trace, over either store, from any state and for any log. -/
theorem failed_commands_leave_no_trace (unmarshal : List UInt8 → Except String Command) (entries : List (List UInt8)) :
    (∀ s : MemoryStore, (machine unmarshal).exec s (accepted unmarshal s entries) = (machine unmarshal).exec s entries ∧
      ∀ r ∈ (machine unmarshal).trace s (accepted unmarshal s entries), r = none) ∧
    (∀ s : BoltStore, (machine unmarshal).exec s (accepted unmarshal s entries) = (machine unmarshal).exec s entries ∧
      ∀ r ∈ (machine unmarshal).trace s (accepted unmarshal s entries), r = none) :=
  ⟨fun s => replay_accepted s entries, fun s => replay_accepted s entries⟩

end Replay

end Quorum
