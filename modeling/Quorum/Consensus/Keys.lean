/-
Idempotency keys under the replicated state machine. `SubmitJobIdempotent` looks for the key on the proposing node
before the proposal; `FSM.Apply` does not look again. A log keeps at most one job for each key, and finds it by
the key, exactly if no applied `add_job` repeats the key of a job stored under another id or replaces a job with
another key, and no applied `update_job` changes a key.
-/
import Quorum.Consensus.Cluster
import Quorum.Store.Keys

namespace Quorum

/-- The replicated state machine; its outputs are the errors it responds with. -/
def fsm {σ : Type} [Store σ] : Machine σ Command String :=
  ⟨fun st cmd => ((fsmApply st cmd).1, (fsmApply st cmd).2.toList)⟩

namespace Fsm

variable {σ : Type} [Store σ]

/-- At most one stored job carries each key, and `FindByIdempotencyKey` finds a job exactly if one does. -/
def KeysEnforced (st : σ) : Prop :=
  ∀ key, key ≠ "" →
    (∀ id j id' j', Store.get st id = some j → j.idempotencyKey = key → Store.get st id' = some j' →
      j'.idempotencyKey = key → id = id') ∧
    ((Store.findByIdempotencyKey st key).isSome = true ↔ ∃ id j, Store.get st id = some j ∧ j.idempotencyKey = key)

/-- If the store takes the command: an added job repeats no key of a job with another id, and the job it
replaces, if there is one, had no other key; an updated job keeps its key. -/
def RespectsKeys (st : σ) (cmd : Command) : Prop :=
  match cmd.type with
  | .addJob => (∃ st', Store.add st cmd.job = .ok st') →
      (cmd.job.idempotencyKey ≠ "" → ∀ id j, Store.get st id = some j →
        j.idempotencyKey = cmd.job.idempotencyKey → id = cmd.job.id) ∧
      ∀ old, Store.get st cmd.job.id = some old → old.idempotencyKey = "" ∨ old.idempotencyKey = cmd.job.idempotencyKey
  | .updateJob => (∃ st', Store.update st cmd.job = .ok st') →
      ∀ old, Store.get st cmd.job.id = some old → cmd.job.idempotencyKey = old.idempotencyKey
  | _ => True

end Fsm

namespace Fsm

variable {σ : Type} [IndexedStore σ]

theorem keysEnforced_iff {st : σ} :
    KeysEnforced st ↔ Consistent Job.key (Store.get st) (IndexedStore.keyIndex st) := by
  have hfound : ∀ {key : String}, key ≠ "" → ((∃ id j, Store.get st id = some j ∧ j.idempotencyKey = key) ↔
      ∃ id j, Store.get st id = some j ∧ j.key = some key) := by
    intro key hkey
    simp only [Job.key_eq_some, ne_eq, hkey, not_false_eq_true, true_and]
  constructor
  · intro h
    refine ⟨fun k id j id' j' hj hk hj' hk' => ?_, fun k => ?_⟩
    · rw [Job.key_eq_some] at hk hk'
      exact (h k hk.1).1 id j id' j' hj hk.2 hj' hk'.2
    · rw [← IndexedStore.find_eq]
      by_cases hkey : k = ""
      · -- the empty string is no key
        subst hkey
        rw [IndexedStore.find_nil]
        constructor
        · intro hn; cases hn
        · rintro ⟨id, j, -, hk⟩; exact absurd rfl (Job.key_eq_some.1 hk).1
      · rw [(h k hkey).2, hfound hkey]
  · intro h key hkey
    refine ⟨fun id j id' j' hj hk hj' hk' => ?_, ?_⟩
    · exact h.unique key id j id' j' hj (Job.key_eq_some.2 ⟨hkey, hk⟩) hj' (Job.key_eq_some.2 ⟨hkey, hk'⟩)
    · rw [IndexedStore.find_eq, h.found key, hfound hkey]

theorem canPut_iff {st : σ} {j : Job} : IndexedBy.CanPut Job.key (Store.get st) j.id j ↔
    (j.idempotencyKey ≠ "" → ∀ id x, Store.get st id = some x → x.idempotencyKey = j.idempotencyKey → id = j.id) ∧
      ∀ old, Store.get st j.id = some old → old.idempotencyKey = "" ∨ old.idempotencyKey = j.idempotencyKey := by
  have hkept : ∀ old : Job, (old.key = none ∨ old.key = j.key) ↔
      (old.idempotencyKey = "" ∨ old.idempotencyKey = j.idempotencyKey) := by
    intro old
    rw [Job.key_eq]
    simp [Job.key]
  constructor
  · intro h
    refine ⟨fun hne id x hx hk => ?_, fun old hold => (hkept old).1 (h.kept old hold)⟩
    exact h.free _ id x (Job.key_eq_some.2 ⟨hne, rfl⟩) hx (Job.key_eq_some.2 ⟨hne, hk⟩)
  · rintro ⟨hfree, hold⟩
    refine ⟨fun k id x hk hx hkx => ?_, fun old ho => (hkept old).2 (hold old ho)⟩
    rw [Job.key_eq_some] at hk hkx
    exact hfree (by rw [hk.2]; exact hk.1) id x hx (hkx.2.trans hk.2.symm)

/-- What every node's store satisfies as long as the log respects keys. -/
structure Tidy (st : σ) : Prop where
  keyed : Store.Keyed st
  indexed : Store.KeysIndexed st

/-- A command that respects keys keeps the index. -/
theorem apply_indexed {st : σ} (h : Tidy st) {cmd : Command} (hc : RespectsKeys st cmd) :
    Store.KeysIndexed (fsmApply st cmd).1 := by
  have happ := fsmApply_applied st cmd
  unfold RespectsKeys at hc
  generalize fsmApply st cmd = p at happ
  cases happ with
  | refused | unknown => exact h.indexed
  | addJob ht ha =>
    rw [ht] at hc
    exact h.indexed.add (canPut_iff.2 (hc ⟨_, ha⟩)) ha
  | updateJob ht hu =>
    rw [ht] at hc
    obtain ⟨old, hold, -⟩ := LawfulStore.update_ok.1 ⟨_, hu⟩
    exact h.indexed.update hold (hc ⟨_, hu⟩ old hold) hu
  | deleteJob => exact h.indexed.delete cmd.id
  | cancelJob _ hx => exact h.indexed.cancel h.keyed hx
  | addCronJob _ hx => exact h.indexed.same (LawfulStore.get_addCron hx) (IndexedStore.keyIndex_addCron hx)
  | deleteCronJob =>
    exact h.indexed.same (LawfulStore.get_deleteCron st cmd.cronID) (IndexedStore.keyIndex_deleteCron st cmd.cronID)

theorem apply_tidy {st : σ} (h : Tidy st) {cmd : Command} (hc : RespectsKeys st cmd) : Tidy (fsmApply st cmd).1 :=
  ⟨Cluster.applyCommand_keyed st cmd h.keyed, apply_indexed h hc⟩

/-- A command after which keys are enforced has respected them. -/
theorem respectsKeys_of_enforced {st : σ} (h : Tidy st) {cmd : Command} (he : KeysEnforced (fsmApply st cmd).1) :
    RespectsKeys st cmd := by
  rw [keysEnforced_iff] at he
  unfold RespectsKeys
  unfold fsmApply at he
  cases ht : cmd.type with
  | addJob =>
    rintro ⟨st', ha⟩
    rw [ht, ha] at he
    refine canPut_iff.1 (IndexedBy.canPut_of_consistent h.indexed (LawfulStore.get_add ha) (fun k hk => ?_) he)
    show IndexedStore.keyIndex st' k = IndexedStore.keyIndex st k
    rw [IndexedStore.keyIndex_add ha, if_neg hk]
  | updateJob =>
    rintro ⟨st', hu⟩ old hold
    rw [ht, hu] at he
    have hc : Consistent Job.key (Store.get st') (IndexedStore.keyIndex st') := he
    rw [IndexedStore.keyIndex_update hu] at hc
    exact Job.key_eq.1 (IndexedBy.same_key_of_consistent h.indexed hold (LawfulStore.get_update hu) hc)
  | deleteJob | cancelJob | addCronJob | deleteCronJob | other => trivial

/-- Keys are enforced after every prefix of a log exactly if every command of the log respects keys. -/
theorem keys_enforced_iff (st : σ) (hk : Store.Keyed st) (hi : Store.KeysIndexed st) (log : List Command) :
    (∀ pre, pre <+: log → KeysEnforced (fsm.exec st pre)) ↔
      fsm.EveryStep (fun _ st cmd => RespectsKeys st cmd) st log := by
  have htidy : ∀ pre, fsm.EveryStep (fun _ st cmd => RespectsKeys st cmd) st pre → Tidy (fsm.exec st pre) := by
    intro pre hpre
    exact Machine.EveryStep.inv (P := fun _ st => Tidy st) ⟨hk, hi⟩ (fun _ _ _ ht hc => apply_tidy ht hc) hpre
  constructor
  · -- by induction on the prefixes: up to here the index is right, so the next command respects keys
    intro he
    induction log using List.reverseRecOn with
    | nil => exact Machine.everyStep_nil
    | append_singleton log cmd ih =>
      have hlog := ih fun pre hpre => he pre (hpre.trans (List.prefix_append log [cmd]))
      refine Machine.everyStep_snoc.2 ⟨hlog, respectsKeys_of_enforced (htidy log hlog) ?_⟩
      have hlast := he (log ++ [cmd]) (List.prefix_refl _)
      rw [Machine.exec_append] at hlast
      exact hlast
  · rintro h pre ⟨post, rfl⟩
    exact keysEnforced_iff.2 (htidy pre h.init).indexed.consistent

/-- A job with id `id` and key `key`. -/
def keyed (id : Int) (key : String) : Job := { Job.newJob id "email" 1 with idempotencyKey := key }

/-- A key is used again after its job was deleted, and the new job is cancelled. -/
theorem keys_enforced_reused :
    (Store.get (fsm.exec (Store.empty : MemoryStore)
        [.addJob (keyed 1 "a"), .deleteJob 1, .addJob (keyed 2 "a"), .cancelJob 2]) 2).map Job.status =
          some .cancelled ∧
      ∀ pre, pre <+: [.addJob (keyed 1 "a"), .deleteJob 1, .addJob (keyed 2 "a"), .cancelJob 2] →
        KeysEnforced (fsm.exec (Store.empty : MemoryStore) pre) := by
  refine ⟨rfl, ?_⟩
  refine (keys_enforced_iff (Store.empty : MemoryStore) (Store.keyed_of_wf LawfulStore.wf_empty)
    Store.keysIndexed_empty _).2 ?_
  simp only [Machine.everyStep_cons, Machine.everyStep_nil, and_true]
  refine ⟨fun _ => ⟨fun _ id j hj => ?_, fun old hold => ?_⟩, trivial,
    fun _ => ⟨fun _ id j hj => ?_, fun old hold => ?_⟩, trivial⟩
  · cases hj
  · cases hold
  · cases hj
  · cases hold

/-- Two `add_job` commands with one key: both jobs are stored, and after the second one is deleted the key finds
nothing although the first job carries it. -/
theorem key_stored_twice :
    let st := fsm.exec (Store.empty : MemoryStore) [.addJob (keyed 1 "a"), .addJob (keyed 2 "a")]
    Store.get st 1 = some (keyed 1 "a") ∧ Store.get st 2 = some (keyed 2 "a") ∧ ¬ KeysEnforced st ∧
      Store.findByIdempotencyKey (fsm.exec st [.deleteJob 2]) "a" = none ∧
      Store.get (fsm.exec st [.deleteJob 2]) 1 = some (keyed 1 "a") := by
  refine ⟨rfl, rfl, fun h => ?_, rfl, rfl⟩
  have heq := (h "a" (by decide)).1 1 (keyed 1 "a") 2 (keyed 2 "a") rfl rfl rfl rfl
  cases heq

end Fsm

end Quorum
