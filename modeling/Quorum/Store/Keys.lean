/-
Idempotency keys in the stores. Both stores keep a map from keys to job ids next to the jobs; `Add` and `Delete`
maintain it, `Update` and `Cancel` do not look at it. `IndexedStore` is this part of their contract, and `KeysIndexed`
the invariant that the map is the index of the jobs by key.
-/
import Quorum.Lib.UniqueIndex
import Quorum.Store.Bolt
import Quorum.Store.Memory

namespace Quorum

/-- The key of a job; the empty string is no key. -/
def Job.key (j : Job) : Option String := if j.idempotencyKey = "" then none else some j.idempotencyKey

theorem Job.key_eq_some {j : Job} {k : String} : j.key = some k ↔ k ≠ "" ∧ j.idempotencyKey = k := by
  unfold key
  split
  · rename_i h
    constructor
    · intro hk; cases hk
    · rintro ⟨hne, rfl⟩; exact absurd h hne
  · rename_i h
    constructor
    · intro hk; cases hk; exact ⟨h, rfl⟩
    · rintro ⟨-, rfl⟩; rfl

theorem Job.key_eq {j j' : Job} : j.key = j'.key ↔ j.idempotencyKey = j'.idempotencyKey := by
  unfold key
  split
  · split
    · rename_i h h'; simp [h, h']
    · rename_i h h'; simp [h, Ne.symm h']
  · split
    · rename_i h h'; simp [h, h']
    · simp

/-- The contract of a store about keys, and about the dead letters of a new store. -/
class IndexedStore (σ : Type) extends LawfulStore σ where
  /-- The map from keys to ids, as `FindByIdempotencyKey` reads it. -/
  keyIndex : σ → String → Option Int
  find_eq : ∀ s k, findByIdempotencyKey s k = (keyIndex s k).bind (get s)
  find_nil : ∀ s, findByIdempotencyKey s "" = none
  keyIndex_empty : ∀ k, keyIndex empty k = none
  keyIndex_add : ∀ {s j s'}, add s j = .ok s' → ∀ k, keyIndex s' k = if j.key = some k then some j.id else keyIndex s k
  keyIndex_update : ∀ {s j s'}, update s j = .ok s' → keyIndex s' = keyIndex s
  keyIndex_delete : ∀ s id k, keyIndex (delete s id).2 k =
    if (get s id).bind Job.key = some k then none else keyIndex s k
  keyIndex_cancel : ∀ {s id s'}, cancel s id = .ok s' → keyIndex s' = keyIndex s
  keyIndex_addDLQ : ∀ s j, keyIndex (addDLQ s j) = keyIndex s
  keyIndex_addCron : ∀ {s c s'}, addCron s c = .ok s' → keyIndex s' = keyIndex s
  keyIndex_deleteCron : ∀ s id, keyIndex (deleteCron s id).2 = keyIndex s
  dead_empty : ∀ id, dead empty id = none

/-- The map as `FindByIdempotencyKey` reads it: the empty key is not looked up. -/
def lookupKey (m : GoMap String Int) (k : String) : Option Int := if k = "" then none else m.lookup k

/-- What both stores do to their map when they add a job. -/
theorem lookupKey_insert (m : GoMap String Int) (j : Job) (k : String) :
    lookupKey (if j.idempotencyKey ≠ "" then m.insert j.idempotencyKey j.id else m) k =
      if j.key = some k then some j.id else lookupKey m k := by
  unfold lookupKey Job.key
  by_cases hk : k = ""
  · simp [hk]
  · by_cases hj : j.idempotencyKey = ""
    · simp [hk, hj]
    · simp only [hk, hj, ne_eq, not_false_eq_true, if_true, if_false, Option.some.injEq, GoMap.lookup_insert_ite]
      exact if_congr eq_comm rfl rfl

/-- What both stores do to their map when they delete a job. -/
theorem lookupKey_erase (m : GoMap String Int) (j : Job) (k : String) :
    lookupKey (if j.idempotencyKey ≠ "" then m.erase j.idempotencyKey else m) k =
      if j.key = some k then none else lookupKey m k := by
  unfold lookupKey Job.key
  by_cases hk : k = ""
  · simp [hk]
  · by_cases hj : j.idempotencyKey = ""
    · simp [hk, hj]
    · simp only [hk, hj, ne_eq, not_false_eq_true, if_true, if_false, Option.some.injEq, GoMap.lookup_erase_ite]
      exact if_congr eq_comm rfl rfl

theorem lookupKey_bind {α : Type} (m : GoMap String Int) (k : String) (f : Int → Option α) :
    (if k = "" then none else (m.lookup k).bind f) = (lookupKey m k).bind f := by
  unfold lookupKey
  split <;> rfl

namespace MemoryStore

@[simp] theorem removeFromStatusIndex_keys (s : MemoryStore) (status : Status) (id : Int) :
    (s.removeFromStatusIndex status id).idempotencyIndex = s.idempotencyIndex := by
  unfold removeFromStatusIndex; split <;> rfl

theorem keys_add {s s' : MemoryStore} {j : Job} (h : s.add j = .ok s') (k : String) :
    lookupKey s'.idempotencyIndex k = if j.key = some k then some j.id else lookupKey s.idempotencyIndex k := by
  rw [← lookupKey_insert]
  unfold add at h
  split at h
  · cases h
  · cases h
    dsimp only [addToStatusIndex]
    split <;> rfl

theorem keys_update {s s' : MemoryStore} {j : Job} (h : s.update j = .ok s') :
    s'.idempotencyIndex = s.idempotencyIndex := by
  unfold update at h
  split at h
  · cases h
  · split at h
    · cases h
    · cases h
      exact removeFromStatusIndex_keys s _ _

theorem keys_delete (s : MemoryStore) (id : Int) (k : String) : lookupKey (s.delete id).2.idempotencyIndex k =
    if (s.get id).bind Job.key = some k then none else lookupKey s.idempotencyIndex k := by
  unfold delete get
  cases hj : s.jobs.lookup id with
  | none => simp
  | some j =>
    rw [Option.bind_some, ← lookupKey_erase]
    dsimp only
    split
    · rw [removeFromStatusIndex_keys]
    · rw [removeFromStatusIndex_keys]

theorem keys_cancel {s s' : MemoryStore} {id : Int} (h : s.cancel id = .ok s') :
    s'.idempotencyIndex = s.idempotencyIndex := by
  unfold cancel at h
  split at h
  · cases h
  · split at h
    · cases h
    · cases h
      exact removeFromStatusIndex_keys s _ _

instance : IndexedStore MemoryStore where
  keyIndex s := lookupKey s.idempotencyIndex
  find_eq s k := lookupKey_bind s.idempotencyIndex k s.get
  find_nil _ := rfl
  keyIndex_empty k := by unfold lookupKey; split <;> rfl
  keyIndex_add := keys_add
  keyIndex_update h := congrArg lookupKey (keys_update h)
  keyIndex_delete := keys_delete
  keyIndex_cancel h := congrArg lookupKey (keys_cancel h)
  keyIndex_addDLQ _ _ := rfl
  keyIndex_addCron h := by cases h; rfl
  keyIndex_deleteCron s id := by
    show lookupKey (s.deleteCron id).2.idempotencyIndex = lookupKey s.idempotencyIndex
    unfold deleteCron
    split <;> rfl
  dead_empty _ := rfl

end MemoryStore

namespace BoltStore

@[simp] theorem onStatusBucket_keys (s : BoltStore) (f : GoMap Int Unit → GoMap Int Unit) (status : Status) :
    (s.onStatusBucket f status).idempotencyKeys = s.idempotencyKeys := by cases status <;> rfl

theorem keys_add {s s' : BoltStore} {j : Job} (h : s.add j = .ok s') (k : String) :
    lookupKey s'.idempotencyKeys k = if j.key = some k then some j.id else lookupKey s.idempotencyKeys k := by
  rw [← lookupKey_insert]
  unfold add at h
  dsimp only at h
  split at h
  · rename_i hk
    rw [if_pos hk]
    split at h
    · cases h
    · cases h
      exact congrArg (lookupKey · k) (onStatusBucket_keys _ _ _)
  · rename_i hk
    rw [if_neg hk]
    cases h
    exact congrArg (lookupKey · k) (onStatusBucket_keys _ _ _)

theorem keys_delete (s : BoltStore) (id : Int) (k : String) : lookupKey (s.delete id).2.idempotencyKeys k =
    if (s.get id).bind Job.key = some k then none else lookupKey s.idempotencyKeys k := by
  unfold delete get
  cases hj : s.jobs.lookup id with
  | none => simp
  | some j =>
    rw [Option.bind_some, ← lookupKey_erase]
    dsimp only
    split
    · rw [removeFromStatusBucket, onStatusBucket_keys]
    · rw [removeFromStatusBucket, onStatusBucket_keys]

instance : IndexedStore BoltStore where
  keyIndex s := lookupKey s.idempotencyKeys
  find_eq s k := lookupKey_bind s.idempotencyKeys k s.get
  find_nil _ := rfl
  keyIndex_empty k := by unfold lookupKey; split <;> rfl
  keyIndex_add := keys_add
  keyIndex_update h := by
    obtain ⟨existing, -, -, rfl⟩ := update_eq h
    simp [addToStatusBucket, removeFromStatusBucket, putJob]
  keyIndex_delete := keys_delete
  keyIndex_cancel h := by
    obtain ⟨j, -, -, rfl⟩ := cancel_eq h
    simp [addToStatusBucket, removeFromStatusBucket, putJob]
  keyIndex_addDLQ _ _ := rfl
  keyIndex_addCron h := by rw [addCron_eq h]
  keyIndex_deleteCron s id := by
    show lookupKey (s.deleteCron id).2.idempotencyKeys = lookupKey s.idempotencyKeys
    unfold deleteCron
    split <;> rfl
  dead_empty _ := rfl

end BoltStore

/-! ## The index through the operations -/

namespace Store

variable {σ : Type} [IndexedStore σ]

/-- The map is the index of the stored jobs by key. -/
def KeysIndexed (s : σ) : Prop := IndexedBy Job.key (get s) (IndexedStore.keyIndex s)

theorem keysIndexed_empty : KeysIndexed (Store.empty : σ) := by
  intro k id
  rw [IndexedStore.keyIndex_empty]
  constructor
  · intro h; cases h
  · rintro ⟨j, hj, -⟩
    have hnone : get (Store.empty : σ) id = none := LawfulStore.get_empty id
    cases hnone.symm.trans hj

namespace KeysIndexed

variable {s s' : σ}

theorem add (h : KeysIndexed s) {j : Job} (hc : IndexedBy.CanPut Job.key (get s) j.id j)
    (ha : Store.add s j = .ok s') : KeysIndexed s' := by
  have hidx := IndexedStore.keyIndex_add ha
  refine IndexedBy.put h hc (LawfulStore.get_add ha) (fun k hk => ?_) fun k hk => ?_
  · rw [hidx, if_pos hk]
  · rw [hidx, if_neg hk]

/-- A new job whose key no stored job has. -/
theorem add_fresh (h : KeysIndexed s) {j : Job} (hid : get s j.id = none)
    (hk : ∀ k, j.key = some k → findByIdempotencyKey s k = none) (ha : Store.add s j = .ok s') : KeysIndexed s' := by
  refine h.add ⟨fun k id' j' hkj hj' hkj' => ?_, fun old hold => by rw [hid] at hold; cases hold⟩ ha
  have hnone := hk k hkj
  rw [IndexedStore.find_eq] at hnone
  have hsome := h.lookup_iff.2 ⟨id', hj', hkj'⟩
  cases hnone.symm.trans hsome

theorem update (h : KeysIndexed s) {j old : Job} (hold : get s j.id = some old)
    (hk : j.idempotencyKey = old.idempotencyKey) (hu : Store.update s j = .ok s') : KeysIndexed s' := by
  unfold KeysIndexed
  rw [IndexedStore.keyIndex_update hu]
  exact IndexedBy.rewrite h hold (Job.key_eq.2 hk) (LawfulStore.get_update hu)

theorem delete (h : KeysIndexed s) (id : Int) : KeysIndexed (Store.delete s id).2 := by
  have hidx := IndexedStore.keyIndex_delete s id
  have hget := LawfulStore.get_delete s id
  cases hj : get s id with
  | none =>
    intro k x
    rw [hidx, hj, if_neg (fun hn => by cases hn), h k x, hget]
    by_cases hx : x = id
    · rw [if_pos hx, hx, hj]
    · rw [if_neg hx]
  | some old =>
    rw [hj, Option.bind_some] at hidx
    refine IndexedBy.erase h hj hget (fun k hk => ?_) fun k hk => ?_
    · rw [hidx, if_pos hk]
    · rw [hidx, if_neg hk]

theorem cancel (h : KeysIndexed s) (hk : Keyed s) {id : Int} (hc : Store.cancel s id = .ok s') : KeysIndexed s' := by
  obtain ⟨j, hj, -, hget⟩ := LawfulStore.cancel_ok hc
  have hid := hk id j hj
  unfold KeysIndexed
  rw [IndexedStore.keyIndex_cancel hc]
  exact IndexedBy.rewrite (a := { j with status := .cancelled }) h hj (Job.key_eq.2 rfl) (hget hid)

/-- An operation that changes neither the jobs nor the map. -/
theorem same (h : KeysIndexed s) (hg : ∀ k, get s' k = get s k)
    (hi : IndexedStore.keyIndex s' = IndexedStore.keyIndex s) : KeysIndexed s' := by
  unfold KeysIndexed
  rw [hi, show get s' = get s from funext hg]
  exact h

theorem addDLQ (h : KeysIndexed s) (j : Job) : KeysIndexed (Store.addDLQ s j) :=
  h.same (LawfulStore.get_addDLQ s j) (IndexedStore.keyIndex_addDLQ s j)

end KeysIndexed

/-- `FindByIdempotencyKey` on a store whose map is the index. -/
theorem KeysIndexed.find_iff {s : σ} (h : KeysIndexed s) {k : String} (hk : k ≠ "") {j : Job} :
    findByIdempotencyKey s k = some j ↔ ∃ id, get s id = some j ∧ j.idempotencyKey = k := by
  rw [IndexedStore.find_eq, h.lookup_iff]
  simp only [Job.key_eq_some, ne_eq, hk, not_false_eq_true, true_and]

end Store

end Quorum
