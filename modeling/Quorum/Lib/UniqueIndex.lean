/-
Unique secondary indexes: records under primary ids, some of them with a key, and a map from keys to ids next to
them. `IndexedBy` is what the map has to say about the records, `Consistent` what a user of the two can see.
Overwriting a record and writing its key, overwriting it without touching the map, and removing it together with
its key are the three ways such a structure changes; for the first two the conditions under which the index
survives are exact.
-/
import Mathlib.Logic.Basic
import Mathlib.Tactic.ByContra

namespace Quorum

variable {ι α κ : Type}

/-- `idx` maps each key to the id of the record that has it. -/
def IndexedBy (key : α → Option κ) (get : ι → Option α) (idx : κ → Option ι) : Prop :=
  ∀ k i, idx k = some i ↔ ∃ a, get i = some a ∧ key a = some k

/-- No two records have one key, and a lookup by key finds a record exactly if some record has the key. -/
structure Consistent (key : α → Option κ) (get : ι → Option α) (idx : κ → Option ι) : Prop where
  unique : ∀ k i a i' a', get i = some a → key a = some k → get i' = some a' → key a' = some k → i = i'
  found : ∀ k, ((idx k).bind get).isSome = true ↔ ∃ i a, get i = some a ∧ key a = some k

namespace IndexedBy

variable {key : α → Option κ} {get get' : ι → Option α} {idx idx' : κ → Option ι}

theorem unique (h : IndexedBy key get idx) {k : κ} {i i' : ι} {a a' : α} (ha : get i = some a) (hk : key a = some k)
    (ha' : get i' = some a') (hk' : key a' = some k) : i = i' := by
  have h₁ := (h k i).2 ⟨a, ha, hk⟩
  have h₂ := (h k i').2 ⟨a', ha', hk'⟩
  exact Option.some.inj (h₁.symm.trans h₂)

/-- The records determine their index. -/
theorem determined (h : IndexedBy key get idx) (h' : IndexedBy key get idx') : idx = idx' := by
  funext k
  exact Option.ext fun i => (h k i).trans (h' k i).symm

/-- A lookup by key returns the record that has it. -/
theorem lookup_iff (h : IndexedBy key get idx) {k : κ} {a : α} :
    (idx k).bind get = some a ↔ ∃ i, get i = some a ∧ key a = some k := by
  rw [Option.bind_eq_some_iff]
  constructor
  · rintro ⟨i, hi, ha⟩
    obtain ⟨a', ha', hk⟩ := (h k i).1 hi
    cases ha.symm.trans ha'
    exact ⟨i, ha, hk⟩
  · rintro ⟨i, ha, hk⟩
    exact ⟨i, (h k i).2 ⟨a, ha, hk⟩, ha⟩

theorem consistent (h : IndexedBy key get idx) : Consistent key get idx := by
  refine ⟨fun k i a i' a' => h.unique, fun k => ?_⟩
  rw [Option.isSome_iff_exists]
  constructor
  · rintro ⟨a, ha⟩
    obtain ⟨i, hi, hk⟩ := h.lookup_iff.1 ha
    exact ⟨i, a, hi, hk⟩
  · rintro ⟨i, a, hi, hk⟩
    exact ⟨a, h.lookup_iff.2 ⟨i, hi, hk⟩⟩

variable [DecidableEq ι] {i : ι} {a : α}

/-- The record under `i` may be overwritten by `a` together with its key: no other record has that key, and the
record that was there had none, or the same. -/
structure CanPut (key : α → Option κ) (get : ι → Option α) (i : ι) (a : α) : Prop where
  free : ∀ k i' a', key a = some k → get i' = some a' → key a' = some k → i' = i
  kept : ∀ old, get i = some old → key old = none ∨ key old = key a

theorem put (h : IndexedBy key get idx) (hc : CanPut key get i a) (hg : ∀ x, get' x = if x = i then some a else get x)
    (hi : ∀ k, key a = some k → idx' k = some i) (hn : ∀ k, key a ≠ some k → idx' k = idx k) :
    IndexedBy key get' idx' := by
  intro k x
  rw [hg]
  by_cases hk : key a = some k
  · rw [hi k hk]
    constructor
    · intro hx
      cases hx
      exact ⟨a, if_pos rfl, hk⟩
    · rintro ⟨b, hb, hkb⟩
      split at hb
      · rename_i hx; rw [hx]
      · rw [hc.free k x b hk hb hkb]
  · rw [hn k hk, h k x]
    by_cases hx : x = i
    · subst hx
      rw [if_pos rfl]
      constructor
      · rintro ⟨b, hb, hkb⟩
        -- the overwritten record had the key `k`, so the new one has it as well
        rcases hc.kept b hb with hnone | hsame
        · rw [hnone] at hkb; cases hkb
        · exact absurd (hsame.symm.trans hkb) hk
      · rintro ⟨b, hb, hkb⟩
        cases hb
        exact absurd hkb hk
    · rw [if_neg hx]

/-- What is seen after the record was overwritten tells that it could be. -/
theorem canPut_of_consistent (h : IndexedBy key get idx) (hg : ∀ x, get' x = if x = i then some a else get x)
    (hn : ∀ k, key a ≠ some k → idx' k = idx k) (hc : Consistent key get' idx') : CanPut key get i a := by
  have hat : get' i = some a := by rw [hg, if_pos rfl]
  refine ⟨fun k i' a' hk ha' hk' => ?_, fun old hold => ?_⟩
  · by_contra hne
    have ha'' : get' i' = some a' := by rw [hg, if_neg hne, ha']
    exact hne (hc.unique k i' a' i a ha'' hk' hat hk)
  · cases hko : key old with
    | none => exact .inl rfl
    | some k =>
      refine .inr ?_
      by_contra hne
      have hidx : idx' k = some i := by
        rw [hn k (fun hk => hne hk.symm)]
        exact (h k i).2 ⟨old, hold, hko⟩
      -- the old key still leads to `i`, so some record has it; before, only the overwritten one had
      obtain ⟨x, b, hb, hkb⟩ := (hc.found k).1 (by rw [hidx, Option.bind_some, hat]; rfl)
      rw [hg] at hb
      split at hb
      · cases hb; exact hne hkb.symm
      · rename_i hx
        exact hx (h.unique hb hkb hold hko)

/-- A record is overwritten by one with the same key. -/
theorem rewrite (h : IndexedBy key get idx) {old : α} (hold : get i = some old) (hk : key a = key old)
    (hg : ∀ x, get' x = if x = i then some a else get x) : IndexedBy key get' idx := by
  intro k x
  rw [h k x, hg]
  by_cases hx : x = i
  · subst hx
    rw [if_pos rfl, hold]
    constructor
    · rintro ⟨b, hb, hkb⟩
      cases hb
      exact ⟨a, rfl, hk.trans hkb⟩
    · rintro ⟨b, hb, hkb⟩
      cases hb
      exact ⟨old, rfl, hk.symm.trans hkb⟩
  · rw [if_neg hx]

/-- If the map is not touched, the new record must have the key of the old one. -/
theorem same_key_of_consistent (h : IndexedBy key get idx) {old : α} (hold : get i = some old)
    (hg : ∀ x, get' x = if x = i then some a else get x) (hc : Consistent key get' idx) : key a = key old := by
  have hat : get' i = some a := by rw [hg, if_pos rfl]
  cases hko : key old with
  | some k =>
    have hidx := (h k i).2 ⟨old, hold, hko⟩
    obtain ⟨x, b, hb, hkb⟩ := (hc.found k).1 (by rw [hidx, Option.bind_some, hat]; rfl)
    rw [hg] at hb
    split at hb
    · cases hb; exact hkb
    · rename_i hx
      exact absurd (h.unique hb hkb hold hko) hx
  | none =>
    cases hka : key a with
    | none => rfl
    | some k =>
      -- the key of the new record is not in the map, unless another record has it
      obtain ⟨b, hb⟩ := Option.isSome_iff_exists.1 ((hc.found k).2 ⟨i, a, hat, hka⟩)
      obtain ⟨x, hx, -⟩ := Option.bind_eq_some_iff.1 hb
      obtain ⟨c, hcx, hkc⟩ := (h k x).1 hx
      by_cases hxi : x = i
      · rw [hxi, hold] at hcx
        cases hcx
        rw [hko] at hkc; cases hkc
      · exact absurd (hc.unique k x c i a (by rw [hg, if_neg hxi, hcx]) hkc hat hka) hxi

/-- A record is removed together with its key. -/
theorem erase (h : IndexedBy key get idx) {old : α} (hold : get i = some old)
    (hg : ∀ x, get' x = if x = i then none else get x) (hi : ∀ k, key old = some k → idx' k = none)
    (hn : ∀ k, key old ≠ some k → idx' k = idx k) : IndexedBy key get' idx' := by
  intro k x
  rw [hg]
  by_cases hk : key old = some k
  · rw [hi k hk]
    constructor
    · intro hx; cases hx
    · rintro ⟨b, hb, hkb⟩
      split at hb
      · cases hb
      · rename_i hx
        exact absurd (h.unique hb hkb hold hk) hx
  · rw [hn k hk, h k x]
    by_cases hx : x = i
    · subst hx
      rw [if_pos rfl, hold]
      constructor
      · rintro ⟨b, hb, hkb⟩
        cases hb
        exact absurd hkb hk
      · rintro ⟨b, hb, -⟩
        cases hb
    · rw [if_neg hx]

end IndexedBy

end Quorum
