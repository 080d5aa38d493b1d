/-
Go's built-in maps: finite maps with an unspecified iteration order. A map is Mathlib's
association list with distinct keys; a `range` loop visits the keys in an order the runtime
chooses, which is a `RangeOrder` argument of every function that contains such a loop.
-/
import Mathlib.Data.List.AList

namespace Quorum

/-- A Go map from `κ` to `ν`. -/
abbrev GoMap (κ ν : Type) := AList (fun _ : κ => ν)

/-- The order a `range` loop over a map visits the keys in: any permutation of them. -/
structure RangeOrder (κ : Type) where
  order : List κ → List κ
  perm : ∀ l, (order l).Perm l

/-- The order in which the keys are stored. -/
def RangeOrder.stored {κ : Type} : RangeOrder κ := ⟨id, fun l => List.Perm.refl l⟩

theorem RangeOrder.mem_order {κ : Type} (ord : RangeOrder κ) {l : List κ} {k : κ} : k ∈ ord.order l ↔ k ∈ l :=
  (ord.perm l).mem_iff

theorem RangeOrder.nodup_order {κ : Type} (ord : RangeOrder κ) {l : List κ} (h : l.Nodup) : (ord.order l).Nodup :=
  (ord.perm l).nodup_iff.2 h

namespace GoMap

variable {κ ν : Type} [DecidableEq κ]

/-- The values a `range` loop over the map sees, in the order it sees them. -/
def values (ord : RangeOrder κ) (m : GoMap κ ν) : List ν := (ord.order m.keys).filterMap m.lookup

theorem lookup_insert_ite (m : GoMap κ ν) (k k' : κ) (v : ν) :
    (m.insert k v).lookup k' = if k' = k then some v else m.lookup k' := by
  split
  · rename_i h; subst h; exact AList.lookup_insert m
  · rename_i h; exact AList.lookup_insert_ne h

theorem lookup_erase_ite (m : GoMap κ ν) (k k' : κ) :
    (m.erase k).lookup k' = if k' = k then none else m.lookup k' := by
  split
  · rename_i h; subst h; exact AList.lookup_erase k' m
  · rename_i h; exact AList.lookup_erase_ne h

theorem mem_iff_lookup {m : GoMap κ ν} {k : κ} : k ∈ m ↔ ∃ v, m.lookup k = some v := by
  rw [← AList.lookup_isSome, Option.isSome_iff_exists]

theorem mem_values {ord : RangeOrder κ} {m : GoMap κ ν} {v : ν} :
    v ∈ m.values ord ↔ ∃ k, m.lookup k = some v := by
  unfold values
  rw [List.mem_filterMap]
  constructor
  · rintro ⟨k, -, h⟩; exact ⟨k, h⟩
  · rintro ⟨k, h⟩
    exact ⟨k, ord.mem_order.2 (AList.mem_keys.1 (mem_iff_lookup.2 ⟨v, h⟩)), h⟩

/-- A loop over a map in which no value occurs twice sees each value once. -/
theorem nodup_values (ord : RangeOrder κ) {m : GoMap κ ν}
    (hinj : ∀ k k' v, m.lookup k = some v → m.lookup k' = some v → k = k') : (m.values ord).Nodup :=
  (ord.nodup_order m.keys_nodup).filterMap fun k k' v hk hk' => hinj k k' v hk hk'

/-- A loop over a map whose values carry their keys sees each key once. -/
theorem nodup_map_values (ord : RangeOrder κ) {m : GoMap κ ν} {f : ν → κ}
    (hkey : ∀ k v, m.lookup k = some v → f v = k) :
    ((m.values ord).map f).Nodup := by
  refine (nodup_values ord fun k k' v hk hk' => (hkey k v hk).symm.trans (hkey k' v hk')).map_on fun v hv w hw heq => ?_
  obtain ⟨k, hk⟩ := mem_values.1 hv
  obtain ⟨k', hk'⟩ := mem_values.1 hw
  rw [hkey k v hk, hkey k' w hk'] at heq
  rw [heq, hk'] at hk
  exact (Option.some.inj hk).symm

/-- Loops over maps with the same entries see the same values, in some order. -/
theorem values_perm {m m' : GoMap κ ν} (h : ∀ k, m.lookup k = m'.lookup k) (ord ord' : RangeOrder κ) :
    (m.values ord).Perm (m'.values ord') := by
  have hkeys : m.keys.Perm m'.keys := by
    refine (List.perm_ext_iff_of_nodup m.keys_nodup m'.keys_nodup).2 fun k => ?_
    rw [← AList.mem_keys, ← AList.mem_keys, mem_iff_lookup, mem_iff_lookup, h]
  unfold values
  rw [show m.lookup = m'.lookup from funext h]
  exact (((ord.perm m.keys).trans hkeys).trans (ord'.perm m'.keys).symm).filterMap m'.lookup

/-! ## Counting entries -/

/-- The number of entries whose value passes the test. -/
def countP (p : ν → Bool) (m : GoMap κ ν) : Nat := m.entries.countP fun e => p e.2

theorem countP_erase (p : ν → Bool) (m : GoMap κ ν) (k : κ) :
    countP p (m.erase k) + ((m.lookup k).any p).toNat = countP p m := by
  obtain ⟨entries, hnodup⟩ := m
  show (entries.kerase k).countP _ + ((entries.dlookup k).any p).toNat = entries.countP _
  clear hnodup
  induction entries with
  | nil => rfl
  | cons e rest ih =>
    by_cases hk : k = e.1
    · rw [List.kerase_cons_eq hk, List.countP_cons]
      subst hk
      rw [List.dlookup_cons_eq, Option.any_some]
      cases p e.2 <;> rfl
    · rw [List.kerase_cons_ne hk, List.dlookup_cons_ne _ _ hk, List.countP_cons, List.countP_cons]
      omega

theorem countP_insert (p : ν → Bool) (m : GoMap κ ν) (k : κ) (v : ν) :
    countP p (m.insert k v) + ((m.lookup k).any p).toNat = countP p m + (p v).toNat := by
  have hinsert : countP p (m.insert k v) = countP p (m.erase k) + (p v).toNat := by
    unfold countP
    rw [AList.entries_insert, List.countP_cons]
    cases p v <;> rfl
  have herase := countP_erase p m k
  omega

/-- A loop that keeps the keys whose value passes the test keeps as many. -/
theorem length_filter_order (ord : RangeOrder κ) (p : ν → Bool) (m : GoMap κ ν) :
    ((ord.order m.keys).filter fun k => (m.lookup k).any p).length = countP p m := by
  rw [← List.countP_eq_length_filter, (ord.perm m.keys).countP_eq]
  show (m.entries.map Sigma.fst).countP _ = m.entries.countP _
  rw [List.countP_map]
  refine List.countP_congr fun e he => ?_
  have hlookup : m.lookup e.1 = some e.2 := AList.mem_lookup_iff.2 he
  simp only [Function.comp, hlookup, Option.any_some]

end GoMap

end Quorum
