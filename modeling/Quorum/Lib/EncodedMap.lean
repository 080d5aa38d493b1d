/-
Maps whose keys and values are kept in another form, as in a bucket of a file: keys under an injective encoding,
values under any. The operations on the encoded map are those on the map, and a loop over it in the order of the
encoded keys is a loop over the map in the order that the encoding gives its keys.
-/
import Mathlib.Data.List.Sort
import Quorum.Lib.GoMap

namespace Quorum

variable {κ κ' ν ν' : Type}

namespace RangeOrder

section
variable (r : κ' → κ' → Prop) [DecidableRel r]

/-- The keys in the order of what stands for them. -/
def sortedBy (f : κ → κ') : RangeOrder κ :=
  ⟨List.insertionSort fun a b => r (f a) (f b), List.perm_insertionSort _⟩

/-- The keys in their order. -/
def sorted : RangeOrder κ' := ⟨List.insertionSort r, List.perm_insertionSort r⟩

theorem map_sortedBy (f : κ → κ') (l : List κ) : ((sortedBy r f).order l).map f = (sorted r).order (l.map f) :=
  List.map_insertionSort (fun a b => r (f a) (f b)) r f l fun _ _ _ _ => Iff.rfl

end

end RangeOrder

namespace GoMap

section
variable (f : κ ↪ κ') (g : ν → ν')

def encodeEntry : (Σ _ : κ, ν) → (Σ _ : κ', ν') := Sigma.map f fun _ => g

/-- The map with its keys and values encoded. -/
def encode (m : GoMap κ ν) : GoMap κ' ν' where
  entries := m.entries.map (encodeEntry f g)
  nodupKeys := by
    have hkeys := m.nodupKeys
    unfold List.NodupKeys List.keys at hkeys ⊢
    rw [← List.nodup_map_iff f.injective, List.map_map] at hkeys
    rw [List.map_map]
    exact hkeys

@[simp] theorem encode_empty : encode f g ∅ = ∅ := rfl

theorem keys_encode (m : GoMap κ ν) : (encode f g m).keys = m.keys.map f := by
  show (m.entries.map (encodeEntry f g)).map Sigma.fst = (m.entries.map Sigma.fst).map f
  rw [List.map_map, List.map_map]
  rfl

/-- A walk in the order of the encoded keys. -/
theorem walk_encode {α : Type} (r : κ' → κ' → Prop) [DecidableRel r] (m : GoMap κ ν) (h : κ' → Option α) :
    ((RangeOrder.sorted r).order (encode f g m).keys).filterMap h =
      ((RangeOrder.sortedBy r f).order m.keys).filterMap fun k => h (f k) := by
  rw [keys_encode, ← RangeOrder.map_sortedBy, List.filterMap_map]
  rfl

variable [DecidableEq κ] [DecidableEq κ']

theorem lookup_encode (m : GoMap κ ν) (k : κ) : (encode f g m).lookup (f k) = (m.lookup k).map g :=
  @List.dlookup_map κ κ' _ (fun _ => ν') _ _ m.entries f f.injective (fun _ => g) k

theorem erase_encode (m : GoMap κ ν) (k : κ) : (encode f g m).erase (f k) = encode f g (m.erase k) := by
  refine AList.ext ?_
  show (m.entries.map (encodeEntry f g)).eraseP _ = (m.entries.eraseP _).map (encodeEntry f g)
  rw [List.eraseP_map]
  refine congrArg (fun p => (m.entries.eraseP p).map _) (funext fun x => ?_)
  simp [encodeEntry, Sigma.map]

theorem insert_encode (m : GoMap κ ν) (k : κ) (v : ν) : (encode f g m).insert (f k) (g v) = encode f g (m.insert k v) :=
  AList.ext (congrArg (List.cons _) (congrArg AList.entries (erase_encode f g m k)))

theorem values_encode (r : κ' → κ' → Prop) [DecidableRel r] (m : GoMap κ ν) :
    (encode f g m).values (.sorted r) = (m.values (.sortedBy r f)).map g := by
  unfold values
  rw [walk_encode, List.map_filterMap]
  exact congrArg (fun h => List.filterMap h _) (funext fun k => lookup_encode f g m k)

end

end GoMap

end Quorum
