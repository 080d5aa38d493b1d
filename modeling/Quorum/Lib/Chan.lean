/-
Buffered Go channels seen one operation at a time: the waiting values, oldest first, never more
than the capacity. The non-blocking forms (`select` with a `default` branch) are total functions; a
blocking operation is a step that is not taken while it is not possible.
-/
import Mathlib.Data.List.Basic

namespace Quorum

/-- A buffered channel. -/
structure Chan (α : Type) where
  cap : Nat
  buf : List α
  le_cap : buf.length ≤ cap

namespace Chan

variable {α : Type}

/-- `make(chan α, cap)`. -/
def make (cap : Nat) : Chan α := ⟨cap, [], Nat.zero_le cap⟩

theorem length_snoc_le {ch : Chan α} (h : ch.buf.length < ch.cap) (x : α) : (ch.buf ++ [x]).length ≤ ch.cap := by
  rw [List.length_append]
  exact h

theorem length_tail_le {ch : Chan α} {x : α} {rest : List α} (h : ch.buf = x :: rest) : rest.length ≤ ch.cap := by
  have hle := ch.le_cap
  rw [h, List.length_cons] at hle
  omega

/-- `ch <- x`; none while the channel is full and the sender waits. -/
def send (ch : Chan α) (x : α) : Option (Chan α) :=
  if h : ch.buf.length < ch.cap then some ⟨ch.cap, ch.buf ++ [x], length_snoc_le h x⟩ else none

/-- `select { case ch <- x: default: }`: a full channel drops the value. -/
def trySend (ch : Chan α) (x : α) : Chan α :=
  if h : ch.buf.length < ch.cap then ⟨ch.cap, ch.buf ++ [x], length_snoc_le h x⟩ else ch

/-- `select { case x = <-ch: default: }`. -/
def tryRecv (ch : Chan α) : Option (α × Chan α) :=
  match h : ch.buf with
  | [] => none
  | x :: rest => some (x, ⟨ch.cap, rest, length_tail_le h⟩)

/-- The value that `trySend` drops. -/
def refused (ch : Chan α) (x : α) : Option α := if ch.buf.length < ch.cap then none else some x

theorem send_of_lt {ch : Chan α} (h : ch.buf.length < ch.cap) (x : α) :
    ∃ ch', ch.send x = some ch' ∧ ch'.buf = ch.buf ++ [x] ∧ ch'.cap = ch.cap :=
  ⟨_, dif_pos h, rfl, rfl⟩

theorem buf_trySend (ch : Chan α) (x : α) :
    (ch.trySend x).buf = if ch.buf.length < ch.cap then ch.buf ++ [x] else ch.buf := by
  unfold trySend
  split <;> rfl

theorem cap_trySend (ch : Chan α) (x : α) : (ch.trySend x).cap = ch.cap := by
  unfold trySend
  split <;> rfl

/-! ## Counting: a value is in the channel, or it was dropped -/

theorem count_trySend [DecidableEq α] (ch : Chan α) (x y : α) :
    (ch.trySend x).buf.count y + (ch.refused x).toList.count y = ch.buf.count y + [x].count y := by
  unfold trySend refused
  split
  · exact List.count_append ..
  · rfl

theorem length_trySend (ch : Chan α) (x : α) :
    (ch.trySend x).buf.length + (ch.refused x).toList.length = ch.buf.length + 1 := by
  unfold trySend refused
  split
  · exact List.length_append ..
  · rfl

theorem tryRecv_eq_some {ch ch' : Chan α} {x : α} (h : ch.tryRecv = some (x, ch')) : ch.buf = x :: ch'.buf := by
  unfold tryRecv at h
  split at h
  · cases h
  · rename_i hbuf
    cases h
    exact hbuf

theorem tryRecv_cap {ch ch' : Chan α} {x : α} (h : ch.tryRecv = some (x, ch')) : ch'.cap = ch.cap := by
  unfold tryRecv at h
  split at h
  · cases h
  · cases h; rfl

theorem tryRecv_eq_none {ch : Chan α} : ch.tryRecv = none ↔ ch.buf = [] := by
  unfold tryRecv
  split
  · rename_i hbuf; exact iff_of_true rfl hbuf
  · rename_i hbuf; exact iff_of_false nofun (by rw [hbuf]; exact List.cons_ne_nil _ _)

/-! ## The same channel, its values seen through a function -/

theorem length_map_le {β : Type} (f : α → β) (ch : Chan α) : (ch.buf.map f).length ≤ ch.cap := by
  rw [List.length_map]
  exact ch.le_cap

def map {β : Type} (f : α → β) (ch : Chan α) : Chan β := ⟨ch.cap, ch.buf.map f, length_map_le f ch⟩

theorem map_trySend {β : Type} (f : α → β) (ch : Chan α) (x : α) : (ch.trySend x).map f = (ch.map f).trySend (f x) := by
  unfold trySend
  by_cases h : ch.buf.length < ch.cap
  · rw [dif_pos h, dif_pos (by simpa [map] using h)]
    simp [map]
  · rw [dif_neg h, dif_neg (by simpa [map] using h)]

theorem map_tryRecv {β : Type} (f : α → β) (ch : Chan α) :
    (ch.map f).tryRecv = ch.tryRecv.map fun p => (f p.1, p.2.map f) := by
  obtain ⟨cap, buf, hle⟩ := ch
  cases buf with
  | nil => rfl
  | cons x rest => rfl

end Chan

end Quorum
