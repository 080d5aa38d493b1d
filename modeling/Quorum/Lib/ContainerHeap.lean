/-
Go's `container/heap` over a slice: the sift loops `up` and `down` and the operations `Push` and
`Pop`, for an arbitrary `Less` on the elements. The loops are total without any law on `Less`, and
they only swap: whatever the order, `Push` adds exactly the new element and `Pop` removes exactly
the element at the root.
-/
import Mathlib.Data.List.Basic

namespace Quorum.ContainerHeap

variable {α : Type} (less : α → α → Bool)

/-- `h.Less(i, j)` for two positions of the slice. -/
def lessAt (h : Array α) (i j : Nat) : Bool :=
  match h[i]?, h[j]? with
  | some a, some b => less a b
  | _, _ => false

/-- `up(h, j)`: each round moves to the parent, so `j` rounds are enough. -/
def up : Nat → Nat → Array α → Array α
  | 0, _, h => h
  | fuel + 1, j, h =>
    -- at the root Go's division truncates to the root itself, as this one does
    let i := (j - 1) / 2
    if i = j ∨ lessAt less h j i = false then h else up fuel i (h.swapIfInBounds i j)

/-- The child `down` compares with: the right one when it is inside and before the left one. -/
def child (h : Array α) (j1 n : Nat) : Nat :=
  if j1 + 1 < n ∧ lessAt less h (j1 + 1) j1 = true then j1 + 1 else j1

/-- `down(h, i, n)`: each round moves to a child, so `n` rounds are enough. -/
def down : Nat → Nat → Nat → Array α → Array α
  | 0, _, _, h => h
  | fuel + 1, i, n, h =>
    let j1 := 2 * i + 1
    if n ≤ j1 then h
    else
      let j := child less h j1 n
      if lessAt less h j i = false then h else down fuel j n (h.swapIfInBounds i j)

/-- `heap.Push(h, x)`. -/
def push (h : Array α) (x : α) : Array α := up less h.size h.size (h.push x)

/-- `heap.Pop(h)`: the root goes to the end, the rest is sifted, the end is cut off. -/
def pop (h : Array α) : Option (α × Array α) :=
  let n := h.size - 1
  let h' := down less n 0 n (h.swapIfInBounds 0 n)
  h'.back?.map fun x => (x, h'.pop)

/-! ## The sift loops only swap -/

theorem swapIfInBounds_perm (h : Array α) (i j : Nat) : (h.swapIfInBounds i j).toList.Perm h.toList := by
  unfold Array.swapIfInBounds
  split
  · split
    · exact Array.perm_iff_toList_perm.1 (Array.swap_perm _ _)
    · exact List.Perm.refl _
  · exact List.Perm.refl _

theorem up_perm : ∀ (fuel j : Nat) (h : Array α), (up less fuel j h).toList.Perm h.toList
  | 0, _, h => List.Perm.refl _
  | fuel + 1, j, h => by
    simp only [up]
    split
    · exact List.Perm.refl _
    · exact (up_perm fuel _ _).trans (swapIfInBounds_perm h _ j)

theorem down_perm : ∀ (fuel i n : Nat) (h : Array α), (down less fuel i n h).toList.Perm h.toList
  | 0, _, _, h => List.Perm.refl _
  | fuel + 1, i, n, h => by
    simp only [down]
    split
    · exact List.Perm.refl _
    · split
      · exact List.Perm.refl _
      · exact (down_perm fuel _ n _).trans (swapIfInBounds_perm h i _)

theorem swapIfInBounds_getElem? {h : Array α} {i j k : Nat} (hi : k ≠ i) (hj : k ≠ j) :
    (h.swapIfInBounds i j)[k]? = h[k]? := by
  by_cases hk : k < h.size
  · rw [Array.getElem?_eq_getElem hk, Array.getElem?_eq_getElem (by simpa using hk),
      Array.getElem_swapIfInBounds_of_ne_of_ne hi hj]
  · rw [Array.getElem?_eq_none (by simpa using hk), Array.getElem?_eq_none (Nat.le_of_not_lt hk)]

/-- Sifting up an element that is not before the root leaves the root in place. -/
theorem up_root {r x : α} (hnot : less x r = false) : ∀ (fuel j : Nat) (h : Array α), 0 < j → h[0]? = some r →
    h[j]? = some x → (up less fuel j h)[0]? = some r
  | 0, _, _, _, hr, _ => hr
  | fuel + 1, j, h, hj, hr, hx => by
    simp only [up]
    split
    · exact hr
    · rename_i hgo
      rw [not_or, Bool.not_eq_false] at hgo
      have hi : 0 < (j - 1) / 2 := by
        rcases Nat.eq_zero_or_pos ((j - 1) / 2) with h0 | hpos
        · have hless := hgo.2
          rw [h0] at hless
          simp [lessAt, hx, hr, hnot] at hless
        · exact hpos
      have hlt : (j - 1) / 2 < j := by omega
      have hsize : j < h.size := (Array.getElem?_eq_some_iff.1 hx).1
      refine up_root hnot fuel _ _ hi ?_ ?_
      · rw [swapIfInBounds_getElem? (by omega) (by omega)]
        exact hr
      · rw [Array.getElem?_eq_getElem (by simp; omega), Array.getElem_swapIfInBounds_left hsize,
          ← Array.getElem?_eq_getElem hsize]
        exact hx

theorem child_lt {h : Array α} {j1 n : Nat} (hn : j1 < n) : child less h j1 n < n := by
  unfold child
  split
  · rename_i hc; exact hc.1
  · exact hn

/-- `down(h, i, n)` leaves every position from `n` on alone. -/
theorem down_getElem? : ∀ (fuel i n k : Nat) (h : Array α), i < n → n ≤ k →
    (down less fuel i n h)[k]? = h[k]?
  | 0, _, _, _, _, _, _ => rfl
  | fuel + 1, i, n, k, h, hi, hk => by
    simp only [down]
    split
    · rfl
    · rename_i hj1
      split
      · rfl
      · -- both swapped positions are below `n`, so `k` is neither
        have hlt := child_lt less (h := h) (Nat.lt_of_not_le hj1)
        rw [down_getElem? fuel _ n k _ hlt hk, swapIfInBounds_getElem? (by omega) (by omega)]

/-! ## Push and Pop -/

theorem push_perm (h : Array α) (x : α) : (push less h x).toList.Perm (x :: h.toList) := by
  unfold push
  refine (up_perm less _ _ _).trans ?_
  rw [Array.toList_push]
  exact List.perm_append_comm

/-- An element that is not before the root does not become the root. -/
theorem push_root {h : Array α} {r x : α} (hr : h[0]? = some r) (hnot : less x r = false) :
    (push less h x)[0]? = some r := by
  have hpos : 0 < h.size := (Array.getElem?_eq_some_iff.1 hr).1
  unfold push
  refine up_root less hnot _ _ _ hpos ?_ ?_
  · rw [Array.getElem?_push_lt hpos, ← Array.getElem?_eq_getElem hpos]
    exact hr
  · exact Array.getElem?_push_size

/-- `Pop` returns the root and keeps the other elements. -/
theorem pop_some {h h' : Array α} {x : α} (hp : pop less h = some (x, h')) :
    h[0]? = some x ∧ h.toList.Perm (x :: h'.toList) := by
  unfold pop at hp
  simp only [Option.map_eq_some_iff, Prod.mk.injEq] at hp
  obtain ⟨y, hy, rfl, rfl⟩ := hp
  have hperm := (down_perm less (h.size - 1) 0 (h.size - 1) (h.swapIfInBounds 0 (h.size - 1))).trans
    (swapIfInBounds_perm h 0 (h.size - 1))
  generalize hd : down less (h.size - 1) 0 (h.size - 1) (h.swapIfInBounds 0 (h.size - 1)) = d at hy hperm
  have hsize : d.size = h.size := by simpa using hperm.length_eq
  constructor
  · -- the root was swapped to the last position, which `down` does not touch
    have hlast : d[h.size - 1]? = some y := by
      rw [Array.back?_eq_getElem?, hsize] at hy; exact hy
    have hpos : 0 < h.size := by
      rcases Nat.eq_zero_or_pos h.size with h0 | h0
      · rw [Array.getElem?_eq_none (by omega)] at hlast; cases hlast
      · exact h0
    rcases Nat.eq_zero_or_pos (h.size - 1) with h1 | h1
    · rw [h1] at hd hlast
      simp only [down] at hd
      rw [← hd] at hlast
      simpa [Array.swapIfInBounds, hpos] using hlast
    · rw [← hd, down_getElem? less _ _ _ _ _ h1 (Nat.le_refl _)] at hlast
      rw [← hlast, Array.getElem?_eq_getElem (by omega), Array.getElem?_eq_getElem (by simp; omega)]
      rw [Array.getElem_swapIfInBounds_right]
  · obtain ⟨e, rfl⟩ := Array.back?_eq_some_iff.1 hy
    rw [Array.toList_push] at hperm
    rw [Array.pop_push]
    exact hperm.symm.trans List.perm_append_comm

theorem pop_none {h : Array α} : pop less h = none ↔ h = #[] := by
  unfold pop
  have hsize := ((down_perm less (h.size - 1) 0 (h.size - 1) (h.swapIfInBounds 0 (h.size - 1))).trans
    (swapIfInBounds_perm h 0 (h.size - 1))).length_eq
  simp only [Array.length_toList] at hsize
  simp only [Option.map_eq_none_iff, Array.back?_eq_none_iff, ← Array.size_eq_zero_iff, hsize]

end Quorum.ContainerHeap
