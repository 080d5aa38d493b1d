/-
Points of an order visited by a successor function. A function that takes every place to the least point after it
visits, from any place on, the points one after the other: a list that was made by always adding the current point has
exactly the points before the next one.
-/
import Mathlib.Order.Lattice
import Mathlib.Order.Monotone.Basic
import Mathlib.Data.List.Pairwise

namespace Quorum

variable {α : Type} [LinearOrder α]

/-- `next` takes every place to the least point of `P` after it. -/
structure IsSuccessor (P : α → Prop) (next : α → α) : Prop where
  mem : ∀ a, P (next a)
  lt : ∀ a, a < next a
  least : ∀ a u, P u → a < u → next a ≤ u

/-- The points of `P` after `a` and before `b`, in order and each once. -/
structure Covers (P : α → Prop) (a b : α) (l : List α) : Prop where
  sorted : l.Pairwise (· < ·)
  mem : ∀ u, u ∈ l ↔ P u ∧ a < u ∧ u < b

variable {P : α → Prop} {next : α → α}

/-- Taken again and again, the function goes on and on. -/
theorem IsSuccessor.iterate_lt (h : IsSuccessor P next) (a : α) {j k : Nat} (hjk : j < k) :
    next^[j] a < next^[k] a := by
  have hmono : StrictMono fun k : Nat => next^[k] a := by
    refine strictMono_nat_of_lt_succ fun k => ?_
    rw [Function.iterate_succ_apply']
    exact h.lt _
  exact hmono hjk

theorem IsSuccessor.covers_nil (h : IsSuccessor P next) (a : α) : Covers P a (next a) [] := by
  refine ⟨List.Pairwise.nil, fun u => ⟨nofun, ?_⟩⟩
  rintro ⟨hu, hlo, hhi⟩
  exact absurd (h.least a u hu hlo) (not_le.2 hhi)

/-- The current point is added, and the next one becomes the current one. -/
theorem IsSuccessor.covers_snoc (h : IsSuccessor P next) {a b : α} {l : List α} (hl : Covers P a b l) (hb : P b)
    (hab : a < b) : Covers P a (next b) (l ++ [b]) := by
  refine ⟨List.pairwise_append.2 ⟨hl.sorted, List.pairwise_singleton _ _, ?_⟩, fun u => ?_⟩
  · intro u hu v hv
    rw [List.mem_singleton.1 hv]
    exact ((hl.mem u).1 hu).2.2
  · rw [List.mem_append, List.mem_singleton, hl.mem u]
    constructor
    · rintro (⟨hu, hlo, hhi⟩ | rfl)
      · exact ⟨hu, hlo, lt_trans hhi (h.lt b)⟩
      · exact ⟨hb, hab, h.lt u⟩
    · rintro ⟨hu, hlo, hhi⟩
      -- a point after `b` is not before the next one
      have hle : u ≤ b := not_lt.1 fun hbu => absurd (h.least b u hu hbu) (not_le.2 hhi)
      rcases lt_or_eq_of_le hle with hlt | heq
      · exact .inl ⟨hu, hlo, hlt⟩
      · exact .inr heq

end Quorum
