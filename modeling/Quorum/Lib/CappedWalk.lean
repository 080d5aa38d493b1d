/-
Walks under a ceiling. The level starts at the ceiling; every event moves it by its increment, and what would lift it
over the ceiling is lost. The level is the ceiling plus the least total of the events of late (`le_level_iff`), so it
stays above a bound throughout exactly if no stretch of consecutive events takes too much (`le_levels_iff`): what was
lost does not count.
-/
import Mathlib.Algebra.BigOperators.Group.List.Basic
import Mathlib.Algebra.Order.Group.Defs
import Mathlib.Data.List.Induction
import Mathlib.Data.List.Infix
import Mathlib.Order.MinMax

namespace Quorum

namespace CappedWalk

variable {α G : Type} [AddCommGroup G] [LinearOrder G]

/-- What the events add up to. -/
def total (incr : α → G) (es : List α) : G := (es.map incr).sum

/-- The level after the events. -/
def level (incr : α → G) (cap : G) (es : List α) : G := es.foldl (fun l e => min cap (l + incr e)) cap

variable {incr : α → G} {cap : G}

omit [LinearOrder G] in
theorem total_snoc (es : List α) (e : α) : total incr (es ++ [e]) = total incr es + incr e := by
  simp [total]

theorem level_snoc (es : List α) (e : α) : level incr cap (es ++ [e]) = min cap (level incr cap es + incr e) :=
  List.foldl_concat ..

variable [IsOrderedAddMonoid G]

theorem le_level_iff {b : G} {es : List α} :
    b ≤ level incr cap es ↔ ∀ late, late <:+ es → b ≤ cap + total incr late := by
  induction es using List.reverseRecOn generalizing b with
  | nil =>
    simp [level, total]
  | append_singleton es e ih =>
    rw [level_snoc, le_min_iff, ← sub_le_iff_le_add, ih]
    constructor
    · rintro ⟨hcap, hle⟩ late hlate
      obtain rfl | ⟨earlier, rfl, hearlier⟩ := List.suffix_concat_iff.1 hlate
      · simpa [total] using hcap
      · have hb := hle earlier hearlier
        rwa [sub_le_iff_le_add, add_assoc, ← total_snoc] at hb
    · intro hle
      refine ⟨by simpa [total] using hle [] List.nil_suffix, fun late hlate => ?_⟩
      rw [sub_le_iff_le_add, add_assoc, ← total_snoc]
      exact hle _ (List.suffix_concat_iff.2 (.inr ⟨late, rfl, hlate⟩))

/-- The rule for windows: the bound holds after every prefix exactly if it holds of every stretch of events. -/
theorem le_levels_iff {b : G} {es : List α} :
    (∀ pre, pre <+: es → b ≤ level incr cap pre) ↔ ∀ window, window <:+: es → b ≤ cap + total incr window := by
  constructor
  · intro h window hwindow
    obtain ⟨pre, hlate, hpre⟩ := List.infix_iff_suffix_prefix.1 hwindow
    exact le_level_iff.1 (h pre hpre) window hlate
  · intro h pre hpre
    refine le_level_iff.2 fun late hlate => ?_
    exact h late (List.infix_iff_suffix_prefix.2 ⟨pre, hlate, hpre⟩)

end CappedWalk

end Quorum
