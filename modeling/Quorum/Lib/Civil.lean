/-
The Gregorian calendar, with days counted from 1 January of year 1. A year is found by taking out the cycles of 400,
100, 4 and 1 years, a month by the days before it.
-/
import Mathlib.Data.Int.Order.Basic
import Mathlib.Data.List.Basic

namespace Quorum

namespace Civil

def isLeap (year : Int) : Bool := year % 4 = 0 ∧ (year % 100 ≠ 0 ∨ year % 400 = 0)

def daysBeforeYear (year : Int) : Int := 365 * (year - 1) + (year - 1) / 4 - (year - 1) / 100 + (year - 1) / 400

/-- The days of a common year before each month, and of the whole year. -/
def daysBefore : List Int := [0, 31, 59, 90, 120, 151, 181, 212, 243, 273, 304, 334, 365]

/-- The days of the year before a month; month 13 is the end of the year. -/
def daysBeforeMonth (leap : Bool) (month : Nat) : Int :=
  (daysBefore[month - 1]?).getD 0 + if leap ∧ 2 < month then 1 else 0

/-- The number of a day; a day past the end of its month counts on. -/
def dayNumber (year : Int) (month : Nat) (day : Int) : Int :=
  daysBeforeYear year + daysBeforeMonth (isLeap year) month + (day - 1)

/-- A day of the calendar. -/
structure Date where
  year : Int
  month : Nat
  day : Int
  month_pos : 1 ≤ month
  month_le : month ≤ 12
  day_pos : 1 ≤ day
  day_le : daysBeforeMonth (isLeap year) month + day ≤ daysBeforeMonth (isLeap year) (month + 1)

/-! ## The year of a day -/

/-- The 400-, 100-, 4- and 1-year cycles before a day, and the days after them. -/
structure Cycles where
  n400 : Int
  n100 : Int
  n4 : Int
  n1 : Int
  yday : Int

/-- The last day of a leap year and of a leap century does not begin another cycle. -/
def cycles (z : Int) : Cycles :=
  let d := z % 146097
  let n100 := min (d / 36524) 3
  let d := d - 36524 * n100
  let d' := d % 1461
  let n1 := min (d' / 365) 3
  { n400 := z / 146097, n100 := n100, n4 := d / 1461, n1 := n1, yday := d' - 365 * n1 }

def Cycles.year (c : Cycles) : Int := 400 * c.n400 + 100 * c.n100 + 4 * c.n4 + c.n1 + 1

theorem cycles_range (z : Int) : 0 ≤ (cycles z).n100 ∧ (cycles z).n100 ≤ 3 ∧ 0 ≤ (cycles z).n4 ∧ (cycles z).n4 ≤ 24 ∧
    0 ≤ (cycles z).n1 ∧ (cycles z).n1 ≤ 3 := by
  simp only [cycles]
  omega

theorem daysBeforeYear_year {c : Cycles} (h100 : 0 ≤ c.n100 ∧ c.n100 ≤ 3) (h4 : 0 ≤ c.n4 ∧ c.n4 ≤ 24)
    (h1 : 0 ≤ c.n1 ∧ c.n1 ≤ 3) :
    daysBeforeYear c.year = 146097 * c.n400 + 36524 * c.n100 + 1461 * c.n4 + 365 * c.n1 := by
  unfold daysBeforeYear Cycles.year
  omega

theorem cycles_sum (z : Int) : daysBeforeYear (cycles z).year + (cycles z).yday = z := by
  obtain ⟨h1, h2, h3, h4, h5, h6⟩ := cycles_range z
  rw [daysBeforeYear_year ⟨h1, h2⟩ ⟨h3, h4⟩ ⟨h5, h6⟩]
  simp only [cycles]
  omega

/-- Leap years end a cycle of four, unless they end a century that is not the last of its four. -/
theorem isLeap_year {c : Cycles} (h100 : 0 ≤ c.n100 ∧ c.n100 ≤ 3) (h4 : 0 ≤ c.n4 ∧ c.n4 ≤ 24)
    (h1 : 0 ≤ c.n1 ∧ c.n1 ≤ 3) :
    isLeap c.year = true ↔ c.n1 = 3 ∧ (c.n4 ≠ 24 ∨ c.n100 = 3) := by
  unfold isLeap Cycles.year
  rw [decide_eq_true_eq]
  omega

theorem cycles_yday (z : Int) :
    0 ≤ (cycles z).yday ∧ (cycles z).yday < 365 + if isLeap (cycles z).year then 1 else 0 := by
  obtain ⟨h1, h2, h3, h4, h5, h6⟩ := cycles_range z
  have hleap := isLeap_year ⟨h1, h2⟩ ⟨h3, h4⟩ ⟨h5, h6⟩
  have hlast : (cycles z).yday ≥ 365 → (cycles z).n1 = 3 ∧ ((cycles z).n4 ≠ 24 ∨ (cycles z).n100 = 3) := by
    simp only [cycles]
    omega
  have hrange : 0 ≤ (cycles z).yday ∧ (cycles z).yday ≤ 365 := by
    simp only [cycles]
    omega
  refine ⟨hrange.1, ?_⟩
  split
  · omega
  · rename_i hcommon
    by_contra hlong
    exact hcommon (hleap.2 (hlast (by omega)))

/-! ## The month of a day -/

/-- The number of months that have begun by a day of the year. -/
def monthOf (leap : Bool) (yday : Int) : Nat := (List.range 12).countP fun i => daysBeforeMonth leap (i + 1) ≤ yday

/-- Where a predicate holds up to some point and not beyond it, the point is how often it holds. -/
theorem iff_lt_countP_range {p : Nat → Bool} {n : Nat}
    (hdown : ∀ i, i + 1 < n → p (i + 1) = true → p i = true) {i : Nat} (hi : i < n) :
    p i = true ↔ i < (List.range n).countP p := by
  induction n generalizing i with
  | zero => exact absurd hi (Nat.not_lt_zero i)
  | succ n ih =>
    have hih := fun {i : Nat} (hi : i < n) => ih (fun k hk => hdown k (by omega)) hi
    have hle := List.countP_le_length (p := p) (l := List.range n)
    rw [List.length_range] at hle
    rw [List.range_succ, List.countP_append, List.countP_singleton]
    cases hn : p n with
    | true =>
      -- it holds at the point before as well, so up to there the count is full
      have hfull : n ≤ (List.range n).countP p := by
        rcases Nat.eq_zero_or_pos n with hzero | hpos
        · omega
        · have hprev := hdown (n - 1) (by omega) (by rw [Nat.sub_add_cancel hpos]; exact hn)
          have hlt := (hih (by omega)).1 hprev
          omega
      rw [if_pos rfl]
      rcases Nat.lt_succ_iff_lt_or_eq.1 hi with hlt | rfl
      · exact iff_of_true ((hih hlt).2 (by omega)) (by omega)
      · exact iff_of_true hn (by omega)
    | false =>
      rw [if_neg Bool.false_ne_true, Nat.add_zero]
      rcases Nat.lt_succ_iff_lt_or_eq.1 hi with hlt | rfl
      · exact hih hlt
      · exact iff_of_false (by rw [hn]; exact Bool.false_ne_true) (by omega)

theorem daysBeforeMonth_mono (leap : Bool) (i : Nat) (hi : i < 12) :
    daysBeforeMonth leap (i + 1) ≤ daysBeforeMonth leap (i + 2) := by
  revert leap i
  decide

/-- The month of a day of the year has begun, and the next one has not. -/
theorem monthOf_spec {leap : Bool} {yday : Int} (h0 : 0 ≤ yday) (h1 : yday < 365 + if leap then 1 else 0) :
    1 ≤ monthOf leap yday ∧ monthOf leap yday ≤ 12 ∧ daysBeforeMonth leap (monthOf leap yday) ≤ yday ∧
      yday < daysBeforeMonth leap (monthOf leap yday + 1) := by
  have hbegun : ∀ {i : Nat}, i < 12 → (daysBeforeMonth leap (i + 1) ≤ yday ↔ i < monthOf leap yday) := by
    intro i hi
    have hiff :=
      iff_lt_countP_range (p := fun i => decide (daysBeforeMonth leap (i + 1) ≤ yday)) (n := 12) (fun k hk hp => ?_) hi
    · rw [decide_eq_true_eq] at hiff
      exact hiff
    · rw [decide_eq_true_eq] at hp ⊢
      exact Int.le_trans (daysBeforeMonth_mono leap k (by omega)) hp
  have hle : monthOf leap yday ≤ 12 := List.countP_le_length
  have hfirst : daysBeforeMonth leap 1 = 0 := by cases leap <;> rfl
  have hpos : 0 < monthOf leap yday := (hbegun (by decide)).1 (by rw [hfirst]; exact h0)
  refine ⟨hpos, hle, ?_, ?_⟩
  · have hlast := (hbegun (i := monthOf leap yday - 1) (by omega)).2 (by omega)
    rwa [Nat.sub_add_cancel hpos] at hlast
  · rcases Nat.lt_or_ge (monthOf leap yday) 12 with hlt | hge
    · exact Int.not_le.1 fun hbegan => Nat.lt_irrefl _ ((hbegun hlt).1 hbegan)
    · -- after December comes the end of the year
      rw [Nat.le_antisymm hle hge]
      have hyear : daysBeforeMonth leap (12 + 1) = 365 + if leap then 1 else 0 := by cases leap <;> rfl
      rw [hyear]
      exact h1

/-- The date of a day of a year. -/
def Date.ofYday (year yday : Int) (h : 0 ≤ yday ∧ yday < 365 + if isLeap year then 1 else 0) : Date where
  year := year
  month := monthOf (isLeap year) yday
  day := yday - daysBeforeMonth (isLeap year) (monthOf (isLeap year) yday) + 1
  month_pos := (monthOf_spec h.1 h.2).1
  month_le := (monthOf_spec h.1 h.2).2.1
  day_pos := by
    have hbegun := (monthOf_spec h.1 h.2).2.2.1
    omega
  day_le := by
    have hnext := (monthOf_spec h.1 h.2).2.2.2
    omega

theorem dayNumber_ofYday {year yday : Int} (h : 0 ≤ yday ∧ yday < 365 + if isLeap year then 1 else 0) :
    dayNumber year (Date.ofYday year yday h).month (Date.ofYday year yday h).day = daysBeforeYear year + yday := by
  unfold dayNumber Date.ofYday
  dsimp only
  omega

/-- The date of a day. -/
def Date.ofDayNumber (z : Int) : Date := .ofYday (cycles z).year (cycles z).yday (cycles_yday z)

theorem dayNumber_ofDayNumber (z : Int) :
    dayNumber (Date.ofDayNumber z).year (Date.ofDayNumber z).month (Date.ofDayNumber z).day = z :=
  (dayNumber_ofYday (cycles_yday z)).trans (cycles_sum z)

end Civil

end Quorum
