/-
The delay before a retry (`Backoff` of `internal/retry/policy.go`). The shift and the product are those of 64-bit
integers: up to a count of 33 the delay is the capped power of two, beyond it the product has wrapped, and from a
count of 55 on nothing is left. Eight of the counts in between have a product that is still positive, and hide the
wrapping below a cap.
-/
import Quorum.Job.Basic
import Mathlib.Algebra.Group.Int.Defs
import Mathlib.Algebra.Group.Nat.Defs

namespace Quorum

/-- The delay of the count `n` before the cap. -/
def uncappedBackoff (n : Nat) : Duration := Int.bmod (second * Int.bmod ((1 <<< n : Nat) : Int) (1 <<< 64)) (1 <<< 64)

theorem backoff_eq (j : Job) (maxBackoff : Duration) :
    backoff j maxBackoff = min (uncappedBackoff j.retryCount.toNat) maxBackoff := by
  show (if uncappedBackoff j.retryCount.toNat > maxBackoff then maxBackoff else uncappedBackoff j.retryCount.toNat) = _
  rcases Int.le_total (uncappedBackoff j.retryCount.toNat) maxBackoff with h | h
  · rw [if_neg (Int.not_lt.2 h), Int.min_eq_left h]
  · rw [Int.min_eq_right h]
    split
    · rfl
    · rename_i hnot
      exact Int.le_antisymm (Int.not_lt.1 hnot) h

theorem bmod_word {x : Int} (hlo : 0 ≤ x) (hhi : x < 2 ^ 63) : Int.bmod x (1 <<< 64) = x := by
  have hword : ((1 <<< 64 : Nat) : Int) = 2 ^ 64 := by decide
  have hmod : x % ((1 <<< 64 : Nat) : Int) = x := Int.emod_eq_of_lt hlo (by rw [hword]; omega)
  unfold Int.bmod
  rw [hmod, hword]
  exact if_pos (by omega)

theorem cast_two_pow (n : Nat) : (2 : Int) ^ n = ((2 ^ n : Nat) : Int) := (Int.natCast_pow 2 n).symm

/-- Up to a count of 33 nothing wraps. -/
theorem uncappedBackoff_small {n : Nat} (hn : n ≤ 33) : uncappedBackoff n = 2 ^ n * second := by
  have hpow : 2 ^ n ≤ 2 ^ 33 := Nat.pow_le_pow_right (by decide) hn
  unfold uncappedBackoff
  rw [Nat.one_shiftLeft, cast_two_pow]
  generalize 2 ^ n = m at hpow
  have hshift : Int.bmod (m : Int) (1 <<< 64) = m := bmod_word (by omega) (by omega)
  rw [hshift, Int.mul_comm]
  unfold second
  exact bmod_word (by omega) (by omega)

/-- From a count of 55 on nothing is left: a second is a multiple of 2⁹ nanoseconds. -/
theorem uncappedBackoff_large {n : Nat} (hn : 55 ≤ n) : uncappedBackoff n = 0 := by
  obtain ⟨k, rfl⟩ : ∃ k, n = 55 + k := ⟨n - 55, by omega⟩
  have hdvd : ((1 <<< 64 : Nat) : Int) ∣ second * ((2 ^ (55 + k) : Nat) : Int) := by
    refine ⟨1953125 * (2 ^ k : Nat), ?_⟩
    rw [Nat.pow_add, Int.natCast_mul]
    generalize ((2 ^ k : Nat) : Int) = m
    show 1000000000 * (36028797018963968 * m) = 18446744073709551616 * (1953125 * m)
    omega
  unfold uncappedBackoff
  rw [Int.mul_bmod_bmod, Nat.one_shiftLeft]
  exact Int.bmod_eq_zero_of_dvd hdvd

/-- The counts beyond 33 at which the product is positive, with the product. -/
def wrappedDelays : List (Int × Duration) :=
  [(37, 8311744956033138688), (41, 3860710780563357696), (42, 7721421561126715392), (45, 6431140267885068288),
    (47, 7277816997830721536), (50, 2882303761517117440), (51, 5764607523034234880), (53, 4611686018427387904)]

theorem wrappedDelays_eq : ∀ p ∈ wrappedDelays, uncappedBackoff p.1.toNat = p.2 := by decide +kernel

theorem uncappedBackoff_wrapped :
    ∀ n ∈ List.range' 34 21, uncappedBackoff n < second ∨ ((n : Int), uncappedBackoff n) ∈ wrappedDelays := by
  decide +kernel

/-- Beyond a count of 33 the product reaches a cap of at least a second at the eight counts only, and there only a cap
that is not above it. -/
theorem le_uncappedBackoff_iff {n : Nat} (hn : 34 ≤ n) {maxBackoff : Duration} (hmin : second ≤ maxBackoff) :
    maxBackoff ≤ uncappedBackoff n ↔ ∃ p ∈ wrappedDelays, (n : Int) = p.1 ∧ maxBackoff ≤ p.2 := by
  constructor
  · intro hle
    have hsecond : ¬ uncappedBackoff n < second := Int.not_lt.2 (Int.le_trans hmin hle)
    have hsmall : n < 55 := by
      refine Nat.lt_of_not_le fun hlarge => ?_
      rw [uncappedBackoff_large hlarge] at hsecond
      exact hsecond (by decide)
    have hmem : n ∈ List.range' 34 21 := List.mem_range'_1.2 ⟨hn, hsmall⟩
    rcases uncappedBackoff_wrapped n hmem with hlow | hin
    · exact absurd hlow hsecond
    · refine ⟨((n : Int), uncappedBackoff n), hin, rfl, ?_⟩
      dsimp only
      exact hle
  · rintro ⟨p, hp, hcount, hle⟩
    have hprod := wrappedDelays_eq p hp
    rw [← hcount, Int.toNat_natCast] at hprod
    rw [hprod]
    exact hle

/-- Beyond a count of 33 every cap is below the power of two. -/
theorem maxBackoff_le_pow {n : Nat} (hn : 34 ≤ n) {maxBackoff : Duration} (hmax : maxBackoff < 2 ^ 63) :
    maxBackoff ≤ 2 ^ n * second := by
  have hpow : 2 ^ 34 ≤ 2 ^ n := Nat.pow_le_pow_right (by decide) hn
  rw [cast_two_pow]
  generalize 2 ^ n = m at hpow
  have hprod : (2 : Int) ^ 63 ≤ m * 1000000000 := by omega
  exact Int.le_trans (Int.le_of_lt hmax) hprod

/-- The capped powers of two: at least a second, at most the cap, and not decreasing. -/
theorem backoff_bounds {j : Job} {maxBackoff : Duration} (hmin : second ≤ maxBackoff) (hn : j.retryCount ≤ 33) :
    second ≤ backoff j maxBackoff ∧ backoff j maxBackoff ≤ maxBackoff ∧
      ∀ k : Job, 0 ≤ k.retryCount → k.retryCount ≤ j.retryCount → backoff k maxBackoff ≤ backoff j maxBackoff := by
  have hmono : ∀ m n : Nat, m ≤ n → (2 : Int) ^ m * second ≤ 2 ^ n * second := by
    intro m n hmn
    have hpow : 2 ^ m ≤ 2 ^ n := Nat.pow_le_pow_right (by decide) hmn
    rw [cast_two_pow, cast_two_pow]
    exact Int.mul_le_mul_of_nonneg_right (by omega) (by decide)
  rw [backoff_eq, uncappedBackoff_small (by omega)]
  refine ⟨Int.le_min.2 ⟨?_, hmin⟩, Int.min_le_right _ _, fun k _ hk => ?_⟩
  · have hone := hmono 0 j.retryCount.toNat (Nat.zero_le _)
    rwa [Int.pow_zero, Int.one_mul] at hone
  · rw [backoff_eq, uncappedBackoff_small (by omega)]
    have hle := hmono k.retryCount.toNat j.retryCount.toNat (by omega)
    exact Int.le_min.2 ⟨Int.le_trans (Int.min_le_left _ _) hle, Int.min_le_right _ _⟩

/-- `Backoff` is the capped power of two up to a count of 33, with the bounds that follow. Beyond, it is so at eight
counts only and for caps up to a bound of the count; from a count of 55 on it is 0. -/
theorem backoff_eq_min_iff (j : Job) (maxBackoff : Duration) (hcount : 0 ≤ j.retryCount) (hmin : second ≤ maxBackoff)
    (hmax : maxBackoff < 2 ^ 63) :
    (backoff j maxBackoff = min (2 ^ j.retryCount.toNat * second) maxBackoff ↔
      j.retryCount ≤ 33 ∨ ∃ p ∈ wrappedDelays, j.retryCount = p.1 ∧ maxBackoff ≤ p.2) ∧
    (j.retryCount ≤ 33 → second ≤ backoff j maxBackoff ∧ backoff j maxBackoff ≤ maxBackoff ∧
      ∀ k : Job, 0 ≤ k.retryCount → k.retryCount ≤ j.retryCount → backoff k maxBackoff ≤ backoff j maxBackoff) ∧
    (55 ≤ j.retryCount → backoff j maxBackoff = 0) := by
  refine ⟨?_, fun hn => backoff_bounds hmin hn, fun hn => ?_⟩
  · rw [backoff_eq]
    by_cases hn : j.retryCount ≤ 33
    · rw [uncappedBackoff_small (by omega)]
      exact iff_of_true rfl (.inl hn)
    · have hreach := le_uncappedBackoff_iff (n := j.retryCount.toNat) (by omega) hmin
      rw [Int.toNat_of_nonneg hcount] at hreach
      rw [Int.min_eq_right (maxBackoff_le_pow (by omega) hmax)]
      constructor
      · intro h
        refine .inr (hreach.1 ?_)
        rw [← h]
        exact Int.min_le_left _ _
      · intro h
        exact Int.min_eq_right (hreach.2 (h.resolve_left hn))
  · have hnonneg : 0 ≤ maxBackoff := Int.le_trans (by decide) hmin
    rw [backoff_eq, uncappedBackoff_large (by omega)]
    exact Int.min_eq_left hnonneg

theorem backoff_ten_capped :
    let j := { Job.newJob 1 "report" 1 with retryCount := 10 }
    backoff j defaultMaxBackoff = 60 * second ∧
      backoff j defaultMaxBackoff = min (2 ^ 10 * second) defaultMaxBackoff := by
  refine ⟨by decide, (backoff_eq_min_iff _ defaultMaxBackoff ?_ ?_ ?_).1.2 (.inl ?_)⟩ <;> decide

/-- At a count of 34 the delay is negative; at 55 it is zero. -/
theorem backoff_wraps :
    backoff { Job.newJob 1 "report" 1 with retryCount := 34 } defaultMaxBackoff = -1266874889709551616 ∧
      min (2 ^ 34 * second) defaultMaxBackoff = 60 * second ∧
      backoff { Job.newJob 1 "report" 1 with retryCount := 55 } defaultMaxBackoff = 0 := by
  decide +kernel

end Quorum
