/-
`nextRun` as it is written, through the calendar: the year, the month, the day and the hour of the time are read off
and `time.Date` makes a time of them again, with an hour that may be past the end of the day. In a zone whose offset
is a whole number of minutes this is the arithmetic of `nextRunIn`, and the schedules of the documentation run at
every slot of their grid, over the ends of hours, days, months and years.
-/
import Quorum.Cron.Schedules
import Quorum.Job.Backoff
import Quorum.Lib.Civil

namespace Quorum

namespace Cron

/-- `time.Hour`. -/
def hour : Duration := 60 * minute

/-- The length of a day. -/
def day : Duration := 24 * hour

/-- The date on the wall clock of a zone. -/
def dateOf (zone : Duration) (t : Time) : Civil.Date := .ofDayNumber ((t + zone) / day)

/-- The hour on the wall clock of a zone. -/
def hourOf (zone : Duration) (t : Time) : Int := (t + zone) / hour % 24

/-- `time.Date` at the start of a minute. The month is one of the calendar; an hour past the end of the day is one of
the next. -/
def timeDate (zone : Duration) (year : Int) (month : Nat) (dayOfMonth hours minutes : Int) : Time :=
  Civil.dayNumber year month dayOfMonth * day + hours * hour + minutes * minute - zone

/-- `nextRun` on 64-bit integers, with the times made by `time.Date`. -/
def nextRunDate (zone : Duration) (schedule : String) (t : Time) : Time :=
  let schedule := trimSpace schedule
  let fromMin := t - t % minute
  if schedule = "* * * * *" then fromMin + minute
  else if "*/".toList.isPrefixOf schedule.toList then
    match fields schedule with
    | [first, _, _, _, _] =>
      match atoi (first.drop 2) with
      | none => 0
      | some interval =>
        if interval ≤ 0 then 0
        else
          let date := dateOf zone fromMin
          let currentMin := minuteOfHour (fromMin + zone)
          let nextMin := Int.bmod ((currentMin / interval + 1) * interval) (1 <<< 64)
          if nextMin ≥ 60 then timeDate zone date.year date.month date.day (hourOf zone fromMin + 1) 0
          else timeDate zone date.year date.month date.day (hourOf zone fromMin) nextMin
    | _ => 0
  else 0

/-! ## The calendar taken out -/

theorem atoi_lt {cs : List Char} {n : Int} (h : atoi cs = some n) : n < 2 ^ 63 := by
  unfold atoi at h
  obtain ⟨-, hrange⟩ := Option.filter_eq_some_iff.1 h
  rw [Bool.and_eq_true, decide_eq_true_eq, decide_eq_true_eq] at hrange
  have hword : ((1 <<< 63 : Nat) : Int) = 2 ^ 63 := by decide
  rw [← hword]
  exact hrange.2

/-- However large the interval is, the next multiple of it after a minute of the hour fits into 64 bits. -/
theorem nextMin_word {m n : Int} (hlo : 0 ≤ m) (hm : m < 60) (hn : 0 < n) (hword : n < 2 ^ 63) :
    Int.bmod ((m / n + 1) * n) (1 <<< 64) = (m / n + 1) * n := by
  have hle : m / n * n ≤ m := Int.ediv_mul_le m (by omega)
  have hdiv : 0 ≤ m / n := Int.ediv_nonneg hlo (by omega)
  have hmul : 0 ≤ m / n * n := Int.mul_nonneg hdiv (by omega)
  rw [Int.add_mul, Int.one_mul]
  refine bmod_word (by omega) ?_
  by_cases hsmall : n < 60
  · omega
  · rw [Int.ediv_eq_zero_of_lt hlo (by omega)]
    omega

/-- `hours` and `minutes` after the start of the day of `f`, counted from the hour of `f`. -/
theorem wallclock_arith {f zone : Int} (hf : (f + zone) % 60000000000 = 0) (k w : Int) :
    (f + zone) / 86400000000000 * 86400000000000 + ((f + zone) / 3600000000000 % 24 + k) * 3600000000000 +
        w * 60000000000 - zone =
      f - (f + zone) / 60000000000 % 60 * 60000000000 + (60 * k + w) * 60000000000 := by
  omega

theorem fromMin_arith (t : Int) {zone : Int} (hz : zone % 60000000000 = 0) :
    (t - t % 60000000000 + zone) % 60000000000 = 0 := by
  omega

theorem timeDate_dateOf {zone : Duration} {f : Time} (hf : (f + zone) % minute = 0) (k w : Int) :
    timeDate zone (dateOf zone f).year (dateOf zone f).month (dateOf zone f).day (hourOf zone f + k) w =
      f - minuteOfHour (f + zone) * minute + (60 * k + w) * minute := by
  unfold timeDate dateOf
  rw [Civil.dayNumber_ofDayNumber]
  exact wallclock_arith hf k w

theorem nextRunDate_eq {zone : Duration} (hz : zone % minute = 0) (schedule : String) (t : Time) :
    nextRunDate zone schedule t = nextRunIn zone schedule t := by
  unfold nextRunDate nextRunIn
  dsimp only
  by_cases hevery : trimSpace schedule = "* * * * *"
  · rw [if_pos hevery, if_pos hevery]
  rw [if_neg hevery, if_neg hevery]
  generalize "*/".toList.isPrefixOf (trimSpace schedule).toList = slash
  cases slash with
  | false => rw [if_neg Bool.false_ne_true, if_neg Bool.false_ne_true]
  | true =>
    rw [if_pos rfl, if_pos rfl]
    generalize fields (trimSpace schedule) = fs
    -- only five fields are looked at
    rcases fs with _ | ⟨first, _ | ⟨_, _ | ⟨_, _ | ⟨_, _ | ⟨_, _ | ⟨_, _⟩⟩⟩⟩⟩⟩
    iterate 5 exact rfl
    · dsimp only
      cases hatoi : atoi (first.drop 2) with
      | none => rfl
      | some n =>
        dsimp only
        by_cases hpos : n ≤ 0
        · rw [if_pos hpos, if_pos hpos]
        · obtain ⟨hlo, hm⟩ := minuteOfHour_range (t - t % minute + zone)
          have hfrom := fromMin_arith t hz
          rw [if_neg hpos, if_neg hpos, nextMin_word hlo hm (by omega) (atoi_lt hatoi)]
          split
          · exact timeDate_dateOf hfrom 1 0
          · have hsame := timeDate_dateOf hfrom 0 ((minuteOfHour (t - t % minute + zone) / n + 1) * n)
            rw [Int.add_zero, Int.mul_zero, Int.zero_add] at hsame
            exact hsame
    · rfl

/-! ## The documented schedules -/

theorem isDigit_not_space {c : Char} (h : c.isDigit = true) : isSpace c = false := by
  have hrange : 48 ≤ c.toNat ∧ c.toNat ≤ 57 := by
    unfold Char.isDigit at h
    rw [Bool.and_eq_true, decide_eq_true_eq, decide_eq_true_eq] at h
    exact ⟨UInt32.le_iff_toNat_le.1 h.1, UInt32.le_iff_toNat_le.1 h.2⟩
  unfold isSpace
  simp only [Bool.or_eq_false_iff, Bool.and_eq_false_iff, decide_eq_false_iff_not]
  omega

theorem digits_not_space {cs : List Char} {n : Int} (h : digits cs = some n) : ∀ c ∈ cs, isSpace c = false := by
  unfold digits at h
  split at h
  · rename_i hdigits
    intro c hc
    exact isDigit_not_space (List.all_eq_true.1 hdigits.2 c hc)
  · cases h

theorem atoi_not_space {cs : List Char} {n : Int} (h : atoi cs = some n) : ∀ c ∈ cs, isSpace c = false := by
  unfold atoi at h
  obtain ⟨hn, -⟩ := Option.filter_eq_some_iff.1 h
  split at hn
  · obtain ⟨m, hm, -⟩ := Option.map_eq_some_iff.1 hn
    exact List.forall_mem_cons.2 ⟨by decide, digits_not_space hm⟩
  · exact List.forall_mem_cons.2 ⟨by decide, digits_not_space hn⟩
  · exact digits_not_space hn

/-- The schedule `* * * * *`, which is that of the interval 1, or `*/N * * * *`. -/
def Every (n : Int) (schedule : String) : Prop :=
  (schedule = "* * * * *" ∧ n = 1) ∨ ∃ N : String, schedule = "*/" ++ N ++ " * * * *" ∧ atoi N.toList = some n ∧ 1 ≤ n

theorem interval_every {n : Int} {schedule : String} (h : Every n schedule) : interval schedule = some n := by
  rcases h with ⟨rfl, rfl⟩ | ⟨N, rfl, hatoi, hn⟩
  · decide +kernel
  · have htext : ("*/" ++ N ++ " * * * *").toList = '*' :: ('/' :: N.toList ++ " * * * ".toList) ++ ['*'] := by
      rw [String.toList_append, String.toList_append]
      simp
    have htrim : trimSpace ("*/" ++ N ++ " * * * *") = "*/" ++ N ++ " * * * *" := by
      show String.ofList (trim isSpace ("*/" ++ N ++ " * * * *").toList) = _
      rw [htext, trim_eq_self _ (by decide) (by decide), ← htext, String.ofList_toList]
    have hfields : fields ("*/" ++ N ++ " * * * *") = ['*' :: '/' :: N.toList, star, star, star, star] := by
      have hfree : ∀ c ∈ '*' :: '/' :: N.toList, isSpace c = false :=
        List.forall_mem_cons.2 ⟨by decide, List.forall_mem_cons.2 ⟨by decide, atoi_not_space hatoi⟩⟩
      have hrest : words isSpace "* * * *".toList = [star, star, star, star] := by decide +kernel
      show words isSpace ("*/" ++ N ++ " * * * *").toList = _
      rw [htext, show '*' :: ('/' :: N.toList ++ " * * * ".toList) ++ ['*'] = ('*' :: '/' :: N.toList) ++ ' ' ::
        "* * * *".toList by simp, words_break _ _ (by decide), words_word (List.cons_ne_nil _ _) hfree, hrest]
      rfl
    have hevery : "*/" ++ N ++ " * * * *" ≠ "* * * * *" := by
      intro heq
      have hchars := congrArg String.toList heq
      rw [htext] at hchars
      simp at hchars
    unfold interval
    dsimp only
    rw [htrim, if_neg hevery, htext, hfields, if_pos]
    · show (atoi N.toList).filter _ = some n
      rw [hatoi, Option.filter_some, if_pos (decide_eq_true (by omega))]
    · simp

/-- `nextRun` on the documented schedules, in a zone whose offset is a whole number of minutes: it returns the least
time after `from` that is at the start of a minute whose number in the hour is a multiple of the interval, and so goes
on and on. -/
theorem nextRun_isLeast {zone : Duration} (hz : zone % minute = 0) {n : Int} {schedule : String} (hs : Every n schedule)
    (t : Time) :
    t < nextRunDate zone schedule t ∧ OnGrid zone n (nextRunDate zone schedule t) ∧
      (∀ u, t < u → OnGrid zone n u → nextRunDate zone schedule t ≤ u) ∧
      ∀ j k, j < k → (nextRunDate zone schedule)^[j] t < (nextRunDate zone schedule)^[k] t := by
  have hinterval := interval_every hs
  have hnext : nextRunDate zone schedule = gridNext zone n := by
    funext u
    rw [nextRunDate_eq hz, nextRunIn_eq, hinterval]
  have hsucc := gridNext_isSuccessor hz (interval_pos hinterval)
  rw [hnext]
  refine ⟨hsucc.lt t, hsucc.mem t, ?_, ?_⟩
  · intro u htu hu
    exact hsucc.least t u hu htu
  · intro j k hjk
    exact hsucc.iterate_lt t hjk

/-- Every seven minutes, in a zone that is five and a half hours ahead: after the last run of a year comes the first
of the next. -/
theorem newYear_isLeast :
    let zone := 5 * hour + 30 * minute
    let t := timeDate zone 2024 12 31 23 56
    nextRunDate zone "*/7 * * * *" t = timeDate zone 2025 1 1 0 0 ∧
      ∀ u, t < u → OnGrid zone 7 u → nextRunDate zone "*/7 * * * *" t ≤ u := by
  intro zone t
  have hzone : zone % minute = 0 := by decide +kernel
  have hevery : Every 7 "*/7 * * * *" := .inr ⟨"7", by decide +kernel, by decide +kernel, by decide⟩
  exact ⟨by decide +kernel, (nextRun_isLeast hzone hevery t).2.2.1⟩

end Cron

end Quorum
