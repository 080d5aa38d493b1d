/-
Which schedules `Add` accepts. `nextRun` takes the interval from the first of five fields and does not look at the
other four, so a schedule that restricts hours, days, months or weekdays is accepted and fired all day long.
-/
import Quorum.Cron.Slots
import Quorum.Lib.Words

namespace Quorum

namespace Cron

/-- The field `*`. -/
def star : List Char := ['*']

/-- The documented schedules: five fields, the first of them `*` or `*/N`, the others `*`. -/
def Supported (schedule : String) : Prop :=
  ∃ first, fields schedule = [first, star, star, star, star] ∧
    (first = star ∨ ∃ cs n, first = '*' :: '/' :: cs ∧ atoi cs = some n ∧ 1 ≤ n)

/-- The schedule restricts no hours, days, months or weekdays. -/
def Unrestricted (schedule : String) : Prop := ∀ f ∈ (fields schedule).tail, f = star

theorem fields_ofList (l : List Char) : fields (String.ofList l) = words isSpace l := by
  unfold fields words
  rw [String.toList_ofList]

theorem fields_trimSpace (schedule : String) : fields (trimSpace schedule) = fields schedule := by
  show fields (String.ofList (trim isSpace schedule.toList)) = _
  rw [fields_ofList, words_trim]
  rfl

/-- An accepted schedule has five stars, or a first field `*/N` and four fields of any kind. -/
theorem fields_of_interval {schedule : String} {n : Int} (h : interval schedule = some n) :
    fields schedule = [star, star, star, star, star] ∨
      ∃ cs others, fields schedule = ('*' :: '/' :: cs) :: others ∧ others.length = 4 ∧ atoi cs = some n ∧ 1 ≤ n := by
  have hpos := interval_pos h
  unfold interval at h
  dsimp only at h
  rw [← fields_trimSpace]
  split at h
  · rename_i hevery
    left
    rw [hevery]
    decide +kernel
  · split at h
    · rename_i hslash
      right
      obtain ⟨rest, hrest⟩ := List.isPrefixOf_iff_prefix.1 hslash
      generalize hfs : fields (trimSpace schedule) = fs at h
      split at h
      · rename_i first a b c d
        obtain ⟨hatoi, -⟩ := Option.filter_eq_some_iff.1 h
        -- the first field begins as the schedule does
        have hwords : words isSpace (['*', '/'] ++ rest) = first :: [a, b, c, d] := by
          rw [show ['*', '/'] ++ rest = (trimSpace schedule).toList from hrest]
          exact hfs
        have hfree : ∀ c ∈ ['*', '/'], isSpace c = false :=
          List.forall_mem_cons.2 ⟨by decide, List.forall_mem_singleton.2 (by decide)⟩
        obtain ⟨cs, hcs⟩ := beginning_of_words (List.cons_ne_nil _ _) hfree hwords
        subst hcs
        exact ⟨cs, [a, b, c, d], rfl, rfl, hatoi, hpos⟩
      · cases h
    · cases h

theorem interval_of_nextRunIn_ne {zone : Duration} {schedule : String} {t : Time} (h : nextRunIn zone schedule t ≠ 0) :
    ∃ n, interval schedule = some n := by
  rw [nextRunIn_eq] at h
  cases hn : interval schedule with
  | none =>
    rw [hn] at h
    exact absurd rfl h
  | some n => exact ⟨n, rfl⟩

theorem supported_iff_unrestricted {schedule : String} {n : Int} (h : interval schedule = some n) :
    Supported schedule ↔ Unrestricted schedule := by
  unfold Supported Unrestricted
  rcases fields_of_interval h with hstars | ⟨cs, others, hfs, hlen, hatoi, hn⟩
  · rw [hstars]
    exact iff_of_true ⟨star, rfl, .inl rfl⟩ (by decide)
  · rw [hfs]
    constructor
    · rintro ⟨first, heq, -⟩
      obtain ⟨-, hothers⟩ := List.cons.inj heq
      rw [List.tail_cons, hothers]
      decide
    · intro hall
      have hothers : others = [star, star, star, star] := List.eq_replicate_iff.2 ⟨hlen, hall⟩
      exact ⟨_, by rw [hothers], .inr ⟨cs, n, rfl, hatoi, hn⟩⟩

end Cron

namespace CronScheduler

/-- A schedule that `Add` accepts is a supported one exactly if its last four fields are stars. -/
theorem add_supported_iff {zone : Duration} {s s' : CronScheduler} {now : Time} {j : CronJob}
    (h : s.addIn zone now j = .ok s') :
    Cron.Supported j.schedule ↔ Cron.Unrestricted j.schedule := by
  obtain ⟨hnext, -⟩ := addIn_ok h
  obtain ⟨n, hn⟩ := Cron.interval_of_nextRunIn_ne hnext
  exact Cron.supported_iff_unrestricted hn

/-- A job with the schedule. -/
def report (schedule : String) : CronJob :=
  { id := "report", schedule := schedule, type := "email", priority := 1, nextRun := 0 }

theorem everyFive_supported : (new.add 0 (report "*/5 * * * *")).toOption.isSome = true ∧
    Cron.Supported "*/5 * * * *" := by
  have hok : (new.addIn 0 0 (report "*/5 * * * *")).toOption.isSome = true := by decide +kernel
  cases hadd : new.addIn 0 0 (report "*/5 * * * *") with
  | error err =>
    rw [hadd] at hok
    cases hok
  | ok s' => exact ⟨hok, (add_supported_iff hadd).2 (by unfold Cron.Unrestricted; decide +kernel)⟩

/-- Every five minutes of nine o'clock on Mondays is accepted, and runs five minutes past midnight. -/
theorem mondays_accepted :
    (new.add 0 (report "*/5 9 * * 1")).toOption.isSome = true ∧ ¬ Cron.Supported "*/5 9 * * 1" ∧
      Cron.nextRun "*/5 9 * * 1" 0 = 5 * Cron.minute := by
  refine ⟨by decide +kernel, ?_, by decide +kernel⟩
  rintro ⟨first, hfields, -⟩
  have hhour : (Cron.fields "*/5 9 * * 1")[1]? = some ['9'] := by decide +kernel
  rw [hfields] at hhour
  have hstar : some Cron.star ≠ some ['9'] := by decide
  exact hstar hhour

end CronScheduler

end Quorum
