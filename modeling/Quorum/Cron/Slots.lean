/-
Which slots of a schedule are fired. `nextRun` takes a time to the next one on the minute grid of the schedule, and a
tick moves a due job on from the slot it had, not from the clock: whatever the ticks are, a registered job is
submitted for the slots after its `Add` one after the other, none of them early.
-/
import Quorum.Cron.Scheduler
import Quorum.Lib.Machine
import Quorum.Lib.Successor
import Mathlib.Data.Int.Order.Basic

namespace Quorum

namespace Cron

/-! ## The grid of a schedule -/

/-- The interval of a schedule in minutes: the schedules `nextRun` supports. -/
def interval (schedule : String) : Option Int :=
  let schedule := trimSpace schedule
  if schedule = "* * * * *" then some 1
  else if "*/".toList.isPrefixOf schedule.toList then
    match fields schedule with
    | [first, _, _, _, _] => (atoi (first.drop 2)).filter fun n => 0 < n
    | _ => none
  else none

/-- The start of a minute whose number in the hour, on the local clock, is a multiple of the interval. -/
def OnGrid (zone : Duration) (n : Int) (t : Time) : Prop := t % minute = 0 ∧ minuteOfHour (t + zone) % n = 0

/-- The multiple of the interval after the current minute, within the hour or at its end. -/
def minutesOn (n currentMin : Int) : Int := min ((currentMin / n + 1) * n) 60

/-- The time `nextRun` returns for an interval. -/
def gridNext (zone : Duration) (n : Int) (t : Time) : Time :=
  let fromMin := t - t % minute
  let currentMin := minuteOfHour (fromMin + zone)
  fromMin - currentMin * minute + minutesOn n currentMin * minute

theorem minuteOfHour_range (t : Time) : 0 ≤ minuteOfHour t ∧ minuteOfHour t < 60 :=
  ⟨Int.emod_nonneg _ (by decide), Int.emod_lt_of_pos _ (by decide)⟩

theorem minutesOn_one {m : Int} (hm : m < 60) : minutesOn 1 m = m + 1 := by
  unfold minutesOn
  rw [Int.ediv_one, Int.mul_one]
  omega

theorem nextRunIn_eq (zone : Duration) (schedule : String) (t : Time) :
    nextRunIn zone schedule t = match interval schedule with
      | some n => gridNext zone n t
      | none => 0 := by
  unfold nextRunIn interval
  dsimp only
  by_cases hevery : trimSpace schedule = "* * * * *"
  · rw [if_pos hevery, if_pos hevery]
    dsimp only [gridNext]
    rw [minutesOn_one (minuteOfHour_range _).2]
    generalize minuteOfHour (t - t % minute + zone) = m
    rw [Int.add_mul, Int.one_mul, ← Int.add_assoc, Int.sub_add_cancel]
  · rw [if_neg hevery, if_neg hevery]
    generalize "*/".toList.isPrefixOf (trimSpace schedule).toList = slash
    cases slash with
    | false => rfl
    | true =>
      rw [if_pos rfl, if_pos rfl]
      generalize fields (trimSpace schedule) = fs
      -- only five fields are looked at
      rcases fs with _ | ⟨first, _ | ⟨_, _ | ⟨_, _ | ⟨_, _ | ⟨_, _ | ⟨_, _⟩⟩⟩⟩⟩⟩ <;> try rfl
      dsimp only
      generalize atoi (first.drop 2) = r
      cases r with
      | none => rfl
      | some n =>
        dsimp only
        by_cases hpos : n ≤ 0
        · rw [if_pos hpos, Option.filter_some, if_neg (by simpa using hpos)]
        · have hkeep : (some n).filter (fun n => decide (0 < n)) = some n := by simpa using hpos
          rw [if_neg hpos, hkeep]
          dsimp only [gridNext, minutesOn]
          split
          · rename_i hend
            rw [Int.min_eq_right hend]
          · rename_i hin
            rw [Int.min_eq_left (by omega)]

/-- The next multiple of the interval, or the end of the hour, which is the start of the next one. -/
theorem minutesOn_spec {n : Int} (hn : 0 < n) {m : Int} (hlo : 0 ≤ m) (hm : m < 60) :
    m < minutesOn n m ∧ minutesOn n m ≤ 60 ∧ (minutesOn n m % 60) % n = 0 ∧
      ∀ k, m < k → k % n = 0 → minutesOn n m ≤ k := by
  have hlt : m < (m / n + 1) * n := Int.lt_ediv_add_one_mul_self m hn
  unfold minutesOn
  refine ⟨Int.lt_min.2 ⟨hlt, hm⟩, Int.min_le_right _ _, ?_, ?_⟩
  · by_cases h : (m / n + 1) * n < 60
    · rw [Int.min_eq_left (Int.le_of_lt h), Int.emod_eq_of_lt (Int.le_trans hlo (Int.le_of_lt hlt)) h]
      exact Int.mul_emod_left _ n
    · rw [Int.min_eq_right (Int.not_lt.1 h)]
      exact Int.zero_emod n
  · intro k hk hmul
    obtain ⟨c, rfl⟩ := Int.dvd_of_emod_eq_zero hmul
    have hc : m / n < c := Int.ediv_lt_of_lt_mul hn (by rwa [Int.mul_comm])
    refine Int.le_trans (Int.min_le_left _ _) ?_
    rw [Int.mul_comm n c]
    exact Int.mul_le_mul_of_nonneg_right hc (Int.le_of_lt hn)

/-- Minutes of an hour: `w` minutes after the start of the hour of `t`, with `m` the minute `t` is in. -/
theorem hour_arith {t zone m w : Int} (hz : zone % 60000000000 = 0)
    (hm : (t - t % 60000000000 + zone) / 60000000000 % 60 = m) (hlo : m < w) (hhi : w ≤ 60) :
    let u := t - t % 60000000000 - m * 60000000000 + w * 60000000000
    u % 60000000000 = 0 ∧ (u + zone) / 60000000000 % 60 = w % 60 ∧ t < u ∧
      ∀ v, v % 60000000000 = 0 → t < v → v < u →
        m < (v + zone) / 60000000000 % 60 ∧ (v + zone) / 60000000000 % 60 < w := by
  intro u
  refine ⟨by omega, by omega, by omega, fun v hv hlt hgt => ?_⟩
  constructor <;> omega

theorem gridNext_isSuccessor {zone : Duration} (hz : zone % minute = 0) {n : Int} (hn : 0 < n) :
    IsSuccessor (OnGrid zone n) (gridNext zone n) := by
  have hspec : ∀ t, gridNext zone n t % minute = 0 ∧
      minuteOfHour (gridNext zone n t + zone) = minutesOn n (minuteOfHour (t - t % minute + zone)) % 60 ∧
        t < gridNext zone n t ∧
      ∀ v, v % minute = 0 → t < v → v < gridNext zone n t →
        minuteOfHour (t - t % minute + zone) < minuteOfHour (v + zone) ∧
          minuteOfHour (v + zone) < minutesOn n (minuteOfHour (t - t % minute + zone)) := by
    intro t
    obtain ⟨hlo, hhi⟩ := minuteOfHour_range (t - t % minute + zone)
    obtain ⟨hlt, hle, -, -⟩ := minutesOn_spec hn hlo hhi
    exact hour_arith hz rfl hlt hle
  have hmin : ∀ t, _ := fun t =>
    minutesOn_spec hn (minuteOfHour_range (t - t % minute + zone)).1 (minuteOfHour_range (t - t % minute + zone)).2
  refine ⟨fun t => ⟨(hspec t).1, ?_⟩, fun t => (hspec t).2.2.1, fun t u hu htu => ?_⟩
  · rw [(hspec t).2.1]
    exact (hmin t).2.2.1
  · by_contra hlt
    obtain ⟨hgt, hbelow⟩ := (hspec t).2.2.2 u hu.1 htu (not_le.1 hlt)
    exact absurd ((hmin t).2.2.2 _ hgt hu.2) (not_le.2 hbelow)

theorem interval_pos {schedule : String} {n : Int} (h : interval schedule = some n) : 0 < n := by
  unfold interval at h
  dsimp only at h
  split at h
  · cases h
    decide
  · split at h
    · split at h
      · have hpos := (Option.filter_eq_some_iff.1 h).2
        exact of_decide_eq_true hpos
      · cases h
    · cases h

end Cron

namespace CronScheduler

/-! ## Runs -/

/-- A submission: the slot it is for and the clock reading of the tick that collected it. -/
structure Submission where
  id : String
  slot : Time
  tick : Time
  deriving DecidableEq

/-- The calls that change the scheduler. A tick is the critical section of any of the loops, with the clock reading made
before it; the submissions it leads to come after. -/
inductive Act where
  | add (now : Time) (j : CronJob)
  | remove (id : String)
  | tick (now : Time) (ord : RangeOrder String)

/-- The collected jobs with the slots they had before the tick. -/
def submissions (s : CronScheduler) (now : Time) (due : List CronJob) : List Submission :=
  due.map fun c => ⟨c.id, ((s.jobs.lookup c.id).map CronJob.nextRun).getD 0, now⟩

def step (zone : Duration) (s : CronScheduler) : Act → CronScheduler × List Submission
  | .add now j => ((orUnchanged s (s.addIn zone now j)).1, [])
  | .remove id => (s.remove id, [])
  | .tick now ord => ((s.tickIn zone ord now).1, submissions s now (s.tickIn zone ord now).2)

def machine (zone : Duration) : Machine CronScheduler Act Submission := ⟨step zone⟩

/-- The slots a job was submitted for. -/
def slots (id : String) (tr : List Submission) : List Time := (tr.filter fun f => f.id = id).map Submission.slot

/-! ## One tick -/

/-- Every job is registered under its own id. -/
def Keyed (s : CronScheduler) : Prop := ∀ k c, s.jobs.lookup k = some c → c.id = k

/-- What a tick collects of the job `k`. -/
def dueJob (zone : Duration) (now : Time) (s : CronScheduler) (k : String) : Option CronJob :=
  ((s.jobs.lookup k).filter fun c => ¬ now < c.nextRun).map fun c =>
    { c with nextRun := Cron.nextRunIn zone c.schedule c.nextRun }

section
variable {zone : Duration} {now : Time}

theorem dueJob_some {s : CronScheduler} {k : String} {c : CronJob} (h : dueJob zone now s k = some c) :
    ∃ c₀, s.jobs.lookup k = some c₀ ∧ c₀.nextRun ≤ now ∧ c =
      { c₀ with nextRun := Cron.nextRunIn zone c₀.schedule c₀.nextRun } := by
  unfold dueJob at h
  obtain ⟨c₀, hc₀, rfl⟩ := Option.map_eq_some_iff.1 h
  obtain ⟨hget, hdue⟩ := Option.filter_eq_some_iff.1 hc₀
  exact ⟨c₀, hget, not_lt.1 (of_decide_eq_true hdue), rfl⟩

theorem tickJob_of_due {p : CronScheduler × List CronJob} {id : String} {c : CronJob}
    (h : dueJob zone now p.1 id = some c) :
    tickJob zone now p id = ({ p.1 with jobs := p.1.jobs.insert id c }, p.2 ++ [c]) := by
  obtain ⟨c₀, hget, hle, rfl⟩ := dueJob_some h
  unfold tickJob
  rw [hget]
  dsimp only
  rw [if_neg (not_lt.2 hle)]

theorem tickJob_of_not_due {p : CronScheduler × List CronJob} {id : String} (h : dueJob zone now p.1 id = none) :
    tickJob zone now p id = p := by
  unfold dueJob at h
  unfold tickJob
  cases hid : p.1.jobs.lookup id with
  | none => rfl
  | some cj =>
    rw [hid] at h
    dsimp only
    by_cases hlt : now < cj.nextRun
    · rw [if_pos hlt]
    · simp [hlt] at h

theorem Keyed.insert {s : CronScheduler} (h : s.Keyed) {id : String} {c : CronJob} (hc : c.id = id) :
    ({ s with jobs := s.jobs.insert id c } : CronScheduler).Keyed := by
  intro k c' hk
  rw [GoMap.lookup_insert_ite] at hk
  split at hk
  · rename_i heq
    cases hk
    rw [heq, hc]
  · exact h k c' hk

theorem dueJob_id {s : CronScheduler} (h : s.Keyed) {k : String} {c : CronJob} (hc : dueJob zone now s k = some c) :
    c.id = k := by
  obtain ⟨c₀, hget, -, rfl⟩ := dueJob_some hc
  exact h k c₀ hget

/-- The loop of a tick, for one job: it is collected once, if it is visited and due. -/
theorem foldl_tickJob (zone : Duration) (now : Time) (k : String) :
    ∀ (ids : List String) (p : CronScheduler × List CronJob), ids.Nodup → p.1.Keyed →
    let q := ids.foldl (tickJob zone now) p
    q.1.Keyed ∧ q.1.jobs.lookup k = (if k ∈ ids then dueJob zone now p.1 k else none).or (p.1.jobs.lookup k) ∧
      q.2.filter (fun c => c.id = k) =
        p.2.filter (fun c => c.id = k) ++ (if k ∈ ids then dueJob zone now p.1 k else none).toList
  | [], p, _, hp => by simp [hp]
  | id :: ids, p, hnd, hp => by
    obtain ⟨hid, hnd⟩ := List.nodup_cons.1 hnd
    rw [List.foldl_cons]
    cases hdue : dueJob zone now p.1 id with
    | none =>
      rw [tickJob_of_not_due hdue]
      obtain ⟨hkeyed, hget, hcol⟩ := foldl_tickJob zone now k ids p hnd hp
      refine ⟨hkeyed, ?_⟩
      by_cases hk : k = id
      · subst hk
        simp only [hid, if_false, Option.none_or] at hget hcol
        simp [hget, hcol, hdue]
      · simpa [hk] using And.intro hget hcol
    | some c =>
      have hcid := dueJob_id hp hdue
      rw [tickJob_of_due hdue]
      obtain ⟨hkeyed, hget, hcol⟩ :=
        foldl_tickJob zone now k ids ({ p.1 with jobs := p.1.jobs.insert id c }, p.2 ++ [c]) hnd (hp.insert hcid)
      refine ⟨hkeyed, ?_⟩
      rw [hget, hcol]
      dsimp only
      rw [GoMap.lookup_insert_ite]
      by_cases hk : k = id
      · subst hk
        simp [hid, hdue, hcid]
      · have hsame : dueJob zone now ({ p.1 with jobs := p.1.jobs.insert id c } : CronScheduler) k =
            dueJob zone now p.1 k := by
          unfold dueJob
          rw [GoMap.lookup_insert_ite, if_neg hk]
        have hne : ¬ c.id = k := fun heq => hk (heq.symm.trans hcid)
        simp [hk, hsame, hne]

theorem tickIn_job (zone : Duration) (now : Time) {s : CronScheduler} (h : s.Keyed) (ord : RangeOrder String)
    (k : String) :
    (s.tickIn zone ord now).1.Keyed ∧ (s.tickIn zone ord now).1.jobs.lookup k = (dueJob zone now s k).or
      (s.jobs.lookup k) ∧
      (s.tickIn zone ord now).2.filter (fun c => c.id = k) = (dueJob zone now s k).toList := by
  have hvisit : (if k ∈ ord.order s.jobs.keys then dueJob zone now s k else none) = dueJob zone now s k := by
    split
    · rfl
    · rename_i hk
      cases hdue : dueJob zone now s k with
      | none => rfl
      | some c =>
        obtain ⟨c₀, hget, -⟩ := dueJob_some hdue
        exact absurd (ord.mem_order.2 (AList.mem_keys.1 (GoMap.mem_iff_lookup.2 ⟨c₀, hget⟩))) hk
  obtain ⟨hkeyed, hget, hcol⟩ := foldl_tickJob zone now k (ord.order s.jobs.keys) (s, [])
    (ord.nodup_order s.jobs.keys_nodup) h
  rw [hvisit] at hget hcol
  exact ⟨hkeyed, hget, hcol⟩

/-! ## What the slots are -/

/-- The job `k` is registered with the slot after those it was submitted for. -/
structure Follows (zone : Duration) (n : Int) (added : Time) (k : String) (tr : List Submission)
    (s : CronScheduler) : Prop where
  keyed : s.Keyed
  job : ∃ c, s.jobs.lookup k = some c ∧ Cron.interval c.schedule = some n ∧ Cron.OnGrid zone n c.nextRun ∧
    added < c.nextRun ∧ Covers (Cron.OnGrid zone n) added c.nextRun (slots k tr)
  inTime : ∀ f ∈ tr, f.id = k → f.slot ≤ f.tick

theorem slots_append (k : String) (tr tr' : List Submission) : slots k (tr ++ tr') = slots k tr ++ slots k tr' := by
  unfold slots
  rw [List.filter_append, List.map_append]

theorem slot_mem {k : String} {tr : List Submission} {f : Submission} (hf : f ∈ tr) (hid : f.id = k) :
    f.slot ∈ slots k tr :=
  List.mem_map_of_mem (List.mem_filter.2 ⟨hf, decide_eq_true hid⟩)

theorem tick_of_mem {s : CronScheduler} {due : List CronJob} {f : Submission} (h : f ∈ submissions s now due) :
    f.tick = now := by
  obtain ⟨c, -, rfl⟩ := List.mem_map.1 h
  rfl

theorem slots_submissions {s : CronScheduler} {due : List CronJob} (k : String) :
    slots k (submissions s now due) =
      (due.filter fun c => c.id = k).map fun c => ((s.jobs.lookup c.id).map CronJob.nextRun).getD 0 := by
  unfold slots submissions
  rw [List.filter_map, List.map_map]
  rfl

/-- A tick submits a registered job that is due for the slot it has, and moves it on from there. -/
theorem tickIn_registered (zone : Duration) (now : Time) {s : CronScheduler} (h : s.Keyed) (ord : RangeOrder String)
    {k : String} {c : CronJob} (hc : s.jobs.lookup k = some c) :
    (s.tickIn zone ord now).1.jobs.lookup k =
        some (if now < c.nextRun then c else { c with nextRun := Cron.nextRunIn zone c.schedule c.nextRun }) ∧
      slots k (submissions s now (s.tickIn zone ord now).2) = if now < c.nextRun then [] else [c.nextRun] := by
  obtain ⟨-, hget, hcol⟩ := tickIn_job zone now h ord k
  rw [slots_submissions, hget, hcol]
  unfold dueJob
  rw [hc, Option.filter_some]
  by_cases hlt : now < c.nextRun
  · rw [if_neg (by simp [hlt]), if_pos hlt, if_pos hlt]
    exact ⟨rfl, rfl⟩
  · rw [if_pos (by simp [hlt]), if_neg hlt, if_neg hlt, Option.map_some, Option.toList_some, List.map_singleton,
      h k c hc, hc]
    exact ⟨rfl, rfl⟩

theorem Follows.tick {n : Int} {added : Time} {k : String} {tr : List Submission} {s : CronScheduler}
    (hz : zone % Cron.minute = 0) (h : Follows zone n added k tr s) (ord : RangeOrder String) :
    Follows zone n added k (tr ++ submissions s now (s.tickIn zone ord now).2) (s.tickIn zone ord now).1 := by
  obtain ⟨c, hc, hint, hgrid, hadded, hcovers⟩ := h.job
  obtain ⟨hget, hslots⟩ := tickIn_registered zone now h.keyed ord hc
  refine ⟨(tickIn_job zone now h.keyed ord k).1, ?_, fun f hf hid => ?_⟩
  · rw [slots_append, hslots]
    split at hget
    · rename_i hlt
      rw [if_pos hlt, List.append_nil]
      exact ⟨c, hget, hint, hgrid, hadded, hcovers⟩
    · rename_i hdue
      rw [if_neg hdue]
      have hnext := Cron.gridNext_isSuccessor hz (Cron.interval_pos hint)
      have hrun : Cron.nextRunIn zone c.schedule c.nextRun = Cron.gridNext zone n c.nextRun := by
        rw [Cron.nextRunIn_eq, hint]
      rw [hrun] at hget
      exact ⟨_, hget, hint, hnext.mem c.nextRun, lt_trans hadded (hnext.lt c.nextRun),
        hnext.covers_snoc hcovers hgrid hadded⟩
  · rcases List.mem_append.1 hf with hf | hf
    · exact h.inTime f hf hid
    · have hmem := slot_mem hf hid
      rw [hslots] at hmem
      split at hmem
      · cases hmem
      · rename_i hdue
        rw [List.mem_singleton.1 hmem, tick_of_mem hf]
        exact not_lt.1 hdue

theorem Keyed.step {s : CronScheduler} (h : s.Keyed) (zone : Duration) (a : Act) : (s.step zone a).1.Keyed := by
  cases a with
  | add now j =>
    simp only [CronScheduler.step]
    cases hadd : s.addIn zone now j with
    | error err => exact h
    | ok s' =>
      intro k c hk
      rw [show (orUnchanged s (.ok s')).1 = s' from rfl, (addIn_ok hadd).2.2 k] at hk
      split at hk
      · rename_i heq
        cases hk
        exact heq.symm
      · exact h k c hk
  | remove id =>
    intro k c hk
    rw [show (s.step zone (.remove id)).1 = s.remove id from rfl, lookup_remove] at hk
    split at hk
    · cases hk
    · exact h k c hk
  | tick now ord => exact (tickIn_job zone now h ord "").1

theorem Follows.step {n : Int} {added : Time} {k : String} {tr : List Submission} {s : CronScheduler}
    (hz : zone % Cron.minute = 0) (h : Follows zone n added k tr s) {a : Act} (ha : a ≠ .remove k) :
    Follows zone n added k (tr ++ (s.step zone a).2) (s.step zone a).1 := by
  cases a with
  | tick now ord => exact h.tick hz ord
  | add now j =>
    obtain ⟨c, hc, hrest⟩ := h.job
    have hkeyed := h.keyed.step zone (.add now j)
    rw [show (s.step zone (.add now j)).2 = [] from rfl, List.append_nil]
    refine ⟨hkeyed, ⟨c, ?_, hrest⟩, h.inTime⟩
    simp only [CronScheduler.step]
    cases hadd : s.addIn zone now j with
    | error err => exact hc
    | ok s' =>
      obtain ⟨-, hfresh, hget⟩ := addIn_ok hadd
      rw [show (orUnchanged s (.ok s')).1 = s' from rfl, hget]
      split
      · rename_i heq
        rw [heq, hfresh] at hc
        cases hc
      · exact hc
  | remove id =>
    obtain ⟨c, hc, hrest⟩ := h.job
    have hkeyed := h.keyed.step zone (.remove id)
    rw [show (s.step zone (.remove id)).2 = [] from rfl, List.append_nil]
    refine ⟨hkeyed, ⟨c, ?_, hrest⟩, h.inTime⟩
    have hne : k ≠ id := fun heq => ha (by rw [heq])
    rw [show (s.step zone (.remove id)).1 = s.remove id from rfl, lookup_remove, if_neg hne]
    exact hc

end

/-- Cron slots fire in order, each once and never early. After a successful `Add`, and as long as the job is not
removed, the slots it was submitted for are exactly those of its grid that are after the `Add` and before its current
`NextRun`, whatever else is added and removed and whenever the ticks of any number of loops come; each tick is not
before its slot. -/
theorem slots_fire_in_order (zone : Duration) (hzone : zone % Cron.minute = 0) (pre acts : List Act) (added : Time)
    (j : CronJob) (s : CronScheduler) (hadd : ((machine zone).exec new pre).addIn zone added j = .ok s)
    (hkeep : ∀ a ∈ acts, a ≠ .remove j.id) :
    ∃ n next, Cron.interval j.schedule = some n ∧
      (((machine zone).exec s acts).jobs.lookup j.id).map CronJob.nextRun = some next ∧
      Covers (Cron.OnGrid zone n) added next (slots j.id ((machine zone).trace s acts)) ∧
      ∀ f ∈ (machine zone).trace s acts, f.id = j.id → f.slot ≤ f.tick := by
  obtain ⟨hnext, -, hget⟩ := addIn_ok hadd
  rw [Cron.nextRunIn_eq] at hnext hget
  cases hint : Cron.interval j.schedule with
  | none =>
    rw [hint] at hnext
    exact absurd rfl hnext
  | some n =>
    rw [hint] at hget
    have hsucc := Cron.gridNext_isSuccessor hzone (Cron.interval_pos hint)
    have hbefore : ((machine zone).exec new pre).Keyed :=
      Machine.exec_inv (P := Keyed) (fun k c hk => by cases hk) (fun s a hs => hs.step zone a) pre
    have hkeyed : s.Keyed := by
      have hstep := hbefore.step zone (.add added j)
      rwa [show (((machine zone).exec new pre).step zone (.add added j)).1 = s by simp only [step, hadd]; rfl] at hstep
    have hfirst : Follows zone n added j.id [] s := by
      refine ⟨hkeyed, ⟨_, (hget j.id).trans (if_pos rfl), hint, hsucc.mem added, hsucc.lt added,
        hsucc.covers_nil added⟩, nofun⟩
    have hrun : (machine zone).EveryStep (fun _ _ a => a ≠ .remove j.id) s acts :=
      fun p a q heq => hkeep a (by rw [heq]; simp)
    have hlast := hrun.inv (P := Follows zone n added j.id) hfirst fun _ _ _ hs ha => hs.step hzone ha
    obtain ⟨c, hc, -, -, -, hcovers⟩ := hlast.job
    exact ⟨n, c.nextRun, rfl, by rw [hc]; rfl, hcovers, hlast.inTime⟩

/-- Every 20 minutes. -/
def reports : CronJob := ⟨"report", "*/20 * * * *", "email", 1, 0⟩

/-- A zone that is five and a half hours ahead. -/
def ahead : Duration := 330 * Cron.minute

/-- Added at half past on the local clock, with a tick at a quarter past the slot, one of another loop at the same
time, and two after a pause. -/
def afterPause : List Act :=
  [.tick (15 * Cron.minute) .stored, .tick (15 * Cron.minute) .stored, .remove "other",
    .tick (120 * Cron.minute) .stored, .tick (120 * Cron.minute) .stored]

def reporting : CronScheduler := ⟨AList.insert "report" { reports with nextRun := 10 * Cron.minute } ∅⟩

theorem slots_fire_afterPause :
    slots "report" ((machine ahead).trace reporting afterPause) =
      [10 * Cron.minute, 30 * Cron.minute, 50 * Cron.minute] ∧ ∃ n next, Cron.interval reports.schedule = some n ∧
        (((machine ahead).exec reporting afterPause).jobs.lookup "report").map CronJob.nextRun = some next ∧
        Covers (Cron.OnGrid ahead n) 0 next (slots "report" ((machine ahead).trace reporting afterPause)) ∧
        ∀ f ∈ (machine ahead).trace reporting afterPause, f.id = "report" → f.slot ≤ f.tick := by
  refine ⟨by decide +kernel, slots_fire_in_order ahead (by decide) [] afterPause 0 reports reporting ?_ ?_⟩
  · have hnext : Cron.nextRunIn ahead reports.schedule 0 = 10 * Cron.minute := by decide +kernel
    unfold addIn
    rw [if_neg (by decide +kernel), if_neg (by decide +kernel), if_neg (by decide +kernel), hnext]
    rfl
  · intro a ha
    simp only [afterPause, List.mem_cons, List.not_mem_nil, or_false] at ha
    rcases ha with rfl | rfl | rfl | rfl | rfl <;> simp [reports]

end CronScheduler
end Quorum
