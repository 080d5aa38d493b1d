/-
The cron scheduler (`internal/cron/cron.go`): the recurring jobs it knows, when each of them runs next, and one
tick of its loop. The wall clock is that of a zone with a fixed offset, which is UTC where none is given.
-/
import Quorum.Store.Interface
import Quorum.Worker.Broker
import Mathlib.Data.List.Sort

namespace Quorum

namespace Cron

/-- `time.Minute`. -/
def minute : Duration := 60 * second

/-- `strings.Fields`. -/
def fields (s : String) : List (List Char) := (s.toList.splitOnP isSpace).filter fun f => !f.isEmpty

/-- The value of a run of decimal digits. -/
def digits (cs : List Char) : Option Int :=
  if cs ≠ [] ∧ cs.all Char.isDigit then some (cs.foldl (fun n c => 10 * n + (c.toNat - '0'.toNat : Int)) 0) else none

/-- `strconv.Atoi`: an optional sign and digits, within the range of a 64-bit `int`. -/
def atoi (cs : List Char) : Option Int :=
  let n := match cs with
    | '-' :: cs => (digits cs).map fun n => -n
    | '+' :: cs => digits cs
    | cs => digits cs
  n.filter fun n => -((1 <<< 63 : Nat) : Int) ≤ n && n < ((1 <<< 63 : Nat) : Int)

/-- The minute of the hour of a time at the start of a minute. -/
def minuteOfHour (t : Time) : Int := t / minute % 60

/-- `nextRun` in a zone; the zero time stands for a schedule that is not supported. -/
def nextRunIn (zone : Duration) (schedule : String) (t : Time) : Time :=
  let schedule := trimSpace schedule
  let fromMin := t - t % minute
  if schedule = "* * * * *" then fromMin + minute
  else if "*/".toList.isPrefixOf schedule.toList then
    match fields schedule with
    | [first, _, _, _, _] =>
      match atoi (first.drop 2) with
      | none => 0
      | some interval =>
        if interval ≤ 0 then 0
        else
          let currentMin := minuteOfHour (fromMin + zone)
          let nextMin := (currentMin / interval + 1) * interval
          let hour := fromMin - currentMin * minute
          -- past the end of the hour it is the start of the next one
          if nextMin ≥ 60 then hour + 60 * minute else hour + nextMin * minute
    | _ => 0
  else 0

def nextRun (schedule : String) (t : Time) : Time := nextRunIn 0 schedule t

end Cron

/-- `cron.Scheduler`. -/
structure CronScheduler where
  jobs : GoMap String CronJob
  deriving DecidableEq

namespace CronScheduler

/-- `cron.New`. -/
def new : CronScheduler := ⟨∅⟩

def addIn (zone : Duration) (s : CronScheduler) (now : Time) (j : CronJob) : Except String CronScheduler :=
  if trimSpace j.id = "" then .error "cron job id is required"
  else if trimSpace j.type = "" then .error "cron job type is required"
  else if j.priority < 0 then .error "cron priority must be >= 0"
  else
    let next := Cron.nextRunIn zone j.schedule now
    if next = 0 then .error "unsupported cron schedule"
    else
      match s.jobs.lookup j.id with
      | some _ => .error "cron job id already exists"
      | none => .ok { s with jobs := s.jobs.insert j.id { j with nextRun := next } }

def add (s : CronScheduler) (now : Time) (j : CronJob) : Except String CronScheduler := s.addIn 0 now j

def remove (s : CronScheduler) (id : String) : CronScheduler := { s with jobs := s.jobs.erase id }

/-- `List`: the jobs in the order of their ids. -/
def list (ord : RangeOrder String) (s : CronScheduler) : List CronJob :=
  (s.jobs.values ord).insertionSort fun a b => a.id ≤ b.id

/-- One job in the loop of a tick: a due one moves on to its next run and is collected. -/
def tickJob (zone : Duration) (now : Time) (p : CronScheduler × List CronJob) (id : String) :
    CronScheduler × List CronJob :=
  match p.1.jobs.lookup id with
  | none => p
  | some cj =>
    if now < cj.nextRun then p
    else
      let cj := { cj with nextRun := Cron.nextRunIn zone cj.schedule cj.nextRun }
      ({ p.1 with jobs := p.1.jobs.insert id cj }, p.2 ++ [cj])

/-- One tick of `Start`: the scheduler afterwards and the jobs to submit. -/
def tickIn (zone : Duration) (ord : RangeOrder String) (now : Time) (s : CronScheduler) :
    CronScheduler × List CronJob :=
  (ord.order s.jobs.keys).foldl (tickJob zone now) (s, [])

def tick (ord : RangeOrder String) (now : Time) (s : CronScheduler) : CronScheduler × List CronJob := s.tickIn 0 ord now

end CronScheduler

/-- What a user asked for: a cron job without the time of its next run. -/
def CronJob.definition (c : CronJob) : CronJob := { c with nextRun := 0 }

namespace CronScheduler

/-! ## What is registered under each id -/

variable {s s' : CronScheduler} {zone : Duration} {now : Time}

/-- `Add` takes a supported schedule under a new id, and registers the job with its first run. -/
theorem addIn_ok {j : CronJob} (h : s.addIn zone now j = .ok s') :
    Cron.nextRunIn zone j.schedule now ≠ 0 ∧ s.jobs.lookup j.id = none ∧ ∀ k, s'.jobs.lookup k =
      if k = j.id then some { j with nextRun := Cron.nextRunIn zone j.schedule now } else s.jobs.lookup k := by
  unfold addIn at h
  split at h
  · cases h
  split at h
  · cases h
  split at h
  · cases h
  dsimp only at h
  split at h
  · cases h
  rename_i hnext
  split at h
  · cases h
  · rename_i hfresh
    cases h
    exact ⟨hnext, hfresh, fun k => GoMap.lookup_insert_ite s.jobs j.id k _⟩

theorem add_ok {j : CronJob} (h : s.add now j = .ok s') : ∃ next, ∀ k,
    s'.jobs.lookup k = if k = j.id then some { j with nextRun := next } else s.jobs.lookup k :=
  ⟨_, (addIn_ok h).2.2⟩

theorem lookup_remove (s : CronScheduler) (id k : String) :
    (s.remove id).jobs.lookup k = if k = id then none else s.jobs.lookup k :=
  GoMap.lookup_erase_ite s.jobs id k

theorem mem_list {ord : RangeOrder String} {c : CronJob} : c ∈ s.list ord ↔ ∃ k, s.jobs.lookup k = some c := by
  unfold list
  rw [List.mem_insertionSort, GoMap.mem_values]

/-- A tick changes no definition. -/
theorem tickJob_definition (zone : Duration) (now : Time) (p : CronScheduler × List CronJob) (id k : String) :
    ((tickJob zone now p id).1.jobs.lookup k).map CronJob.definition = (p.1.jobs.lookup k).map CronJob.definition := by
  unfold tickJob
  cases hid : p.1.jobs.lookup id with
  | none => rfl
  | some cj =>
    dsimp only
    split
    · rfl
    · dsimp only
      rw [GoMap.lookup_insert_ite]
      split
      · rename_i hk; rw [hk, hid]; rfl
      · rfl

theorem tick_definition (ord : RangeOrder String) (now : Time) (s : CronScheduler) (k : String) :
    ((s.tick ord now).1.jobs.lookup k).map CronJob.definition = (s.jobs.lookup k).map CronJob.definition := by
  have hfold : ∀ (ids : List String) (p : CronScheduler × List CronJob),
      ((ids.foldl (tickJob 0 now) p).1.jobs.lookup k).map CronJob.definition =
          (p.1.jobs.lookup k).map CronJob.definition := by
    intro ids
    induction ids with
    | nil => intro p; rfl
    | cons id ids ih => intro p; rw [List.foldl_cons, ih, tickJob_definition]
  exact hfold _ (s, [])

end CronScheduler

end Quorum
