/-
Recurring jobs in the engine (`AddCronJob`, `RemoveCronJob`, `ListCronJobs`, and what `New`, `Start` and
`watchLeadership` do with the cron scheduler). A definition is kept twice: in the store, from where it is listed, and
in the cron scheduler, which fires it. With Raft only the store is written, and a start of the process begins with
an empty cron scheduler whatever the store holds. The two agree in exactly the runs that keep clear of both.
-/
import Quorum.Consensus.Cluster
import Quorum.Cron.Scheduler
import Quorum.Engine.Basic
import Quorum.Store.Tables

namespace Quorum

/-- The engine with its cron scheduler; `ticking` says that the loop of `CronScheduler.Start` is running. -/
structure CronEngine (σ : Type) where
  engine : Engine σ
  cronScheduler : CronScheduler
  ticking : Bool

namespace CronEngine

section
variable {σ : Type} [Store σ]

def store (e : CronEngine σ) : σ := e.engine.scheduler.store

def withStore (e : CronEngine σ) (st : σ) : CronEngine σ := { e with engine := e.engine.withStore st }

/-- The cron job that `AddCronJob` makes of its arguments. -/
def newCronJob (id schedule jobType : String) (priority : Int) : CronJob :=
  { id := id, schedule := schedule, type := jobType, priority := priority, nextRun := 0 }

/-- `AddCronJob`; the error it returns, if any. -/
def addCronJob (raft : Option RaftReply) (now : Time) (id schedule jobType : String) (priority : Int)
    (e : CronEngine σ) :
    Option String × CronEngine σ :=
  let c := newCronJob id schedule jobType priority
  match raft with
  -- the cron scheduler is not told
  | some reply => ((propose reply (.addCron c) e.store).2, e.withStore (propose reply (.addCron c) e.store).1)
  | none =>
    match Store.addCron e.store c with
    | .error err => (some err, e)
    | .ok st =>
      match e.cronScheduler.add now c with
      -- the store keeps the job
      | .error err => (some err, e.withStore st)
      | .ok cs => (none, { e.withStore st with cronScheduler := cs })

/-- `RemoveCronJob`; errors are ignored. -/
def removeCronJob (raft : Option RaftReply) (id : String) (e : CronEngine σ) : CronEngine σ :=
  match raft with
  | some reply => e.withStore (propose reply (.deleteCron id) e.store).1
  | none => { e.withStore (Store.deleteCron e.store id).2 with cronScheduler := e.cronScheduler.remove id }

/-- `ListCronJobs`: what the cron scheduler has is shown only if the store has nothing. -/
def listCronJobs (ord ord' : RangeOrder String) (e : CronEngine σ) : List CronJob :=
  match Store.listCrons ord e.store with
  | [] => e.cronScheduler.list ord'
  | crons => crons

/-- One tick: the due jobs are submitted, and an error of a submission is only logged. -/
def tick (raft : Option RaftReply) (ord : RangeOrder String) (now : Time) (e : CronEngine σ) :
    CronEngine σ × List CronJob :=
  let p := e.cronScheduler.tick ord now
  ({ e with engine := p.2.foldl (fun en c => (en.submitJob raft c.type c.priority).2) e.engine, cronScheduler := p.1 },
    p.2)

/-- `New`, `Restore` and `Start` on a store. With Raft the loops wait for the claim of leadership. -/
def start (raft : Bool) (st : σ) (available : Chan WorkerClient) (broker : Option Broker)
    (ord ord₁ ord₂ ord₃ ord₄ : RangeOrder Int) : CronEngine σ :=
  let e := ((Engine.new st available broker).restore ord ord₁ ord₂).1
  { engine := if raft then e else e.rebuild ord₃ ord₄, cronScheduler := .new, ticking := !raft }

/-- What happens to the cron jobs of one engine. An entry that raft applies, a claim and a loss of leadership come only
with Raft; `durable` says that a restart finds the store of before, as with a `BoltStore`. -/
inductive Act where
  | addCronJob (reply : RaftReply) (now : Time) (id schedule jobType : String) (priority : Int)
  | removeCronJob (reply : RaftReply) (id : String)
  | apply (cmd : Command)
  | tick (reply : RaftReply) (now : Time) (ord : RangeOrder String)
  | claim (ord₁ ord₂ : RangeOrder Int)
  | stepDown
  | restart (durable : Bool) (available : Chan WorkerClient) (broker : Option Broker)
      (ord ord₁ ord₂ ord₃ ord₄ : RangeOrder Int)

/-- The answer of raft, where there is one. -/
def raftReply (raft : Bool) (reply : RaftReply) : Option RaftReply := if raft then some reply else none

/-- A step, with the cron jobs it fires. -/
def step (raft : Bool) (e : CronEngine σ) : Act → CronEngine σ × List CronJob
  | .addCronJob reply now id schedule jobType priority =>
    ((e.addCronJob (raftReply raft reply) now id schedule jobType priority).2, [])
  | .removeCronJob reply id => (e.removeCronJob (raftReply raft reply) id, [])
  | .apply cmd => (if raft then e.withStore (fsmApply e.store cmd).1 else e, [])
  | .tick reply now ord => if e.ticking then e.tick (raftReply raft reply) ord now else (e, [])
  | .claim ord₁ ord₂ => (if raft then { e with engine := e.engine.rebuild ord₁ ord₂, ticking := true } else e, [])
  | .stepDown => (if raft then { e with engine := e.engine.stepDown, ticking := false } else e, [])
  | .restart durable available broker ord ord₁ ord₂ ord₃ ord₄ =>
    (start raft (if durable then e.store else Store.empty) available broker ord ord₁ ord₂ ord₃ ord₄, [])

def machine (raft : Bool) : Machine (CronEngine σ) Act CronJob := ⟨step raft⟩

/-- A process that has not started, with a store that may hold something. -/
def stopped (st : σ) : CronEngine σ :=
  { engine := Engine.new st (Chan.make 0) none, cronScheduler := .new, ticking := false }

/-- The call, if it is an `AddCronJob`, returns without an error. -/
def Succeeds (raft : Bool) (e : CronEngine σ) : Act → Prop
  | .addCronJob reply now id schedule jobType priority =>
    (e.addCronJob (raftReply raft reply) now id schedule jobType priority).1 = none
  | _ => True

/-- The cron scheduler has exactly the definitions that the store lists. -/
def Agree (e : CronEngine σ) : Prop :=
  ∀ (ord ord' : RangeOrder String) (c : CronJob),
    c ∈ (e.cronScheduler.list ord).map CronJob.definition ↔ c ∈ (Store.listCrons ord' e.store).map CronJob.definition

end

section
variable {σ : Type} [TableStore σ]

/-- The store has no cron job. -/
def NoCrons (st : σ) : Prop := ∀ k, TableStore.cron st k = none

/-- The step neither starts the loop over a store that has cron jobs nor, with Raft, adds one while the loop is
running. -/
def Harmless (raft : Bool) (e : CronEngine σ) : Act → Prop
  | .addCronJob _ _ _ _ _ _ => raft = true → e.ticking = false
  | .apply cmd => raft = true → cmd.type = .addCronJob → (∃ st, Store.addCron e.store cmd.cron = .ok st) →
    e.ticking = false
  | .claim _ _ => raft = true → NoCrons e.store
  | .restart durable _ _ _ _ _ _ _ => raft = false → durable = true → NoCrons e.store
  | _ => True

/-! ## The two tables by id -/

/-- Under each id the same definition, or none. -/
def Same (e : CronEngine σ) : Prop :=
  ∀ k, (e.cronScheduler.jobs.lookup k).map CronJob.definition = (TableStore.cron e.store k).map CronJob.definition

theorem mem_listCrons {st : σ} {ord : RangeOrder String} {c : CronJob} :
    c ∈ Store.listCrons ord st ↔ ∃ k, TableStore.cron st k = some c := by
  obtain ⟨m, hm, hlist⟩ := TableStore.listCrons_eq st
  rw [show Store.listCrons ord st = m.values ord from hlist ord, GoMap.mem_values]
  exact exists_congr fun k => by rw [hm]

theorem Same.agree {e : CronEngine σ} (h : e.Same) : e.Agree := by
  intro ord ord' c
  rw [List.mem_map, List.mem_map]
  constructor
  · rintro ⟨d, hd, rfl⟩
    obtain ⟨k, hk⟩ := CronScheduler.mem_list.1 hd
    have hdef := h k
    rw [hk, Option.map_some] at hdef
    obtain ⟨d', hd', heq⟩ := Option.map_eq_some_iff.1 hdef.symm
    exact ⟨d', mem_listCrons.2 ⟨k, hd'⟩, heq⟩
  · rintro ⟨d, hd, rfl⟩
    obtain ⟨k, hk⟩ := mem_listCrons.1 hd
    have hdef := h k
    rw [hk, Option.map_some] at hdef
    obtain ⟨d', hd', heq⟩ := Option.map_eq_some_iff.1 hdef
    exact ⟨d', CronScheduler.mem_list.2 ⟨k, hd'⟩, heq⟩

/-- Nothing is registered. -/
def Unregistered (e : CronEngine σ) : Prop := ∀ k, e.cronScheduler.jobs.lookup k = none

theorem Unregistered.same_iff {e : CronEngine σ} (h : e.Unregistered) : e.Same ↔ NoCrons e.store := by
  unfold Same NoCrons
  refine forall_congr' fun k => ?_
  rw [h k, Option.map_none, eq_comm, Option.map_eq_none_iff]

/-- An empty cron scheduler agrees with a store without cron jobs only. -/
theorem Unregistered.noCrons {e : CronEngine σ} (h : e.Unregistered) (ha : e.Agree) : NoCrons e.store := by
  intro k
  cases hk : TableStore.cron e.store k with
  | none => rfl
  | some c =>
    have hmem := (ha .stored .stored c.definition).2 (List.mem_map_of_mem (mem_listCrons.2 ⟨k, hk⟩))
    obtain ⟨d, hd, -⟩ := List.mem_map.1 hmem
    obtain ⟨k', hk'⟩ := CronScheduler.mem_list.1 hd
    rw [h k'] at hk'
    cases hk'

/-! ## What the calls do to the tables -/

theorem fsmApply_cron {st : σ} {cmd : Command} (h : cmd.type = .addCronJob → ∀ st', Store.addCron st cmd.cron ≠ .ok st')
    (hno : NoCrons st) : NoCrons (fsmApply st cmd).1 := by
  have hkeep : ∀ {st' : σ}, TableStore.cron st' = TableStore.cron st → NoCrons st' :=
    fun heq k => (congrFun heq k).trans (hno k)
  have happ := fsmApply_applied st cmd
  generalize fsmApply st cmd = p at happ
  cases happ with
  | refused | unknown => exact hno
  | addJob _ ha => exact hkeep (TableStore.cron_add ha)
  | updateJob _ hu => exact hkeep (TableStore.cron_update hu)
  | deleteJob => exact hkeep (TableStore.cron_delete st cmd.id)
  | cancelJob _ hc => exact hkeep (TableStore.cron_cancel hc)
  | addCronJob ht hadd => exact absurd hadd (h ht _)
  | deleteCronJob =>
    intro k
    refine (TableStore.cron_deleteCron st cmd.cronID k).trans ?_
    split
    · rfl
    · exact hno k

/-- A submission does not touch the cron jobs. -/
theorem submitJob_cron (raft : Option RaftReply) (jobType : String) (priority : Int) (e : Engine σ) :
    TableStore.cron (e.submitJob raft jobType priority).2.scheduler.store = TableStore.cron e.scheduler.store := by
  unfold Engine.submitJob Engine.accept
  dsimp only
  cases raft with
  | none =>
    dsimp only
    cases hadd : Store.add e.takeID.scheduler.store (Job.newJob e.takeID.nextJobID jobType priority) with
    | error err => rfl
    | ok st => exact TableStore.cron_add hadd
  | some reply =>
    have hprop : TableStore.cron
        (propose reply (.addJob (Job.newJob e.takeID.nextJobID jobType priority)) e.takeID.scheduler.store).1 =
            TableStore.cron e.scheduler.store := by
      cases reply with
      | notLeader addr => rfl
      | failed err => rfl
      | applied =>
        rw [propose_addJob]
        cases hadd : Store.add e.takeID.scheduler.store (Job.newJob e.takeID.nextJobID jobType priority) with
        | error err => rfl
        | ok st => exact TableStore.cron_add hadd
    dsimp only
    generalize propose reply (.addJob (Job.newJob e.takeID.nextJobID jobType priority))
      e.takeID.scheduler.store = p at hprop
    obtain ⟨st, _ | err⟩ := p
    · exact hprop
    · exact hprop

theorem tick_cron (raft : Option RaftReply) (ord : RangeOrder String) (now : Time) (e : CronEngine σ) :
    TableStore.cron (e.tick raft ord now).1.store = TableStore.cron e.store := by
  have hfold : ∀ (due : List CronJob) (en : Engine σ),
      TableStore.cron (due.foldl (fun en c => (en.submitJob raft c.type c.priority).2) en).scheduler.store =
        TableStore.cron en.scheduler.store := by
    intro due
    induction due with
    | nil => intro en; rfl
    | cons c due ih => intro en; rw [List.foldl_cons, ih, submitJob_cron]
  exact hfold _ e.engine

theorem start_store (raft : Bool) (st : σ) (available : Chan WorkerClient) (broker : Option Broker)
    (ord ord₁ ord₂ ord₃ ord₄ : RangeOrder Int) :
    (start raft st available broker ord ord₁ ord₂ ord₃ ord₄).store = st := by
  unfold start store
  cases raft with
  | true => exact Scheduler.rebuildQueuesFromStore_store _ ord₁ ord₂
  | false =>
    exact (Scheduler.rebuildQueuesFromStore_store _ ord₃ ord₄).trans
      (Scheduler.rebuildQueuesFromStore_store _ ord₁ ord₂)

theorem addCronJob_ticking (raft : Option RaftReply) (now : Time) (id schedule jobType : String) (priority : Int)
    (e : CronEngine σ) : (e.addCronJob raft now id schedule jobType priority).2.ticking = e.ticking := by
  unfold addCronJob
  cases raft with
  | some reply => rfl
  | none =>
    dsimp only
    split
    · rfl
    · split <;> rfl

/-- What a successful `AddCronJob` leaves: the job in the store, and without Raft in the cron scheduler as well. -/
theorem addCronJob_success (raft : Bool) {reply : RaftReply} {now : Time} {id schedule jobType : String}
    {priority : Int} {e : CronEngine σ}
    (h : (e.addCronJob (raftReply raft reply) now id schedule jobType priority).1 = none) :
    let e' := (e.addCronJob (raftReply raft reply) now id schedule jobType priority).2
    (∀ k, TableStore.cron e'.store k =
      if k = id then some (newCronJob id schedule jobType priority) else TableStore.cron e.store k) ∧
      (raft = true → e'.cronScheduler = e.cronScheduler) ∧
      (raft = false → ∃ next, ∀ k, e'.cronScheduler.jobs.lookup k =
        if k = id then some { newCronJob id schedule jobType priority with nextRun := next }
        else e.cronScheduler.jobs.lookup k) := by
  generalize hc : newCronJob id schedule jobType priority = c
  have hid : c.id = id := by rw [← hc]; rfl
  cases raft with
  | true =>
    have hprop : (propose reply (.addCron c) e.store).2 = none := by rw [← hc]; exact h
    refine ⟨?_, fun _ => rfl, (fun hraft => by cases hraft)⟩
    show ∀ k, TableStore.cron (propose reply (.addCron (newCronJob id schedule jobType priority)) e.store).1 k = _
    rw [hc]
    cases reply with
    | notLeader addr => cases hprop
    | failed err => cases hprop
    | applied =>
      rw [show propose .applied (.addCron c) e.store = orUnchanged e.store (Store.addCron e.store c) from rfl]
        at hprop ⊢
      cases hadd : Store.addCron e.store c with
      | error err => rw [hadd] at hprop; cases hprop
      | ok st => rw [← hid]; exact TableStore.cron_addCron hadd
  | false =>
    simp only [raftReply, Bool.false_eq_true, if_false, addCronJob, hc] at h ⊢
    cases hadd : Store.addCron e.store c with
    | error err => simp only [hadd] at h; cases h
    | ok st =>
      simp only [hadd] at h ⊢
      cases hreg : e.cronScheduler.add now c with
      | error err => simp only [hreg] at h; cases h
      | ok cs =>
        rw [← hid]
        exact ⟨TableStore.cron_addCron hadd, (fun hraft => by cases hraft), fun _ => CronScheduler.add_ok hreg⟩

/-! ## Runs -/

/-- With Raft nothing is ever registered. -/
theorem step_unregistered {e : CronEngine σ} (h : e.Unregistered) (a : Act) (hok : Succeeds true e a) :
    (e.step true a).1.Unregistered := by
  cases a with
  | addCronJob reply now id schedule jobType priority =>
    intro k
    have hsame := (addCronJob_success true hok).2.1 rfl
    rw [show (e.step true (.addCronJob reply now id schedule jobType priority)).1 =
      (e.addCronJob (raftReply true reply) now id schedule jobType priority).2 from rfl, hsame]
    exact h k
  | removeCronJob reply id => exact h
  | apply cmd => exact h
  | tick reply now ord =>
    intro k
    simp only [step]
    split
    · have hdef := CronScheduler.tick_definition ord now e.cronScheduler k
      rw [h k, Option.map_none, Option.map_eq_none_iff] at hdef
      exact hdef
    · exact h k
  | claim ord₁ ord₂ => exact h
  | stepDown => exact h
  | restart durable available broker ord ord₁ ord₂ ord₃ ord₄ => exact fun k => rfl

/-- With Raft: where nothing is registered, a harmless step of a running loop finds no cron job in the store and
leaves none. -/
theorem step_noCrons {e : CronEngine σ} (h : e.ticking = true → NoCrons e.store) {a : Act} (ha : Harmless true e a) :
    (e.step true a).1.ticking = true → NoCrons (e.step true a).1.store := by
  intro htick
  cases a with
  | addCronJob reply now id schedule jobType priority =>
    have htick' : e.ticking = true := by rw [← addCronJob_ticking]; exact htick
    rw [ha rfl] at htick'
    cases htick'
  | removeCronJob reply id =>
    show NoCrons (propose reply (.deleteCron id) e.store).1
    cases reply with
    | notLeader addr => exact h htick
    | failed err => exact h htick
    | applied => exact fsmApply_cron (fun hc => by cases hc) (h htick)
  | apply cmd =>
    have htick' : e.ticking = true := htick
    refine fsmApply_cron (fun hc st hst => ?_) (h htick)
    rw [ha rfl hc ⟨st, hst⟩] at htick'
    cases htick'
  | tick reply now ord =>
    simp only [step] at htick ⊢
    split
    · rename_i hrun
      intro k
      rw [tick_cron]
      exact h hrun k
    · rename_i hstopped
      rw [if_neg hstopped] at htick
      exact absurd htick hstopped
  | claim ord₁ ord₂ =>
    show NoCrons (e.engine.scheduler.rebuildQueuesFromStore ord₁ ord₂).1.store
    rw [Scheduler.rebuildQueuesFromStore_store]
    exact ha rfl
  | stepDown => cases htick
  | restart durable available broker ord ord₁ ord₂ ord₃ ord₄ => cases htick

/-- Without Raft every call writes both tables, and the loop runs from the start on. -/
theorem step_same_alone {e : CronEngine σ} (h : e.ticking = true → e.Same) {a : Act} (hok : Succeeds false e a)
    (ha : Harmless false e a) : (e.step false a).1.ticking = true → (e.step false a).1.Same := by
  intro htick
  cases a with
  | addCronJob reply now id schedule jobType priority =>
    obtain ⟨hcron, -, hreg⟩ := addCronJob_success false hok
    obtain ⟨next, hnext⟩ := hreg rfl
    have htick' : e.ticking = true := by rw [← addCronJob_ticking]; exact htick
    intro k
    have hk := h htick' k
    rw [show (e.step false (.addCronJob reply now id schedule jobType priority)).1 =
      (e.addCronJob (raftReply false reply) now id schedule jobType priority).2 from rfl, hcron, hnext]
    split
    · rfl
    · exact hk
  | removeCronJob reply id =>
    intro k
    have hk := h htick k
    show ((e.cronScheduler.remove id).jobs.lookup k).map CronJob.definition =
      (TableStore.cron (Store.deleteCron e.store id).2 k).map CronJob.definition
    rw [CronScheduler.lookup_remove, TableStore.cron_deleteCron]
    split
    · rfl
    · exact hk
  | apply cmd => exact h htick
  | tick reply now ord =>
    simp only [step] at htick ⊢
    split
    · rename_i hrun
      intro k
      rw [tick_cron, ← h hrun k]
      exact CronScheduler.tick_definition ord now e.cronScheduler k
    · rename_i hstopped
      rw [if_neg hstopped] at htick
      exact absurd htick hstopped
  | claim ord₁ ord₂ => exact h htick
  | stepDown => exact h htick
  | restart durable available broker ord ord₁ ord₂ ord₃ ord₄ =>
    have hun : (e.step false (.restart durable available broker ord ord₁ ord₂ ord₃ ord₄)).1.Unregistered := fun k => rfl
    refine hun.same_iff.2 ?_
    simp only [step]
    rw [start_store]
    split
    · rename_i hd; exact ha rfl hd
    · exact TableStore.cron_empty

/-- A harmless step of a running loop keeps the two tables the same. -/
theorem step_same {raft : Bool} {e : CronEngine σ} (hraft : raft = true → e.Unregistered)
    (h : e.ticking = true → e.Same) {a : Act} (hok : Succeeds raft e a) (ha : Harmless raft e a) :
    (e.step raft a).1.ticking = true → (e.step raft a).1.Same := by
  cases raft with
  | false => exact step_same_alone h hok ha
  | true =>
    intro htick
    refine (step_unregistered (hraft rfl) a hok).same_iff.2 (step_noCrons (fun hrun => ?_) ha htick)
    exact (hraft rfl).same_iff.1 (h hrun)

/-- A step after which a running loop agrees with the store is harmless. -/
theorem harmless_of_agree {raft : Bool} {e : CronEngine σ} (hraft : raft = true → e.Unregistered) {a : Act}
    (hok : Succeeds raft e a) (h : (e.step raft a).1.ticking = true → (e.step raft a).1.Agree) : Harmless raft e a := by
  cases a with
  | addCronJob reply now id schedule jobType priority =>
    rintro rfl
    cases htick : e.ticking with
    | false => rfl
    | true =>
      have hun := step_unregistered (hraft rfl) (.addCronJob reply now id schedule jobType priority) hok
      have hno := hun.noCrons (h htick) id
      have hcron := (addCronJob_success true hok).1 id
      rw [if_pos rfl] at hcron
      rw [show (e.step true (.addCronJob reply now id schedule jobType priority)).1 =
        (e.addCronJob (raftReply true reply) now id schedule jobType priority).2 from rfl, hcron] at hno
      cases hno
  | removeCronJob reply id => trivial
  | apply cmd =>
    rintro rfl hc ⟨st, hst⟩
    cases htick : e.ticking with
    | false => rfl
    | true =>
      have hno := (step_unregistered (hraft rfl) (.apply cmd) hok).noCrons (h htick) cmd.cron.id
      have happ : (fsmApply e.store cmd).1 = st := by
        unfold fsmApply
        rw [hc]
        dsimp only
        rw [hst]
        rfl
      rw [show (e.step true (.apply cmd)).1.store = (fsmApply e.store cmd).1 from rfl, happ,
        TableStore.cron_addCron hst, if_pos rfl] at hno
      cases hno
  | tick reply now ord => trivial
  | claim ord₁ ord₂ =>
    rintro rfl
    have hno := (step_unregistered (hraft rfl) (.claim ord₁ ord₂) hok).noCrons (h rfl)
    rw [show (e.step true (.claim ord₁ ord₂)).1.store =
      (e.engine.scheduler.rebuildQueuesFromStore ord₁ ord₂).1.store from rfl,
        Scheduler.rebuildQueuesFromStore_store] at hno
    exact hno
  | stepDown => trivial
  | restart durable available broker ord ord₁ ord₂ ord₃ ord₄ =>
    rintro rfl rfl
    have hun : (e.step false (.restart true available broker ord ord₁ ord₂ ord₃ ord₄)).1.Unregistered := fun k => rfl
    have hno := hun.noCrons (h rfl)
    simp only [step] at hno
    rw [start_store] at hno
    exact hno

end

/-- A restart with nothing to restore from, and one that finds the store. -/
def restartOn (durable : Bool) : Act := .restart durable (Chan.make 0) none .stored .stored .stored .stored .stored

/-- A job that runs every minute. -/
def everyMinute : Act := .addCronJob .applied 0 "report" "* * * * *" "email" 1

/-- What the store and the cron scheduler know of cron jobs is in both states the same. -/
def SameTables {σ : Type} [TableStore σ] (e e' : CronEngine σ) : Prop :=
  (∀ k, TableStore.cron e'.store k = TableStore.cron e.store k) ∧ e'.cronScheduler = e.cronScheduler

/-- An `AddCronJob` that fails leaves the cron scheduler alone and writes what the store accepts. -/
theorem addCronJob_error {σ : Type} [TableStore σ] {now : Time} {id schedule jobType : String} {priority : Int}
    {e : CronEngine σ} {err : String} (h : (e.addCronJob none now id schedule jobType priority).1 = some err) :
    ((e.addCronJob none now id schedule jobType priority).2 = e ∧
        ∃ refusal, Store.addCron e.store (newCronJob id schedule jobType priority) = .error refusal) ∨
      ((e.addCronJob none now id schedule jobType priority).2.cronScheduler = e.cronScheduler ∧
        (∀ refusal, Store.addCron e.store (newCronJob id schedule jobType priority) ≠ .error refusal) ∧
        ∀ k, TableStore.cron (e.addCronJob none now id schedule jobType priority).2.store k =
          if k = id then some (newCronJob id schedule jobType priority) else TableStore.cron e.store k) := by
  unfold addCronJob at h ⊢
  dsimp only at h ⊢
  cases hadd : Store.addCron e.store (newCronJob id schedule jobType priority) with
  | error refusal => exact .inl ⟨rfl, refusal, rfl⟩
  | ok st =>
    right
    rw [hadd] at h
    dsimp only at h ⊢
    cases hreg : e.cronScheduler.add now (newCronJob id schedule jobType priority) with
    | ok cs =>
      rw [hreg] at h
      cases h
    | error refusal => exact ⟨rfl, (fun _ heq => by cases heq), TableStore.cron_addCron hadd⟩

/-- A standalone `AddCronJob` that returns an error has changed nothing exactly if the store refused the job, or had
exactly this job under the id already. -/
theorem addCronJob_error_sameTables_iff {σ : Type} [TableStore σ] {now : Time} {id schedule jobType : String}
    {priority : Int} {e : CronEngine σ} {err : String}
    (h : (e.addCronJob none now id schedule jobType priority).1 = some err) :
    SameTables e (e.addCronJob none now id schedule jobType priority).2 ↔
      (∃ refusal, Store.addCron e.store (newCronJob id schedule jobType priority) = .error refusal) ∨
        TableStore.cron e.store id = some (newCronJob id schedule jobType priority) := by
  rcases addCronJob_error h with ⟨hsame, hrefused⟩ | ⟨hreg, hstored, hcron⟩
  · rw [hsame]
    exact iff_of_true ⟨fun _ => rfl, rfl⟩ (.inl hrefused)
  · constructor
    · rintro ⟨hkeep, -⟩
      right
      rw [← hkeep, hcron, if_pos rfl]
    · rintro (⟨refusal, hrefused⟩ | hthere)
      · exact absurd hrefused (hstored refusal)
      · refine ⟨fun k => ?_, hreg⟩
        rw [hcron]
        split
        · rename_i hk
          rw [hk, hthere]
        · rfl

/-- The server that has added the job, without Raft. -/
def added : CronEngine MemoryStore := (machine false).exec (stopped MemoryStore.new) [restartOn true, everyMinute]

/-- The same job added again is refused and nothing has changed. -/
theorem added_again_sameTables :
    (added.addCronJob none 0 "report" "* * * * *" "email" 1).1 = some "cron job id already exists" ∧
      SameTables added (added.addCronJob none 0 "report" "* * * * *" "email" 1).2 := by
  have hfails : (added.addCronJob none 0 "report" "* * * * *" "email" 1).1 =
    some "cron job id already exists" := by decide +kernel
  exact ⟨hfails, (addCronJob_error_sameTables_iff hfails).2 (.inr (by decide +kernel))⟩

/-- An unsupported schedule is refused and stays in the store: under a new id it is listed from then on, under one in
use the definition of the job that keeps running is overwritten. -/
theorem refused_stored :
    let fresh := (machine false).exec (stopped MemoryStore.new) [restartOn true]
    let p := fresh.addCronJob none 0 "weekly" "0 9 * * 1" "email" 1
    let q := added.addCronJob none 0 "report" "0 9 * * 1" "email" 1
    p.1 = some "unsupported cron schedule" ∧ ¬ SameTables fresh p.2 ∧
      (p.2.listCronJobs .stored .stored).map CronJob.id = ["weekly"] ∧ q.1 = some "unsupported cron schedule" ∧
        ¬ SameTables added q.2 ∧
      (q.2.listCronJobs .stored .stored).map CronJob.schedule = ["0 9 * * 1"] ∧
      (q.2.cronScheduler.list .stored).map CronJob.schedule = ["* * * * *"] := by
  intro fresh p q
  have hfresh : TableStore.cron p.2.store "weekly" ≠ TableStore.cron fresh.store "weekly" := by decide +kernel
  have hadded : TableStore.cron q.2.store "report" ≠ TableStore.cron added.store "report" := by decide +kernel
  exact ⟨by decide +kernel, fun h => hfresh (h.1 _), by decide +kernel, by decide +kernel,
    fun h => hadded (h.1 _), by decide +kernel, by decide +kernel⟩

end CronEngine

end Quorum
