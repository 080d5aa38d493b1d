/-
Who knows a worker (`Client.Start` in `internal/rpc/client`, `RegisterWorker` and `Heartbeat` in
`internal/rpc/server`, the worker manager, and the boot of a control node). There are several control nodes and
several processes of worker nodes, each set up with the address of one control node. A process registers once, when it
starts, and from then on sends heartbeats only; a control node answers the heartbeat of a worker that it does not know
like any other. A worker that was evicted, or whose control node was started again, is therefore not seen again before
its own process starts again, and a control node knows no worker that was set up with another.

The in-process workers are registered when the control node boots and send no heartbeats, so that `Monitor` declares
each of them dead once, when they have been up for longer than the timeout.
-/
import Quorum.Rpc.Manager
import Quorum.Rpc.Report

namespace Quorum

namespace Manager

/-- The manager after `engine.New`, which registers the in-process workers. -/
def boot (workerCount : Nat) (clock : Int → Time) : Manager :=
  (List.range workerCount).foldl (fun m (i : Nat) => m.register (i + 1) ["*"] (clock (i + 1))) .new

/-- What an act does to the entry of a worker. -/
def entryAfter (timeout : Duration) (id : Int) : Act → Option WorkerInfo → Option WorkerInfo
  | .register id' topics now, info => if id = id' then some ⟨now, true, topics⟩ else info
  | .remove id', info => if id = id' then none else info
  | .heartbeat id' now, info => if id = id' then info.map ({ · with lastHeartbeat := now, alive := true }) else info
  | .monitorWorker id' now, info =>
    if id = id' then
      info.map fun info => { info with alive := info.alive && !decide (now - info.lastHeartbeat > timeout) }
    else info
  | .receive, info => info

theorem lookup_step (timeout : Duration) (m : Manager) (a : Act) (id : Int) :
    (step timeout m a).1.workers.lookup id = entryAfter timeout id a (m.workers.lookup id) := by
  cases a with
  | register id' topics now => exact GoMap.lookup_insert_ite ..
  | remove id' =>
    simp only [step, remove, entryAfter]
    by_cases hid : id = id'
    · subst hid
      rw [if_pos rfl]
      cases hinfo : m.workers.lookup id with
      | none => exact hinfo
      | some info => exact (GoMap.lookup_erase_ite ..).trans (if_pos rfl)
    · rw [if_neg hid]
      cases m.workers.lookup id' with
      | none => rfl
      | some info => exact (GoMap.lookup_erase_ite ..).trans (if_neg hid)
  | heartbeat id' now =>
    simp only [step, heartbeat, entryAfter]
    by_cases hid : id = id'
    · subst hid
      rw [if_pos rfl]
      cases hinfo : m.workers.lookup id with
      | none => exact hinfo
      | some info => exact (GoMap.lookup_insert_ite ..).trans (if_pos rfl)
    · rw [if_neg hid]
      cases m.workers.lookup id' with
      | none => rfl
      | some info => exact (GoMap.lookup_insert_ite ..).trans (if_neg hid)
  | monitorWorker id' now =>
    simp only [step, monitorWorker, entryAfter]
    by_cases hid : id = id'
    · subst hid
      rw [if_pos rfl]
      cases hinfo : m.workers.lookup id with
      | none => exact hinfo
      | some info =>
        dsimp only [Option.map_some]
        split
        · rename_i hlate
          rw [decide_eq_true hlate, Bool.not_true, Bool.and_false]
          split
          · exact (GoMap.lookup_insert_ite ..).trans (if_pos rfl)
          · rename_i hdead
            rw [hinfo, ← Bool.eq_false_iff.2 hdead]
        · rename_i hearly
          rw [decide_eq_false hearly, Bool.not_false, Bool.and_true]
          exact hinfo
    · rw [if_neg hid]
      cases m.workers.lookup id' with
      | none => rfl
      | some info =>
        dsimp only
        split
        · split
          · exact (GoMap.lookup_insert_ite ..).trans (if_neg hid)
          · rfl
        · rfl
  | receive =>
    simp only [step, receive, entryAfter]
    split <;> rfl

theorem lookup_boot (workerCount : Nat) (clock : Int → Time) (id : Int) :
    (boot workerCount clock).workers.lookup id =
      if 1 ≤ id ∧ id ≤ workerCount then some ⟨clock id, true, ["*"]⟩ else none := by
  unfold boot
  induction workerCount with
  | zero =>
    rw [if_neg (by omega)]
    rfl
  | succ n ih =>
    rw [List.range_succ, List.foldl_append]
    refine (GoMap.lookup_insert_ite ..).trans ?_
    by_cases hid : id = n + 1
    · subst hid
      rw [if_pos rfl, if_pos (by omega)]
    · rw [if_neg hid, ih]
      refine if_congr ?_ rfl rfl
      omega

end Manager

namespace Membership

/-- Where `Client.Start` is. It returns if the registration fails. -/
inductive Phase where
  | starting
  | beating
  | returned
  deriving DecidableEq, Repr

/-- The RPC that `Client.Start` is in: not made yet, under way, or handled by the control node. -/
inductive CallState where
  | idle
  | sent
  | handled
  deriving DecidableEq, Repr

/-- A process of a worker node: `QUORUM_WORKER_ID`, the control node at `QUORUM_CONTROLLER_ADDR`,
`QUORUM_WORKER_TOPICS`. -/
structure Process where
  id : Int
  controller : Nat
  topics : List String
  phase : Phase
  call : CallState
  deriving DecidableEq, Repr

inductive Request where
  | register (topics : List String)
  | heartbeat
  deriving DecidableEq, Repr

/-- An RPC of a worker to a control node. -/
structure Call where
  controller : Nat
  id : Int
  request : Request
  deriving DecidableEq, Repr

/-- The RPC that comes next, or is under way. The messages have 32 bits for the worker's id. -/
def Process.rpc (p : Process) : Call :=
  ⟨p.controller, int32 p.id, if p.phase = .starting then .register p.topics else .heartbeat⟩

/-- The control nodes, the processes, and the RPCs whose process has given up or ended before they were handled. -/
structure Deployment where
  managers : Nat → Manager
  processes : Nat → Option Process
  orphans : List Call

/-- What happens. A process is told by its pid. -/
inductive Act where
  /-- A process starts; the one that had the pid before has ended. -/
  | start (pid : Nat) (id : Int) (controller : Nat) (topics : List String)
  | stop (pid : Nat)
  /-- `RegisterWorker`, or `Heartbeat` on a tick. -/
  | send (pid : Nat)
  /-- The control node handles the RPC of the process; `dialed` is `NewOutbound` without an error. -/
  | handle (pid : Nat) (dialed : Bool) (now : Time)
  | handleOrphan (i : Nat) (dialed : Bool) (now : Time)
  /-- The RPC of the process returns with its answer. -/
  | answer (pid : Nat)
  /-- The RPC of the process returns with an error. -/
  | fail (pid : Nat)
  /-- `DELETE /cluster/nodes/{id}`. -/
  | remove (c : Nat) (id : Int)
  | monitorWorker (c : Nat) (id : Int) (now : Time)
  /-- `recoveryLoop` receives from `DeadWorkers`. -/
  | receiveDead (c : Nat)
  /-- The control node starts, with in-process workers. -/
  | boot (c : Nat) (workerCount : Nat) (clock : Int → Time)

/-- The act is one of an RPC. -/
def Act.isCall : Act → Bool
  | .send _ | .handle _ _ _ | .handleOrphan _ _ _ | .answer _ | .fail _ => true
  | _ => false

/-- What `WorkerServer` calls for an RPC. Whatever that does, it answers without an error. -/
def Call.served (call : Call) (dialed : Bool) (now : Time) : Option Manager.Act :=
  match call.request with
  | .register topics => if dialed then some (.register call.id topics now) else none
  | .heartbeat => some (.heartbeat call.id now)

namespace Deployment

def setProcess (d : Deployment) (pid : Nat) (p : Option Process) : Deployment :=
  { d with processes := Function.update d.processes pid p }

/-- The process of this pid gives up its RPC. -/
def orphan (d : Deployment) (pid : Nat) : Deployment :=
  match d.processes pid with
  | none => d
  | some p => if p.call = .sent then { d with orphans := p.rpc :: d.orphans } else d

variable (timeout : Duration)

/-- A call of the manager of a control node. -/
def manage (d : Deployment) (c : Nat) (a : Manager.Act) : Deployment × List (Nat × Manager.Event) :=
  let p := (d.managers c).step timeout a
  ({ d with managers := Function.update d.managers c p.1 }, p.2.map fun e => (c, e))

def serve (d : Deployment) (call : Call) (dialed : Bool) (now : Time) : Deployment × List (Nat × Manager.Event) :=
  match call.served dialed now with
  | none => (d, [])
  | some a => d.manage timeout call.controller a

def step (d : Deployment) : Act → Deployment × List (Nat × Manager.Event)
  | .start pid id controller topics =>
    ((d.orphan pid).setProcess pid (some ⟨id, controller, topics, .starting, .idle⟩), [])
  | .stop pid => ((d.orphan pid).setProcess pid none, [])
  | .send pid =>
    match d.processes pid with
    | none => (d, [])
    | some p =>
      if p.phase ≠ .returned ∧ p.call = .idle then (d.setProcess pid (some { p with call := .sent }), []) else (d, [])
  | .handle pid dialed now =>
    match d.processes pid with
    | none => (d, [])
    | some p =>
      if p.call = .sent then (d.setProcess pid (some { p with call := .handled })).serve timeout p.rpc dialed now
      else (d, [])
  | .handleOrphan i dialed now =>
    match d.orphans[i]? with
    | none => (d, [])
    | some call => { d with orphans := d.orphans.eraseIdx i }.serve timeout call dialed now
  | .answer pid =>
    match d.processes pid with
    | none => (d, [])
    -- a registration that was answered with `Success: false` is not told from one with `Success: true`
    | some p =>
      if p.call = .handled then (d.setProcess pid (some { p with phase := .beating, call := .idle }), []) else (d, [])
  | .fail pid =>
    match d.processes pid with
    | none => (d, [])
    | some p =>
      if p.call = .idle then (d, [])
      else
        ((d.orphan pid).setProcess pid
          (some { p with phase := if p.phase = .starting then .returned else p.phase, call := .idle }), [])
  | .remove c id => d.manage timeout c (.remove id)
  | .monitorWorker c id now => d.manage timeout c (.monitorWorker id now)
  | .receiveDead c => d.manage timeout c .receive
  | .boot c workerCount clock => ({ d with managers := Function.update d.managers c (.boot workerCount clock) }, [])

end Deployment

def deployment (timeout : Duration) : Machine Deployment Act (Nat × Manager.Event) := ⟨Deployment.step timeout⟩

namespace Deployment

variable {timeout : Duration} {d : Deployment}

/-! ## One step -/

/-- What a step may be. -/
inductive Outcome (timeout : Duration) (d : Deployment) : Act → Deployment × List (Nat × Manager.Event) → Prop where
  /-- There is no such process, or its RPC is not at this point. -/
  | idle {a : Act} (ha : a.isCall = true) : Outcome timeout d a (d, [])
  | started (pid : Nat) (id : Int) (controller : Nat) (topics : List String) :
      Outcome timeout d (.start pid id controller topics)
      ((d.orphan pid).setProcess pid (some ⟨id, controller, topics, .starting, .idle⟩), [])
  | stopped (pid : Nat) : Outcome timeout d (.stop pid) ((d.orphan pid).setProcess pid none, [])
  | sent {pid : Nat} {p : Process} (hp : d.processes pid = some p) (hphase : p.phase ≠ .returned)
      (hcall : p.call = .idle) :
      Outcome timeout d (.send pid) (d.setProcess pid (some { p with call := .sent }), [])
  | handled {pid : Nat} {p : Process} (hp : d.processes pid = some p) (hcall : p.call = .sent) (dialed : Bool)
      (now : Time) :
      Outcome timeout d (.handle pid dialed now)
        ((d.setProcess pid (some { p with call := .handled })).serve timeout p.rpc dialed now)
  | handledOrphan {i : Nat} {call : Call} (hcall : d.orphans[i]? = some call) (dialed : Bool) (now : Time) :
      Outcome timeout d (.handleOrphan i dialed now)
        ({ d with orphans := d.orphans.eraseIdx i }.serve timeout call dialed now)
  | answered {pid : Nat} {p : Process} (hp : d.processes pid = some p) (hcall : p.call = .handled) :
      Outcome timeout d (.answer pid) (d.setProcess pid (some { p with phase := .beating, call := .idle }), [])
  | failed {pid : Nat} {p : Process} (hp : d.processes pid = some p) (hcall : p.call ≠ .idle) :
      Outcome timeout d (.fail pid) ((d.orphan pid).setProcess pid
        (some { p with phase := if p.phase = .starting then .returned else p.phase, call := .idle }), [])
  | removed (c : Nat) (id : Int) : Outcome timeout d (.remove c id) (d.manage timeout c (.remove id))
  | monitored (c : Nat) (id : Int) (now : Time) :
      Outcome timeout d (.monitorWorker c id now) (d.manage timeout c (.monitorWorker id now))
  | received (c : Nat) : Outcome timeout d (.receiveDead c) (d.manage timeout c .receive)
  | booted (c workerCount : Nat) (clock : Int → Time) : Outcome timeout d (.boot c workerCount clock)
      ({ d with managers := Function.update d.managers c (.boot workerCount clock) }, [])

theorem step_outcome (timeout : Duration) (d : Deployment) (a : Act) : Outcome timeout d a (step timeout d a) := by
  cases a with
  | start pid id controller topics => exact .started pid id controller topics
  | stop pid => exact .stopped pid
  | send pid =>
    simp only [step]
    split
    · exact .idle rfl
    · rename_i hp
      split
      · rename_i hready
        exact .sent hp hready.1 hready.2
      · exact .idle rfl
  | handle pid dialed now =>
    simp only [step]
    split
    · exact .idle rfl
    · rename_i hp
      split
      · rename_i hcall
        exact .handled hp hcall dialed now
      · exact .idle rfl
  | handleOrphan i dialed now =>
    simp only [step]
    split
    · exact .idle rfl
    · rename_i hcall
      exact .handledOrphan hcall dialed now
  | answer pid =>
    simp only [step]
    split
    · exact .idle rfl
    · rename_i hp
      split
      · rename_i hcall
        exact .answered hp hcall
      · exact .idle rfl
  | fail pid =>
    simp only [step]
    split
    · exact .idle rfl
    · rename_i hp
      split
      · exact .idle rfl
      · rename_i hcall
        exact .failed hp hcall
  | remove c id => exact .removed c id
  | monitorWorker c id now => exact .monitored c id now
  | receiveDead c => exact .received c
  | boot c workerCount clock => exact .booted c workerCount clock

/-- The entry of a worker at a control node. -/
def entry (d : Deployment) (c : Nat) (id : Int) : Option WorkerInfo := (d.managers c).workers.lookup id

theorem entry_manage (d : Deployment) (c' : Nat) (a : Manager.Act) (c : Nat) (id : Int) :
    (d.manage timeout c' a).1.entry c id =
      if c = c' then Manager.entryAfter timeout id a (d.entry c id) else d.entry c id := by
  simp only [manage, entry]
  by_cases hc : c = c'
  · subst hc
    rw [if_pos rfl, Function.update_self]
    exact Manager.lookup_step ..
  · rw [if_neg hc, Function.update_of_ne hc]

theorem orphan_frame (d : Deployment) (pid : Nat) :
    (d.orphan pid).managers = d.managers ∧ (d.orphan pid).processes = d.processes := by
  unfold orphan
  split
  · exact ⟨rfl, rfl⟩
  · split <;> exact ⟨rfl, rfl⟩

theorem serve_frame (d : Deployment) (timeout : Duration) (call : Call) (dialed : Bool) (now : Time) :
    (d.serve timeout call dialed now).1.processes = d.processes ∧
      (d.serve timeout call dialed now).1.orphans = d.orphans := by
  unfold serve
  split <;> exact ⟨rfl, rfl⟩

/-- What an RPC does to the entry of its worker. -/
def effect (call : Call) (dialed : Bool) (now : Time) (info : Option WorkerInfo) : Option WorkerInfo :=
  match call.request with
  | .register topics => if dialed then some ⟨now, true, topics⟩ else info
  | .heartbeat => info.map ({ · with lastHeartbeat := now, alive := true })

theorem entry_serve (d : Deployment) (call : Call) (dialed : Bool) (now : Time) (c : Nat) (id : Int) :
    (d.serve timeout call dialed now).1.entry c id =
      if c = call.controller ∧ id = call.id then effect call dialed now (d.entry c id) else d.entry c id := by
  unfold serve Call.served effect
  rw [ite_and]
  cases call.request with
  | register topics =>
    cases dialed with
    | false => simp
    | true => exact entry_manage ..
  | heartbeat => exact entry_manage ..

/-! ## Who may still be heard -/

/-- Some of the processes and of the RPCs: a process gets among them when it starts or never, and so does its RPC. -/
structure Speakers where
  process : Process → Prop
  call : Call → Prop
  of_call : ∀ p, p.call = .sent → call p.rpc → process p
  of_sent : ∀ p, p.call = .idle → process { p with call := .sent } → process p
  of_handled : ∀ p, process { p with call := .handled } → process p
  of_answered : ∀ p, process { p with phase := .beating, call := .idle } → process p
  of_failed : ∀ p, process { p with phase := if p.phase = .starting then .returned else p.phase, call := .idle } →
    process p

/-- None of them is there. -/
structure Silent (v : Speakers) (d : Deployment) : Prop where
  processes : ∀ pid p, d.processes pid = some p → ¬ v.process p
  orphans : ∀ call ∈ d.orphans, ¬ v.call call

variable {v : Speakers}

theorem Silent.orphan (h : Silent v d) (pid : Nat) : Silent v (d.orphan pid) := by
  unfold Deployment.orphan
  split
  · exact h
  · rename_i p hp
    split
    · rename_i hsent
      refine ⟨h.processes, fun call hcall hv => ?_⟩
      rcases List.mem_cons.1 hcall with rfl | hcall
      · exact h.processes pid p hp (v.of_call p hsent hv)
      · exact h.orphans call hcall hv
    · exact h

theorem Silent.setProcess (h : Silent v d) (pid : Nat) {q : Option Process} (hq : ∀ p, q = some p → ¬ v.process p) :
    Silent v (d.setProcess pid q) := by
  refine ⟨fun pid' p hp => ?_, h.orphans⟩
  dsimp only [Deployment.setProcess] at hp
  by_cases hpid : pid' = pid
  · subst hpid
    rw [Function.update_self] at hp
    exact hq p hp
  · rw [Function.update_of_ne hpid] at hp
    exact h.processes pid' p hp

theorem Silent.serve (h : Silent v d) (call : Call) (dialed : Bool) (now : Time) :
    Silent v (d.serve timeout call dialed now).1 := by
  obtain ⟨hprocesses, horphans⟩ := d.serve_frame timeout call dialed now
  exact ⟨hprocesses ▸ h.processes, horphans ▸ h.orphans⟩

/-- Silence lasts until one of them starts. -/
theorem Silent.step (h : Silent v d) {a : Act}
    (ha : ∀ pid id c topics, a = .start pid id c topics → ¬ v.process ⟨id, c, topics, .starting, .idle⟩) :
    Silent v (d.step timeout a).1 := by
  have hstep := step_outcome timeout d a
  generalize d.step timeout a = q at hstep
  have hsome : ∀ {p p' : Process}, ¬ v.process p' → some p' = some p → ¬ v.process p :=
    fun hp' heq => Option.some.inj heq ▸ hp'
  cases hstep with
  | idle => exact h
  | started pid id c topics => exact (h.orphan pid).setProcess pid fun _ => hsome (ha pid id c topics rfl)
  | stopped pid => exact (h.orphan pid).setProcess pid fun _ heq => by cases heq
  | sent hp hphase hcall => exact h.setProcess _ fun _ => hsome fun hv => h.processes _ _ hp (v.of_sent _ hcall hv)
  | handled hp hcall dialed now =>
    exact (h.setProcess _ fun _ => hsome fun hv => h.processes _ _ hp (v.of_handled _ hv)).serve _ dialed now
  | @handledOrphan i call hcall dialed now =>
    have hrest : Silent v { d with orphans := d.orphans.eraseIdx i } :=
      ⟨h.processes, fun call hmem => h.orphans call (List.mem_of_mem_eraseIdx hmem)⟩
    exact hrest.serve call dialed now
  | answered hp hcall => exact h.setProcess _ fun _ => hsome fun hv => h.processes _ _ hp (v.of_answered _ hv)
  | failed hp hcall => exact (h.orphan _).setProcess _ fun _ => hsome fun hv => h.processes _ _ hp (v.of_failed _ hv)
  | removed | monitored | received | booted => exact ⟨h.processes, h.orphans⟩

end Deployment

/-! ## A worker that is not known -/

/-- The RPC registers the worker with the control node. -/
def Call.Registers (c : Nat) (id : Int) (call : Call) : Prop :=
  call.controller = c ∧ call.id = id ∧ ∃ topics, call.request = .register topics

/-- The processes that have still to register the worker with the control node. -/
def registrars (c : Nat) (id : Int) : Deployment.Speakers where
  process p := p.controller = c ∧ int32 p.id = id ∧ p.phase = .starting ∧ p.call ≠ .handled
  call := Call.Registers c id
  of_call := by
    rintro p hsent ⟨hc, hid, topics, hrequest⟩
    refine ⟨hc, hid, ?_, by rw [hsent]; exact CallState.noConfusion⟩
    by_contra hphase
    simp [Process.rpc, hphase] at hrequest
  of_sent := by
    rintro p hidle ⟨hc, hid, hphase, -⟩
    exact ⟨hc, hid, hphase, by rw [hidle]; exact CallState.noConfusion⟩
  of_handled := by
    rintro p ⟨-, -, -, hcall⟩
    exact absurd rfl hcall
  of_answered := by
    rintro p ⟨-, -, hphase, -⟩
    cases hphase
  of_failed := by
    rintro p ⟨-, -, hphase, -⟩
    dsimp only at hphase
    split at hphase
    · cases hphase
    · contradiction

/-- A process that registers under the worker's id starts, set up with the control node, or the control node starts
with the worker as one of its in-process workers. -/
def Act.Brings (c : Nat) (id : Int) : Act → Prop
  | .start _ id' c' _ => c' = c ∧ int32 id' = id
  | .boot c' workerCount _ => c' = c ∧ 1 ≤ id ∧ id ≤ workerCount
  | _ => False

/-- The process of this pid ends. -/
def Act.Ends (pid : Nat) : Act → Prop
  | .start pid' _ _ _ | .stop pid' => pid' = pid
  | _ => False

namespace Deployment

variable {timeout : Duration} {d : Deployment} {c : Nat} {id : Int}

/-- The control node does not know the worker, and no process has still to register it. -/
structure Forgotten (d : Deployment) (c : Nat) (id : Int) : Prop where
  entry : d.entry c id = none
  silent : Silent (registrars c id) d

theorem entry_serve_none (hnone : d.entry c id = none) {call : Call} (hcall : ¬ call.Registers c id) (dialed : Bool)
    (now : Time) :
    (d.serve timeout call dialed now).1.entry c id = none := by
  rw [entry_serve, hnone]
  split
  · rename_i hself
    unfold effect
    cases hrequest : call.request with
    | register topics => exact absurd ⟨hself.1.symm, hself.2.symm, topics, hrequest⟩ hcall
    | heartbeat => rfl
  · rfl

theorem Forgotten.step (h : d.Forgotten c id) {a : Act} (ha : ¬ a.Brings c id) :
    (d.step timeout a).1.Forgotten c id := by
  have hsilent : Silent (registrars c id) (d.step timeout a).1 := by
    refine h.silent.step ?_
    rintro pid id' c' topics rfl ⟨hc, hid, -⟩
    exact ha ⟨hc, hid⟩
  refine ⟨?_, hsilent⟩
  have horphan : ∀ pid, (d.orphan pid).entry c id = none := fun pid => by
    rw [Deployment.entry, (d.orphan_frame pid).1]
    exact h.entry
  have hmanage : ∀ c' act, Manager.entryAfter timeout id act none = none →
      (d.manage timeout c' act).1.entry c id = none := by
    intro c' act hact
    rw [entry_manage, h.entry, hact, ite_self]
  have hstep := step_outcome timeout d a
  generalize d.step timeout a = q at hstep
  cases hstep with
  | idle | sent | answered => exact h.entry
  | started pid | stopped pid | failed => exact horphan _
  | handled hp hcall dialed now =>
    refine entry_serve_none ?_ (fun hreg => ?_) dialed now
    · exact h.entry
    · exact h.silent.processes _ _ hp ((registrars c id).of_call _ hcall hreg)
  | handledOrphan hcall dialed now =>
    refine entry_serve_none ?_ (h.silent.orphans _ (List.mem_of_getElem? hcall)) dialed now
    exact h.entry
  | removed c' id' => exact hmanage c' _ (ite_self _)
  | monitored c' id' now => exact hmanage c' _ (ite_self _)
  | received c' => exact hmanage c' _ rfl
  | booted c' workerCount clock =>
    simp only [Deployment.entry]
    by_cases hc : c = c'
    · subst hc
      rw [Function.update_self, Manager.lookup_boot]
      exact if_neg fun hid => ha ⟨rfl, hid⟩
    · rw [Function.update_of_ne hc]
      exact h.entry

/-- `Client.Start` is in its loop until the process ends. -/
theorem beating_step {pid : Nat} (h : (d.processes pid).map Process.phase = some .beating) {a : Act}
    (ha : ¬ a.Ends pid) :
    ((d.step timeout a).1.processes pid).map Process.phase = some .beating := by
  have hset : ∀ {d' : Deployment} {pid' : Nat} {q : Process}, d'.processes = d.processes →
      (pid = pid' → q.phase = .beating) →
        ((d'.setProcess pid' (some q)).processes pid).map Process.phase = some .beating := by
    intro d' pid' q hd' hq
    dsimp only [setProcess]
    by_cases hpid : pid = pid'
    · subst hpid
      rw [Function.update_self, Option.map_some, hq rfl]
    · rw [Function.update_of_ne hpid, hd', h]
  have hphase : ∀ {pid' : Nat} {p : Process}, d.processes pid' = some p → pid = pid' → p.phase = .beating := by
    rintro _ p hp rfl
    rw [hp] at h
    exact Option.some.inj h
  have hstep := step_outcome timeout d a
  generalize d.step timeout a = r at hstep
  cases hstep with
  | idle | removed | monitored | received | booted => exact h
  | started pid' => exact hset (d.orphan_frame pid').2 fun hpid => absurd hpid.symm ha
  | stopped pid' =>
    dsimp only [setProcess]
    rw [Function.update_of_ne (Ne.symm ha), (d.orphan_frame pid').2, h]
  | sent hp => exact hset rfl fun hpid => (hphase hp hpid :)
  | handled hp hcall dialed now =>
    rw [(serve_frame ..).1]
    exact hset rfl fun hpid => (hphase hp hpid :)
  | handledOrphan hcall dialed now =>
    rw [(serve_frame ..).1]
    exact h
  | answered => exact hset rfl fun _ => rfl
  | failed hp hcall =>
    refine hset (orphan_frame ..).2 fun hpid => ?_
    dsimp only
    rw [hphase hp hpid]
    rfl

/-- A worker that its control node does not know, as after its eviction or a new start of the control node, stays
unknown until a process of it starts anew. A process of it that is sending heartbeats goes on with that all the
same. -/
theorem forgotten_until_restart (timeout : Duration) (h : d.Forgotten c id) {acts : List Act}
    (hacts : ∀ a ∈ acts, ¬ a.Brings c id) :
    ((deployment timeout).exec d acts).entry c id = none ∧
      ∀ pid, (d.processes pid).map Process.phase = some .beating → (∀ a ∈ acts, ¬ a.Ends pid) →
        (((deployment timeout).exec d acts).processes pid).map Process.phase = some .beating := by
  have hevery : ∀ {C : Act → Prop}, (∀ a ∈ acts, C a) → (deployment timeout).EveryStep (fun _ _ a => C a) d acts :=
    fun hC pre a post heq => hC a (by simp [heq])
  constructor
  · exact (Machine.EveryStep.inv (M := deployment timeout) (P := fun _ d => d.Forgotten c id) h
      (fun _ _ _ h ha => h.step ha) (hevery hacts)).entry
  · intro pid hbeating hends
    exact Machine.EveryStep.inv (M := deployment timeout)
      (P := fun _ d => (d.processes pid).map Process.phase = some .beating)
      hbeating (fun _ _ _ h ha => beating_step h ha) (hevery hends)

end Deployment

/-- Two control nodes without in-process workers, and no process. -/
def twoNodes : Deployment := ⟨fun _ => .new, fun _ => none, []⟩

/-- Worker 7 is registered with the control node 0 and evicted from it. -/
def evicted : List Act := [.start 1 7 0 ["email"], .send 1, .handle 1 true 10, .answer 1, .remove 0 7]

/-- The evicted worker goes on sending heartbeats, and neither its control node nor the other one knows it. -/
theorem forgotten_after_eviction :
    let d := (deployment 5).exec twoNodes evicted
    let beats := [.send 1, .handle 1 true 20, .answer 1, .send 1, .handle 1 true 21]
    d.Forgotten 0 7 ∧ d.Forgotten 1 7 ∧ ((deployment 5).exec d beats).entry 0 7 = none ∧
      (((deployment 5).exec d beats).processes 1).map Process.phase = some .beating := by
  intro d beats
  have hprocess : ∀ pid p, d.processes pid = some p → p.phase = .beating := by
    intro pid p hp
    by_cases hpid : pid = 1
    · subst hpid
      cases hp
      rfl
    · simp [d, evicted, twoNodes, deployment, Deployment.step, Deployment.orphan, Deployment.setProcess,
        Deployment.serve, Deployment.manage, Process.rpc, Call.served, hpid] at hp
  have hforgotten : ∀ c, d.entry c 7 = none → d.Forgotten c 7 := by
    intro c hentry
    refine ⟨hentry, ?_, List.forall_mem_nil _⟩
    rintro pid p hp ⟨-, -, hphase, -⟩
    cases (hprocess pid p hp).symm.trans hphase
  have hbeats : ∀ a ∈ beats, ¬ a.Brings 0 7 := by simp [beats, Act.Brings]
  have h := Deployment.forgotten_until_restart 5 (hforgotten 0 rfl) hbeats
  exact ⟨hforgotten 0 rfl, hforgotten 1 rfl, h.1, h.2 1 rfl (by simp [beats, Act.Ends])⟩

/-! ## In-process workers -/

/-- All that may still be heard of the worker at the control node. -/
def speakers (c : Nat) (id : Int) : Deployment.Speakers where
  process p := p.controller = c ∧ int32 p.id = id
  call call := call.controller = c ∧ call.id = id
  of_call := fun _ _ h => h
  of_sent := fun _ _ h => h
  of_handled := fun _ h => h
  of_answered := fun _ h => h
  of_failed := fun _ h => h

/-- What an act does to the entry of a worker of whom nothing is heard. -/
def Act.entryAfter (timeout : Duration) (c : Nat) (id : Int) : Act → Option WorkerInfo → Option WorkerInfo
  | .remove c' id', info => if c = c' then Manager.entryAfter timeout id (.remove id') info else info
  | .monitorWorker c' id' now, info =>
    if c = c' then Manager.entryAfter timeout id (.monitorWorker id' now) info else info
  | _, info => info

/-- The control node does not start, and no process of the worker. -/
def Act.Quiet (c : Nat) (id : Int) (a : Act) : Prop := ¬ a.Brings c id ∧ ∀ n clock, a ≠ .boot c n clock

/-- The act removes the worker, or finds that its last sign of life is longer ago than the timeout. -/
def Act.Kills (timeout : Duration) (c : Nat) (id : Int) (since : Time) : Act → Prop
  | .remove c' id' => c' = c ∧ id' = id
  | .monitorWorker c' id' now => c' = c ∧ id' = id ∧ now - since > timeout
  | _ => False

namespace Deployment

variable {timeout : Duration} {d : Deployment} {c : Nat} {id : Int}

/-- The control node knows the worker and has it marked alive. -/
def alive (d : Deployment) (c : Nat) (id : Int) : Bool := (d.managers c).alive id

theorem alive_eq (d : Deployment) (c : Nat) (id : Int) : d.alive c id = (d.entry c id).any (·.alive) := rfl

theorem entry_serve_of_ne {call : Call} (hcall : ¬ (speakers c id).call call) (dialed : Bool) (now : Time) :
    (d.serve timeout call dialed now).1.entry c id = d.entry c id := by
  rw [entry_serve, if_neg]
  rintro ⟨rfl, rfl⟩
  exact hcall ⟨rfl, rfl⟩

theorem serve_shown (d : Deployment) (call : Call) (dialed : Bool) (now : Time) :
    (d.serve timeout call dialed now).2 = [] := by
  unfold serve Call.served
  cases call.request with
  | register topics => cases dialed <;> rfl
  | heartbeat => rfl

theorem entry_step_silent (h : Silent (speakers c id) d) {a : Act} (ha : ∀ n clock, a ≠ .boot c n clock) :
    (d.step timeout a).1.entry c id = a.entryAfter timeout c id (d.entry c id) := by
  have horphan : ∀ pid, (d.orphan pid).entry c id = d.entry c id :=
    fun pid => by rw [entry, (d.orphan_frame pid).1]; rfl
  have hstep := step_outcome timeout d a
  generalize d.step timeout a = q at hstep
  cases hstep with
  | idle hcall => cases a <;> first | rfl | cases hcall
  | sent | answered => rfl
  | started | stopped | failed => exact horphan _
  | handled hp hcall dialed now =>
    exact entry_serve_of_ne (fun hv => h.processes _ _ hp ((speakers c id).of_call _ hcall hv)) dialed now
  | handledOrphan hcall dialed now => exact entry_serve_of_ne (h.orphans _ (List.mem_of_getElem? hcall)) dialed now
  | removed | monitored => exact entry_manage ..
  | received c' =>
    rw [entry_manage]
    exact ite_self _
  | booted c' n clock =>
    have hc : c ≠ c' := by
      rintro rfl
      exact ha n clock rfl
    simp only [entry, Act.entryAfter]
    rw [Function.update_of_ne hc]

/-- A call of a manager signals a death only when the worker dies. -/
theorem signals_manage (d : Deployment) (c' : Nat) (a : Manager.Act) :
    (d.manage timeout c' a).2.count (c, .signal id) = 0 ∨
      (d.manage timeout c' a).2.count (c, .signal id) = 1 ∧ d.alive c id = true ∧
        (d.manage timeout c' a).1.alive c id = false := by
  simp only [manage, alive]
  by_cases hc : c' = c
  · subst hc
    rw [List.count_map_of_injective _ _ (fun _ _ heq => (Prod.mk.inj heq).2), Manager.step_signals,
      Function.update_self]
    split
    · rename_i hdies
      obtain ⟨⟨hbefore, hdead⟩, -⟩ := hdies
      refine .inr ⟨rfl, hbefore, ?_⟩
      by_contra halive
      rw [Manager.not_dead_of_alive (eq_true_of_ne_false halive)] at hdead
      cases hdead
    · exact .inl rfl
  · refine .inl (List.count_eq_zero.2 fun hmem => ?_)
    obtain ⟨e, -, heq⟩ := List.mem_map.1 hmem
    exact hc (congrArg Prod.fst heq)

/-- An act makes no worker alive of whom nothing is heard. -/
theorem alive_entryAfter {a : Act} {info : Option WorkerInfo}
    (h : (a.entryAfter timeout c id info).any (·.alive) = true) :
    info.any (·.alive) = true := by
  cases a with
  | remove c' id' =>
    simp only [Act.entryAfter, Manager.entryAfter] at h
    split at h
    · split at h
      · cases h
      · exact h
    · exact h
  | monitorWorker c' id' now =>
    simp only [Act.entryAfter, Manager.entryAfter] at h
    split at h
    · split at h
      · cases info with
        | none => cases h
        | some info => exact (Bool.and_eq_true_iff.1 h).1
      · exact h
    · exact h
  | start | stop | send | handle | handleOrphan | answer | fail | receiveDead | boot => exact h

/-- A worker of whom nothing is heard does not come alive, and a death is signalled only when it dies. -/
theorem signals_step (h : Silent (speakers c id) d) {a : Act} (ha : ∀ n clock, a ≠ .boot c n clock) :
    (d.step timeout a).2.count (c, .signal id) + ((d.step timeout a).1.alive c id).toNat ≤ (d.alive c id).toNat := by
  have hkept : (d.step timeout a).1.alive c id = true → d.alive c id = true := by
    rw [alive_eq, alive_eq, entry_step_silent h ha]
    exact alive_entryAfter
  have hshown : (d.step timeout a).2.count (c, .signal id) = 0 ∨ (d.step timeout a).2.count (c, .signal id) = 1 ∧
      d.alive c id = true ∧ (d.step timeout a).1.alive c id = false := by
    have hstep := step_outcome timeout d a
    generalize d.step timeout a = q at hstep
    cases hstep with
    | idle | started | stopped | sent | answered | failed | booted => exact .inl rfl
    | handled | handledOrphan =>
      rw [serve_shown]
      exact .inl rfl
    | removed | monitored | received => exact signals_manage ..
  rcases hshown with hzero | ⟨hone, hbefore, hafter⟩
  · rw [hzero]
    cases hend : (d.step timeout a).1.alive c id with
    | false => exact Nat.zero_le _
    | true =>
      rw [hkept hend]
      exact Nat.le_refl 1
  · rw [hone, hbefore, hafter]
    exact Nat.le_refl 1

/-- An in-process worker since the boot. -/
structure Fresh (d : Deployment) (c : Nat) (id : Int) (since : Time) : Prop where
  silent : Silent (speakers c id) d
  entry : d.entry c id = some ⟨since, true, ["*"]⟩

/-- The worker is not alive, and nothing is heard of it. -/
structure Lost (d : Deployment) (c : Nat) (id : Int) : Prop where
  silent : Silent (speakers c id) d
  dead : d.alive c id = false

theorem silent_step (h : Silent (speakers c id) d) {a : Act} (ha : a.Quiet c id) :
    Silent (speakers c id) (d.step timeout a).1 := by
  refine h.step ?_
  rintro pid id' c' topics rfl ⟨hc, hid⟩
  exact ha.1 ⟨hc, hid⟩

theorem Lost.step (h : d.Lost c id) {a : Act} (ha : a.Quiet c id) : (d.step timeout a).1.Lost c id := by
  refine ⟨silent_step h.silent ha, ?_⟩
  have hsignals : _ + ((d.step timeout a).1.alive c id).toNat ≤ _ := signals_step h.silent ha.2
  rw [h.dead] at hsignals
  cases hend : (d.step timeout a).1.alive c id with
  | false => rfl
  | true => simp [hend] at hsignals

theorem Fresh.step {since : Time} (h : d.Fresh c id since) {a : Act} (ha : a.Quiet c id)
    (hkills : ¬ a.Kills timeout c id since) : (d.step timeout a).1.Fresh c id since := by
  refine ⟨silent_step h.silent ha, ?_⟩
  rw [entry_step_silent h.silent ha.2, h.entry]
  cases a with
  | remove c' id' =>
    simp only [Act.entryAfter, Manager.entryAfter]
    split
    · rename_i hc
      exact if_neg fun hid => hkills ⟨hc.symm, hid.symm⟩
    · rfl
  | monitorWorker c' id' now =>
    simp only [Act.entryAfter, Manager.entryAfter]
    split
    · rename_i hc
      split
      · rename_i hid
        have hearly : ¬ (now - since > timeout) := fun hlate => hkills ⟨hc.symm, hid.symm, hlate⟩
        rw [Option.map_some, decide_eq_false hearly]
        rfl
      · rfl
    · rfl
  | start | stop | send | handle | handleOrphan | answer | fail | receiveDead | boot => rfl

theorem Fresh.killed {since : Time} (h : d.Fresh c id since) {a : Act} (ha : a.Quiet c id)
    (hkills : a.Kills timeout c id since) :
    (d.step timeout a).1.Lost c id := by
  refine ⟨silent_step h.silent ha, ?_⟩
  rw [alive_eq, entry_step_silent h.silent ha.2, h.entry]
  cases a with
  | remove c' id' =>
    obtain ⟨rfl, rfl⟩ := hkills
    simp [Act.entryAfter, Manager.entryAfter]
  | monitorWorker c' id' now =>
    obtain ⟨rfl, rfl, hlate⟩ := hkills
    simp only [Act.entryAfter, Manager.entryAfter, if_true, Option.map_some, Option.any_some]
    rw [decide_eq_true hlate]
    rfl
  | start | stop | send | handle | handleOrphan | answer | fail | receiveDead | boot => cases hkills

theorem Lost.run (h : d.Lost c id) {acts : List Act} (hacts : ∀ a ∈ acts, a.Quiet c id) :
    ((deployment timeout).exec d acts).alive c id = false := by
  induction acts generalizing d with
  | nil => exact h.dead
  | cons a acts ih =>
    rw [List.forall_mem_cons] at hacts
    exact ih (h.step hacts.1) hacts.2

theorem Fresh.run {since : Time} (h : d.Fresh c id since) {acts : List Act} (hacts : ∀ a ∈ acts, a.Quiet c id) :
    ((deployment timeout).exec d acts).alive c id = true ↔ ∀ a ∈ acts, ¬ a.Kills timeout c id since := by
  induction acts generalizing d with
  | nil =>
    have halive : d.alive c id = true := by rw [alive_eq, h.entry]; rfl
    exact iff_of_true halive (List.forall_mem_nil _)
  | cons a acts ih =>
    rw [List.forall_mem_cons] at hacts ⊢
    rw [Machine.exec_cons]
    by_cases hkills : a.Kills timeout c id since
    · have hlost : ((deployment timeout).exec ((deployment timeout).step d a).1 acts).alive c id = false :=
        (h.killed hacts.1 hkills).run hacts.2
      rw [hlost]
      exact iff_of_false Bool.false_ne_true fun hall => hall.1 hkills
    · exact (ih (h.step hacts.1 hkills) hacts.2).trans (iff_and_self.2 fun _ => hkills)

theorem signals_run (h : Silent (speakers c id) d) {acts : List Act} (hacts : ∀ a ∈ acts, a.Quiet c id) :
    ((deployment timeout).trace d acts).count (c, .signal id) + (((deployment timeout).exec d acts).alive c id).toNat ≤
      (d.alive c id).toNat := by
  induction acts generalizing d with
  | nil => simp
  | cons a acts ih =>
    rw [List.forall_mem_cons] at hacts
    rw [Machine.trace_cons, Machine.exec_cons, List.count_append]
    have hstep : ((deployment timeout).step d a).2.count (c, .signal id) +
        (((deployment timeout).step d a).1.alive c id).toNat ≤
        (d.alive c id).toNat := signals_step h hacts.1.2
    have hsilent : Silent (speakers c id) ((deployment timeout).step d a).1 := silent_step h hacts.1
    have hrest := ih hsilent hacts.2
    omega

/-- An in-process worker is alive exactly until it is evicted, or `Monitor` looks at it for the first time at more
than the timeout after the boot, whatever it does itself. Its death is signalled at most once. -/
theorem inProcess_dies (timeout : Duration) {workerCount : Nat} (hid : 1 ≤ id ∧ id ≤ workerCount) (clock : Int → Time)
    (hsilent : Silent (speakers c id) d) {acts : List Act} (hacts : ∀ a ∈ acts, a.Quiet c id) :
    let M := deployment timeout
    let d' := (M.step d (.boot c workerCount clock)).1
    ((M.exec d' acts).alive c id = true ↔
        .remove c id ∉ acts ∧ ∀ now, .monitorWorker c id now ∈ acts → now - clock id ≤ timeout) ∧
      (M.trace d' acts).count (c, .signal id) ≤ 1 := by
  intro M d'
  have hfresh : d'.Fresh c id (clock id) := by
    refine ⟨⟨hsilent.processes, hsilent.orphans⟩, ?_⟩
    change (Function.update d.managers c (.boot workerCount clock) c).workers.lookup id = _
    rw [Function.update_self, Manager.lookup_boot, if_pos hid]
  refine ⟨(hfresh.run hacts).trans ⟨fun hkills => ⟨fun hmem => ?_, fun now hmem => ?_⟩, ?_⟩, ?_⟩
  · exact hkills _ hmem ⟨rfl, rfl⟩
  · exact Int.not_lt.1 fun hlate => hkills _ hmem ⟨rfl, rfl, hlate⟩
  · rintro ⟨hremove, hmonitor⟩ a ha hkills
    cases a with
    | remove c' id' =>
      obtain ⟨rfl, rfl⟩ := hkills
      exact hremove ha
    | monitorWorker c' id' now =>
      obtain ⟨rfl, rfl, hlate⟩ := hkills
      exact Int.not_lt.2 (hmonitor now ha) hlate
    | start | stop | send | handle | handleOrphan | answer | fail | receiveDead | boot => cases hkills
  · have hsignals : (M.trace d' acts).count (c, .signal id) + ((M.exec d' acts).alive c id).toNat ≤
        (d'.alive c id).toNat :=
      signals_run hfresh.silent hacts
    have hone := Bool.toNat_le (d'.alive c id)
    omega

end Deployment

/-- The one in-process worker of a control node, looked at in time and then too late, by a clock in seconds. -/
theorem inProcess_dies_once :
    let M := deployment 5
    let d := (M.step twoNodes (.boot 0 1 fun _ => 100)).1
    (M.exec d [.monitorWorker 0 1 103]).alive 0 1 = true ∧
      (M.exec d [.monitorWorker 0 1 103, .monitorWorker 0 1 106]).alive 0 1 = false ∧
      (M.trace d [.monitorWorker 0 1 103, .monitorWorker 0 1 106, .monitorWorker 0 1 109]).count (0, .signal 1)
        ≤ 1 := by
  have hquiet : ∀ acts : List Act, (∀ a ∈ acts, ∃ now, a = .monitorWorker 0 1 now) → ∀ a ∈ acts, a.Quiet 0 1 := by
    intro acts hacts a ha
    obtain ⟨now, rfl⟩ := hacts a ha
    exact ⟨id, fun _ _ h => by cases h⟩
  have hid : 1 ≤ (1 : Int) ∧ (1 : Int) ≤ (1 : Nat) := by decide
  have hsilent : Deployment.Silent (speakers 0 1) twoNodes := ⟨fun _ _ h => (by cases h), List.forall_mem_nil _⟩
  have hdies := fun acts hacts => Deployment.inProcess_dies 5 hid (fun _ => 100) hsilent (hquiet acts hacts)
  intro M d
  refine ⟨(hdies [_] (by simp)).1.2 ?_, Bool.eq_false_iff.2 fun halive => ?_, (hdies [_, _, _] (by simp)).2⟩
  · simp
  · have hlate := ((hdies [_, _] (by simp)).1.1 halive).2 106 (by simp)
    revert hlate
    decide

end Membership

end Quorum
