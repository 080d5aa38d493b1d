/-
The worker manager (`internal/workermanager/manager.go`) by itself: the table of workers, the channel of deaths and
the gauge of active workers. A death is signalled exactly if the channel has room for it at that moment, and the gauge
counts the workers that are alive exactly until one of them registers again. `Available` and the broker are those of
the control node in `Fleet`, whose table and channel are the ones of a manager.
-/
import Quorum.Rpc.Fleet

namespace Quorum

/-- `Manager`, with the net change of the gauge `metrics.ActiveWorkers` since it was made. -/
structure Manager where
  workers : GoMap Int WorkerInfo
  deadWorkers : Chan Int
  activeWorkers : Int

namespace Manager

/-- What goes into `DeadWorkers` and what is received from it. -/
inductive Event where
  | signal (id : Int)
  | received (id : Int)
  deriving DecidableEq, Repr

/-- The id of a signal that is put into the channel. -/
def Event.signalled : Event → Option Int
  | .signal id => some id
  | .received _ => none

/-- The id that is received. -/
def Event.taken : Event → Option Int
  | .signal _ => none
  | .received id => some id

/-- `NewManager`. -/
def new : Manager := ⟨∅, .make Fleet.deadWorkersBufSize, 0⟩

/-- The worker is registered and marked alive. -/
def alive (m : Manager) (id : Int) : Bool := (m.workers.lookup id).any (·.alive)

/-- The worker is registered and not marked alive. -/
def dead (m : Manager) (id : Int) : Bool := (m.workers.lookup id).any (!·.alive)

def register (m : Manager) (id : Int) (topics : List String) (now : Time) : Manager :=
  { m with
    workers := m.workers.insert id { lastHeartbeat := now, alive := true, topics := topics }
    activeWorkers := m.activeWorkers + 1 }

def remove (m : Manager) (id : Int) : Manager :=
  match m.workers.lookup id with
  | none => m
  | some info =>
    { m with
      workers := m.workers.erase id
      activeWorkers := if info.alive then m.activeWorkers - 1 else m.activeWorkers }

def heartbeat (m : Manager) (id : Int) (now : Time) : Manager :=
  match m.workers.lookup id with
  | none => m
  | some info =>
    { m with
      workers := m.workers.insert id { info with lastHeartbeat := now, alive := true }
      activeWorkers := if info.alive then m.activeWorkers else m.activeWorkers + 1 }

/-- One worker in the loop of `Monitor`. -/
def monitorWorker (timeout : Duration) (now : Time) (m : Manager) (id : Int) : Manager × List Event :=
  match m.workers.lookup id with
  | none => (m, [])
  | some info =>
    if now - info.lastHeartbeat > timeout then
      if info.alive then
        ({ workers := m.workers.insert id { info with alive := false }
           -- into a full channel the signal is dropped
           deadWorkers := m.deadWorkers.trySend id
           activeWorkers := m.activeWorkers - 1 },
          if m.deadWorkers.buf.length < m.deadWorkers.cap then [.signal id] else [])
      else (m, [])
    else (m, [])

/-- `List`, a client by its id. -/
def list (m : Manager) (ord : RangeOrder Int) : List Int := (ord.order m.workers.keys).filter m.alive

/-- A receive from `DeadWorkers`; from an empty channel it is waiting. -/
def receive (m : Manager) : Manager × List Event :=
  match m.deadWorkers.tryRecv with
  | none => (m, [])
  | some (id, ch) => ({ m with deadWorkers := ch }, [.received id])

/-- A tick of `Monitor` is taken worker by worker: the clock is read for each of them, and `DeadWorkers` may be
received from in between. -/
inductive Act where
  | register (id : Int) (topics : List String) (now : Time)
  | remove (id : Int)
  | heartbeat (id : Int) (now : Time)
  | monitorWorker (id : Int) (now : Time)
  | receive

def step (timeout : Duration) (m : Manager) : Act → Manager × List Event
  | .register id topics now => (m.register id topics now, [])
  | .remove id => (m.remove id, [])
  | .heartbeat id now => (m.heartbeat id now, [])
  | .monitorWorker id now => m.monitorWorker timeout now id
  | .receive => m.receive

/-- A tick of `Monitor`; the clock is read for each worker. -/
def monitor (timeout : Duration) (clock : Int → Time) (ord : RangeOrder Int) (m : Manager) : Manager :=
  (ord.order m.workers.keys).foldl (fun m id => (m.monitorWorker timeout (clock id) id).1) m

end Manager

def manager (timeout : Duration) : Machine Manager Manager.Act Manager.Event := ⟨Manager.step timeout⟩

namespace Manager

variable {timeout : Duration} {m : Manager}

theorem monitor_steps (timeout : Duration) (clock : Int → Time) (ord : RangeOrder Int) (m : Manager) :
    m.monitor timeout clock ord =
      (manager timeout).exec m ((ord.order m.workers.keys).map fun id => .monitorWorker id (clock id)) := by
  unfold monitor Machine.exec
  rw [List.foldl_map]
  rfl

/-! ## One step -/

/-- A worker that times out: alive, and its last heartbeat longer ago than the timeout. -/
def TimesOut (timeout : Duration) (now : Time) (m : Manager) (id : Int) : Prop :=
  ∃ info, m.workers.lookup id = some info ∧ info.alive = true ∧ now - info.lastHeartbeat > timeout

/-- What a step may be. -/
inductive Outcome (timeout : Duration) (m : Manager) : Act → Manager × List Event → Prop where
  /-- The worker is not known or has not timed out, or there is nothing to receive. -/
  | idle {a : Act} (hnew : ∀ id topics now, a ≠ .register id topics now)
      (hnone : ∀ id now, a = .monitorWorker id now → ¬ m.TimesOut timeout now id) : Outcome timeout m a (m, [])
  | registered (id : Int) (topics : List String) (now : Time) :
      Outcome timeout m (.register id topics now) (m.register id topics now, [])
  | removed {id : Int} {info : WorkerInfo} (hinfo : m.workers.lookup id = some info) :
      Outcome timeout m (.remove id)
        ({ m with
          workers := m.workers.erase id
          activeWorkers := if info.alive then m.activeWorkers - 1 else m.activeWorkers }, [])
  | beat {id : Int} {info : WorkerInfo} (now : Time) (hinfo : m.workers.lookup id = some info) :
      Outcome timeout m (.heartbeat id now)
        ({ m with
            workers := m.workers.insert id { info with lastHeartbeat := now, alive := true }
            activeWorkers := if info.alive then m.activeWorkers else m.activeWorkers + 1 }, [])
  | died {id : Int} {now : Time} {info : WorkerInfo} (hinfo : m.workers.lookup id = some info)
      (halive : info.alive = true)
      (hlate : now - info.lastHeartbeat > timeout) :
      Outcome timeout m (.monitorWorker id now)
        (⟨m.workers.insert id { info with alive := false }, m.deadWorkers.trySend id, m.activeWorkers - 1⟩,
          if m.deadWorkers.buf.length < m.deadWorkers.cap then [.signal id] else [])
  | received {id : Int} {ch : Chan Int} (hrecv : m.deadWorkers.tryRecv = some (id, ch)) :
      Outcome timeout m .receive ({ m with deadWorkers := ch }, [.received id])

theorem monitorWorker_outcome (timeout : Duration) (m : Manager) (id : Int) (now : Time) :
    Outcome timeout m (.monitorWorker id now) (m.monitorWorker timeout now id) := by
  have hidle : ¬ m.TimesOut timeout now id → Outcome timeout m (.monitorWorker id now) (m, []) := by
    intro hnot
    refine .idle (fun _ _ _ h => by cases h) fun id' now' h => ?_
    cases h
    exact hnot
  unfold monitorWorker
  cases hinfo : m.workers.lookup id with
  | none =>
    refine hidle ?_
    rintro ⟨info, h, -⟩
    rw [hinfo] at h
    cases h
  | some info =>
    dsimp only
    split
    · rename_i hlate
      split
      · rename_i halive
        exact .died hinfo halive hlate
      · rename_i hdead
        refine hidle ?_
        rintro ⟨info', h, halive, -⟩
        cases hinfo.symm.trans h
        exact hdead halive
    · rename_i hearly
      refine hidle ?_
      rintro ⟨info', h, -, hlate⟩
      cases hinfo.symm.trans h
      exact hearly hlate

theorem step_outcome (timeout : Duration) (m : Manager) (a : Act) : Outcome timeout m a (step timeout m a) := by
  cases a with
  | register id topics now => exact .registered id topics now
  | remove id =>
    simp only [step, remove]
    split
    · exact .idle (fun _ _ _ h => by cases h) (fun _ _ h => by cases h)
    · rename_i hinfo
      exact .removed hinfo
  | heartbeat id now =>
    simp only [step, heartbeat]
    split
    · exact .idle (fun _ _ _ h => by cases h) (fun _ _ h => by cases h)
    · rename_i hinfo
      exact .beat now hinfo
  | monitorWorker id now => exact monitorWorker_outcome timeout m id now
  | receive =>
    simp only [step, receive]
    split
    · exact .idle (fun _ _ _ h => by cases h) (fun _ _ h => by cases h)
    · rename_i hrecv
      exact .received hrecv

/-! ## Deaths -/

/-- The step takes a registered worker from alive to dead. -/
def Dies (timeout : Duration) (m : Manager) (a : Act) (id : Int) : Prop :=
  m.alive id = true ∧ (step timeout m a).1.dead id = true

instance (timeout : Duration) (m : Manager) (a : Act) (id : Int) : Decidable (m.Dies timeout a id) :=
  inferInstanceAs (Decidable (_ ∧ _))

theorem not_dead_of_alive {id : Int} (h : m.alive id = true) : m.dead id = false := by
  unfold alive at h
  unfold dead
  cases hinfo : m.workers.lookup id with
  | none => rfl
  | some info =>
    rw [hinfo, Option.any_some] at h
    rw [Option.any_some, h]
    rfl

theorem dead_of_insert {m' : Manager} {k : Int} {info : WorkerInfo} (h : m'.workers = m.workers.insert k info)
    (id : Int) :
    m'.dead id = if id = k then !info.alive else m.dead id := by
  unfold dead
  rw [h, GoMap.lookup_insert_ite]
  split <;> rfl

theorem dead_of_erase {m' : Manager} {k : Int} (h : m'.workers = m.workers.erase k) (id : Int) :
    m'.dead id = if id = k then false else m.dead id := by
  unfold dead
  rw [h, GoMap.lookup_erase_ite]
  split <;> rfl

/-- A worker dies in a tick of `Monitor` that finds it timed out, and nowhere else. -/
theorem dies_iff {a : Act} {id : Int} : m.Dies timeout a id ↔
    ∃ now, a = .monitorWorker id now ∧ m.TimesOut timeout now id := by
  unfold Dies
  constructor
  · rintro ⟨halive, hdead⟩
    have hbefore := not_dead_of_alive halive
    have hstep := step_outcome timeout m a
    generalize step timeout m a = p at hstep hdead
    cases hstep with
    | idle | received => exact absurd (hbefore.symm.trans hdead) Bool.false_ne_true
    | registered k topics now =>
      rw [dead_of_insert (m := m) rfl, hbefore] at hdead
      split at hdead <;> cases hdead
    | removed hinfo =>
      rw [dead_of_erase (m := m) rfl, hbefore] at hdead
      split at hdead <;> cases hdead
    | beat now hinfo =>
      rw [dead_of_insert (m := m) rfl, hbefore] at hdead
      split at hdead <;> cases hdead
    | died hinfo hal hlate =>
      rw [dead_of_insert (m := m) rfl, hbefore] at hdead
      split at hdead
      · rename_i hid
        subst hid
        exact ⟨_, rfl, _, hinfo, hal, hlate⟩
      · cases hdead
  · rintro ⟨now, rfl, info, hinfo, halive, hlate⟩
    refine ⟨?_, ?_⟩
    · unfold alive
      rw [hinfo]
      exact halive
    · have hstep := step_outcome timeout m (.monitorWorker id now)
      generalize step timeout m (.monitorWorker id now) = p at hstep
      cases hstep with
      | idle hnew hnone => exact absurd ⟨info, hinfo, halive, hlate⟩ (hnone id now rfl)
      | died hinfo' hal' hlate' =>
        rw [dead_of_insert (m := m) rfl, if_pos rfl]
        rfl

/-! ## Signals -/

/-- A step signals the workers that die in it, when the channel has room, and no others. -/
theorem step_signals (a : Act) (id : Int) :
    (step timeout m a).2.count (.signal id) =
      if m.Dies timeout a id ∧ m.deadWorkers.buf.length < m.deadWorkers.cap then 1 else 0 := by
  have hdies : m.Dies timeout a id ↔ ∃ now, a = .monitorWorker id now ∧ m.TimesOut timeout now id := dies_iff
  have hstep := step_outcome timeout m a
  generalize step timeout m a = p at hstep
  cases hstep with
  | idle hnew hnone =>
    refine (if_neg ?_).symm
    rintro ⟨hd, -⟩
    obtain ⟨now, ha, htimes⟩ := hdies.1 hd
    exact hnone id now ha htimes
  | registered | removed | beat | received =>
    refine (if_neg ?_).symm
    rintro ⟨hd, -⟩
    obtain ⟨now, ha, -⟩ := hdies.1 hd
    cases ha
  | @died k now info hinfo halive hlate =>
    dsimp only
    by_cases hroom : m.deadWorkers.buf.length < m.deadWorkers.cap
    · rw [if_pos hroom]
      by_cases hid : id = k
      · subst hid
        have hd := hdies.2 ⟨now, rfl, info, hinfo, halive, hlate⟩
        rw [if_pos ⟨hd, hroom⟩]
        exact List.count_singleton_self
      · have hnot : ¬ m.Dies timeout (.monitorWorker k now) id := by
          intro hd
          obtain ⟨now', ha, -⟩ := hdies.1 hd
          cases ha
          exact hid rfl
        rw [if_neg fun h => hnot h.1]
        refine List.count_eq_zero.2 fun hmem => ?_
        cases List.mem_singleton.1 hmem
        exact hid rfl
    · rw [if_neg hroom, if_neg fun h => hroom h.2]
      rfl

theorem step_cap (a : Act) : (step timeout m a).1.deadWorkers.cap = m.deadWorkers.cap := by
  have hstep := step_outcome timeout m a
  generalize step timeout m a = p at hstep
  cases hstep with
  | idle | registered | removed | beat => rfl
  | died => exact Chan.cap_trySend ..
  | received hrecv => exact Chan.tryRecv_cap hrecv

/-- Throughout a run each worker that goes from alive to dead is signalled once in that step, and no other worker is
signalled, exactly if the channel has room whenever a worker dies. -/
theorem signalled_once_iff (timeout : Duration) (acts : List Act) :
    (manager timeout).EveryStep
        (fun _ m a =>
          ∀ id, ((manager timeout).step m a).2.count (.signal id) = if m.Dies timeout a id then 1 else 0) .new acts ↔
      (manager timeout).EveryStep
        (fun _ m a => ∀ id, m.Dies timeout a id → m.deadWorkers.buf.length < Fleet.deadWorkersBufSize) .new acts := by
  have hcap : ∀ is, ((manager timeout).exec .new is).deadWorkers.cap = Fleet.deadWorkersBufSize :=
    Machine.exec_inv (P := fun m : Manager => m.deadWorkers.cap = Fleet.deadWorkersBufSize) rfl fun m a h =>
      (step_cap a).trans h
  refine forall₄_congr fun pre a post _ => forall_congr' fun id => ?_
  show List.count _ (step timeout _ a).2 = _ ↔ _
  rw [step_signals, hcap]
  by_cases hdies : ((manager timeout).exec .new pre).Dies timeout a id
  · simp only [hdies, true_and, if_true, forall_const]
    constructor
    · intro h
      by_contra hroom
      rw [if_neg hroom] at h
      cases h
    · exact fun hroom => if_pos hroom
  · simp only [hdies, false_and, if_false, false_imp_iff]

/-- A hundred and one workers time out before one signal is received: the last one is marked dead and never
signalled. -/
theorem hundredFirst_dropped :
    let workers : List Int := (List.range 100).map Nat.cast
    let full := (manager (15 * second)).exec .new
      ((workers ++ [100]).map (.register · [] 0) ++ workers.map (.monitorWorker · (16 * second)))
    full.Dies (15 * second) (.monitorWorker 100 (16 * second)) 100 ∧
      ((manager (15 * second)).step full (.monitorWorker 100 (16 * second))).2 = [] := by
  decide +kernel

/-- What a step puts into the channel goes behind what waits there; what it receives was the first of it. -/
theorem step_deadWorkers (a : Act) :
    m.deadWorkers.buf ++ (step timeout m a).2.filterMap Event.signalled =
      (step timeout m a).2.filterMap Event.taken ++ (step timeout m a).1.deadWorkers.buf := by
  have hstep := step_outcome timeout m a
  generalize step timeout m a = p at hstep
  cases hstep with
  | idle | registered | removed | beat => exact List.append_nil _
  | died =>
    dsimp only
    rw [Chan.buf_trySend]
    split
    · rfl
    · exact List.append_nil _
  | received hrecv =>
    rw [Chan.tryRecv_eq_some hrecv]
    exact List.append_nil _

/-- The signals of a run, in order: those received and, behind them, those that wait in the channel. -/
theorem signals_eq_received_append_waiting (timeout : Duration) (acts : List Act) :
    ((manager timeout).trace .new acts).filterMap Event.signalled =
      ((manager timeout).trace .new acts).filterMap Event.taken ++
        ((manager timeout).exec .new acts).deadWorkers.buf := by
  refine Machine.EveryStep.inv (M := manager timeout) (C := fun _ _ _ => True)
    (P := fun tr m => tr.filterMap Event.signalled = tr.filterMap Event.taken ++ m.deadWorkers.buf)
    rfl ?_ fun _ _ _ _ => trivial
  intro tr m a htr _
  rw [List.filterMap_append, List.filterMap_append, htr, List.append_assoc, List.append_assoc]
  exact congrArg _ (step_deadWorkers a)

/-! ## The gauge -/

/-- By how much the gauge is above the number of workers marked alive. -/
def excess (m : Manager) : Int := m.activeWorkers - GoMap.countP (·.alive) m.workers

/-- The step registers a worker that is marked alive. -/
def reregisters (m : Manager) : Act → Bool
  | .register id _ _ => m.alive id
  | _ => false

theorem length_list (m : Manager) (ord : RangeOrder Int) : (m.list ord).length = GoMap.countP (·.alive) m.workers :=
  GoMap.length_filter_order ord _ m.workers

/-! The gauge is changed by whether the worker was alive and whether it is so afterwards. -/

theorem gauge_removed (alive : Bool) (n : Int) : (if alive then n - 1 else n) + alive.toNat = n := by
  cases alive with
  | true => exact Int.sub_add_cancel n 1
  | false => exact Int.add_zero n

theorem gauge_beat (alive : Bool) (n : Int) : (if alive then n else n + 1) + alive.toNat = n + 1 := by
  cases alive with
  | true => rfl
  | false => exact Int.add_zero (n + 1)

/-- Every call keeps the excess, but for the registration of a worker that is alive, which raises it by one. -/
theorem step_excess (a : Act) : (step timeout m a).1.excess = m.excess + (m.reregisters a).toNat := by
  have hstep := step_outcome timeout m a
  generalize step timeout m a = p at hstep
  cases hstep with
  | idle hnew =>
    have hnone : m.reregisters a = false := by
      cases a with
      | register id topics now => exact absurd rfl (hnew id topics now)
      | remove | heartbeat | monitorWorker | receive => rfl
    rw [hnone]
    exact (Int.add_zero _).symm
  | received => exact (Int.add_zero _).symm
  | registered id topics now =>
    have hcount := GoMap.countP_insert (·.alive) m.workers id { lastHeartbeat := now, alive := true, topics := topics }
    rw [Bool.toNat_true] at hcount
    unfold excess register reregisters alive
    dsimp only
    omega
  | @removed id info hinfo =>
    have hcount := GoMap.countP_erase (·.alive) m.workers id
    rw [hinfo, Option.any_some] at hcount
    have hgauge := gauge_removed info.alive m.activeWorkers
    unfold excess reregisters
    dsimp only
    rw [Bool.toNat_false]
    omega
  | @beat id info now hinfo =>
    have hcount := GoMap.countP_insert (·.alive) m.workers id { info with lastHeartbeat := now, alive := true }
    rw [hinfo, Option.any_some, Bool.toNat_true] at hcount
    have hgauge := gauge_beat info.alive m.activeWorkers
    unfold excess reregisters
    dsimp only
    rw [Bool.toNat_false]
    omega
  | @died id now info hinfo halive =>
    have hcount := GoMap.countP_insert (·.alive) m.workers id { info with alive := false }
    rw [hinfo, Option.any_some, halive, Bool.toNat_true, Bool.toNat_false] at hcount
    unfold excess reregisters
    dsimp only
    rw [Bool.toNat_false]
    omega

/-- The gauge never shows fewer workers than are alive, and its excess never goes down again. -/
theorem excess_le_exec (timeout : Duration) (m : Manager) (acts : List Act) :
    m.excess ≤ ((manager timeout).exec m acts).excess := by
  refine Machine.exec_inv (P := fun m' : Manager => m.excess ≤ m'.excess) (Int.le_refl _) (fun m' a h => ?_) acts
  have hstep : (step timeout m' a).1.excess = m'.excess + (m'.reregisters a).toNat := step_excess a
  show m.excess ≤ (step timeout m' a).1.excess
  omega

/-- Throughout a run from an empty manager the gauge is the length of `List` exactly if no worker registers while it
is registered and alive. -/
theorem activeWorkers_eq_list_iff (timeout : Duration) (acts : List Act) :
    (∀ pre, pre <+: acts → ∀ ord : RangeOrder Int,
        ((manager timeout).exec .new pre).activeWorkers = (((manager timeout).exec .new pre).list ord).length) ↔
      (manager timeout).EveryStep
        (fun _ m a => ∀ id topics now, a = .register id topics now → m.alive id = false) .new acts := by
  have hexcess : ∀ m : Manager, (∀ ord : RangeOrder Int, m.activeWorkers = (m.list ord).length) ↔ m.excess = 0 := by
    intro m
    unfold excess
    constructor
    · intro h
      have hstored := h .stored
      rw [length_list] at hstored
      omega
    · intro h ord
      rw [length_list]
      omega
  have hcond : ∀ (m : Manager) (a : Act), m.reregisters a = false ↔
      ∀ id topics now, a = .register id topics now → m.alive id = false := by
    intro m a
    constructor
    · rintro h id topics now rfl
      exact h
    · intro h
      cases a with
      | register id topics now => exact h id topics now rfl
      | remove | heartbeat | monitorWorker | receive => rfl
  simp only [hexcess, ← hcond]
  refine Machine.everyPrefix_iff (M := manager timeout) (P := fun m => m.excess = 0) (Q := fun _ => True)
    (C := fun m a => m.reregisters a = false) trivial rfl (fun _ _ _ => trivial) (fun m a _ hm => ?_) acts
  show (step timeout m a).1.excess = 0 ↔ _
  rw [step_excess, hm]
  cases m.reregisters a <;> decide

/-- A worker that is restarted before it has timed out is counted twice from then on. -/
theorem restarted_counted_twice :
    let m := (manager (15 * second)).exec .new [.register 7 [] 0, .register 7 [] second]
    m.activeWorkers = 2 ∧ m.list .stored = [7] := by
  decide +kernel

/-! ## The manager of the control node -/

section
variable {σ : Type} [Store σ]

/-- The manager has the table and the channel of the control node. -/
structure Shows (m : Manager) (s : Fleet σ) : Prop where
  workers : m.workers = s.workers
  deadWorkers : m.deadWorkers = s.deadWorkers

omit [Store σ] in
theorem shows_remove {s : Fleet σ} (h : m.Shows s) (id : Int) : (m.remove id).Shows (s.remove id) := by
  unfold remove
  cases hinfo : m.workers.lookup id with
  | none =>
    refine ⟨?_, h.deadWorkers⟩
    have habsent : id ∉ m.workers := AList.lookup_eq_none.1 hinfo
    have herase : m.workers.erase id = m.workers := AList.ext (List.kerase_of_notMem_keys habsent)
    rw [← herase, h.workers]
    rfl
  | some info => exact ⟨congrArg (AList.erase id) h.workers, h.deadWorkers⟩

omit [Store σ] in
theorem shows_heartbeat {s : Fleet σ} (h : m.Shows s) (id : Int) (now : Time) :
    (m.heartbeat id now).Shows (s.heartbeat id now) := by
  unfold heartbeat Fleet.heartbeat
  rw [h.workers]
  cases s.workers.lookup id with
  | none => exact h
  | some info => exact ⟨rfl, h.deadWorkers⟩

omit [Store σ] in
theorem shows_monitorWorker {s : Fleet σ} (h : m.Shows s) (now : Time) (id : Int) :
    (m.monitorWorker timeout now id).1.Shows (s.monitorWorker timeout now id) := by
  unfold Fleet.monitorWorker Fleet.timesOut
  have hstep := monitorWorker_outcome timeout m id now
  generalize m.monitorWorker timeout now id = p at hstep
  cases hstep with
  | idle hnew hnone =>
    cases hinfo : s.workers.lookup id with
    | none => exact h
    | some info =>
      dsimp only
      rw [if_neg]
      · exact h
      · intro htimes
        rw [Option.any_some, Bool.and_eq_true, decide_eq_true_eq] at htimes
        exact hnone id now rfl ⟨info, h.workers ▸ hinfo, htimes.1, htimes.2⟩
  | died hinfo halive hlate =>
    rw [← h.workers, ← h.deadWorkers, hinfo]
    dsimp only
    rw [if_pos]
    · exact ⟨rfl, rfl⟩
    · rw [Option.any_some, Bool.and_eq_true, decide_eq_true_eq]
      exact ⟨halive, hlate⟩

/-- What a step of the control node does to the table and the channel is a call of the manager, or nothing. -/
theorem Shows.step {s : Fleet σ} (h : m.Shows s) (a : Fleet.Act) :
    ∃ calls, ((manager timeout).exec m calls).Shows (s.step timeout a).1 := by
  cases a with
  | registerWorker id topics dialed now =>
    cases dialed with
    | false => exact ⟨[], h⟩
    | true => exact ⟨[.register id topics now], ⟨congrArg (AList.insert id _) h.workers, h.deadWorkers⟩⟩
  | remove id => exact ⟨[.remove id], shows_remove h id⟩
  | heartbeat id now => exact ⟨[.heartbeat id now], shows_heartbeat h id now⟩
  | monitorWorker id now => exact ⟨[.monitorWorker id now], shows_monitorWorker h now id⟩
  | dispatchLoop now submit => exact ⟨[], ⟨h.workers, h.deadWorkers⟩⟩
  | reportResult workerID r ctxDone =>
    refine ⟨[], ⟨h.workers.trans (s.reportResult_frame workerID r ctxDone).2.1.symm, h.deadWorkers.trans ?_⟩⟩
    simp only [Fleet.step, Fleet.reportResult]
    split
    · split <;> rfl
    · rfl
  | executionLost workerID jobID => exact ⟨[], h⟩
  | resultLoop now =>
    refine ⟨[], ?_⟩
    simp only [Fleet.step]
    split
    · exact h
    · exact ⟨h.workers, h.deadWorkers⟩
  | receiveDead =>
    simp only [Fleet.step]
    split
    · rename_i hrecv
      refine ⟨[.receive], ?_⟩
      show m.receive.1.Shows _
      unfold receive
      rw [h.deadWorkers, hrecv]
      exact ⟨h.workers, rfl⟩
    · exact ⟨[], h⟩
  | recover ord =>
    refine ⟨[], ?_⟩
    simp only [Fleet.step]
    split
    · exact h
    · exact ⟨h.workers, h.deadWorkers⟩
  | jobCall raft c => exact ⟨[], ⟨h.workers, h.deadWorkers⟩⟩

/-- The table and the channel of the control node are at every moment those of a manager after some calls. -/
theorem fleet_shows (timeout : Duration) (st : σ) (resultBuffer : Nat) (acts : List Fleet.Act) :
    ∃ calls, ((manager timeout).exec .new calls).Shows ((fleet timeout).exec (Fleet.start st resultBuffer) acts) := by
  refine Machine.exec_inv (M := fleet timeout)
    (P := fun s => ∃ calls, ((manager timeout).exec .new calls).Shows s) ⟨[], rfl, rfl⟩ ?_ acts
  rintro s a ⟨calls, h⟩
  obtain ⟨more, hmore⟩ : ∃ more, ((manager timeout).exec _ more).Shows (s.step timeout a).1 := h.step a
  refine ⟨calls ++ more, ?_⟩
  rw [Machine.exec_append]
  exact hmore

end

end Manager

end Quorum
