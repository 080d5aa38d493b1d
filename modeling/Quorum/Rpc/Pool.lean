/-
The workers of a control node and the channel `Available` (`internal/workermanager`, `internal/worker/worker.go`,
`internal/broker`, `internal/rpc/server`). A worker that can take a job stands in the channel; `Dispatch` takes it
out, an in-process worker comes back by `Available <- w` at the head of its loop, a remote one when its result
is reported. The steps of the dispatcher, of the goroutines and of the RPC handlers interleave freely; the store, the
queues and the leases, which do not touch the channel, are left out.
-/
import Quorum.Lib.Machine
import Quorum.Rpc.Report

namespace Quorum

/-- A `WorkerClient` with what it stands for: a `Worker` or a `RemoteWorker`. -/
inductive Client where
  | inProcess (id : Int)
  | remote (id : Int)
  deriving DecidableEq, Repr

namespace Client

def id : Client → Int
  | .inProcess id | .remote id => id

def toWorkerClient (c : Client) : WorkerClient := ⟨c.id⟩

end Client

/-- Where the goroutine of an in-process worker is in `Worker.Start`. -/
inductive Goroutine where
  /-- At the outer `select`, sending itself to `Available`. -/
  | advertising
  /-- Between the two `select`s. -/
  | advertised
  /-- At the inner `select`, receiving from `JobChannel`. -/
  | receiving
  | executing (j : Job)

/-- A worker node: the jobs it executes, its own result channel, and the result its forwarder is reporting. -/
structure WorkerNode where
  executing : List Job
  results : Chan Result
  reporting : Option Result

/-- Where `dispatchLoop` is in `Dispatch`, with the workers it has taken out of the channel. -/
inductive Dispatcher where
  | idle
  /-- In the loop of `SelectWorker`, with the number of rounds left. -/
  | selecting (j : Job) (rounds : Nat) (skipped : List Client)
  /-- At the end of `SelectWorker`: the skipped workers go back one by one. -/
  | puttingBack (j : Job) (skipped : List Client) (found : Option Client)
  | submitting (j : Job) (w : Client)

def Dispatcher.hand : Dispatcher → List Client
  | .idle => []
  | .selecting _ _ skipped => skipped
  | .puttingBack _ skipped found => skipped ++ found.toList
  | .submitting _ w => [w]

/-- How a `SubmitJob` RPC ends: the worker node accepts, or the call fails, before or after the node has received it. -/
inductive RpcOutcome where
  | accepted
  | failed (received : Bool) (err : String)

namespace RpcOutcome

def received : RpcOutcome → Bool
  | .accepted => true
  | .failed received _ => received

def error : RpcOutcome → Option String
  | .accepted => none
  | .failed _ err => some err

end RpcOutcome

/-- What a call of `Submit` meets: an in-process worker may take the `ctx.Done` branch, a remote one makes an RPC. -/
structure SubmitCall where
  ctxDone : Bool
  rpc : RpcOutcome

structure Pool where
  workers : GoMap Int Client
  broker : Broker
  available : Chan Client
  goroutine : Int → Option Goroutine
  node : Int → WorkerNode
  dispatcher : Dispatcher

namespace Pool

/-! ## The calls -/

/-- `Manager.Register`. -/
def register (s : Pool) (w : Client) (topics : List String) : Pool :=
  { s with workers := s.workers.insert w.id w, broker := s.broker.registerWorker w.id topics }

/-- `Manager.MakeAvailable`. -/
def makeAvailable (s : Pool) (w : Client) : Pool := { s with available := s.available.trySend w }

/-- `Manager.Remove`. -/
def remove (s : Pool) (id : Int) : Pool :=
  { s with workers := s.workers.erase id, broker := s.broker.unregisterWorker id }

def setGoroutine (s : Pool) (id : Int) (g : Goroutine) : Pool :=
  { s with goroutine := Function.update s.goroutine id (some g) }

def setNode (s : Pool) (id : Int) (n : WorkerNode) : Pool := { s with node := Function.update s.node id n }

/-- `WorkerServer.RegisterWorker`; without a connection to the worker nothing is registered. -/
def registerWorker (s : Pool) (id : Int) (topics : List String) (dialed : Bool) : Pool :=
  if dialed then (s.register (.remote id) topics).makeAvailable (.remote id) else s

/-- `Dispatch` up to the loop of `SelectWorker`. -/
def dispatch (s : Pool) (j : Job) : Pool :=
  match s.dispatcher with
  | .idle =>
    let n := s.available.buf.length
    if n = 0 then s else { s with dispatcher := .selecting j n [] }
  | _ => s

/-- The next channel operation of `SelectWorker`. -/
def selectNext (s : Pool) : Pool :=
  match s.dispatcher with
  | .selecting j 0 skipped => { s with dispatcher := .puttingBack j skipped none }
  | .selecting j (n + 1) skipped =>
    match s.available.tryRecv with
    | none => { s with dispatcher := .puttingBack j skipped none }
    | some (w, ch) =>
      if s.broker.canHandle w.id j.type then { s with available := ch, dispatcher := .puttingBack j skipped (some w) }
      else { s with available := ch, dispatcher := .selecting j n (skipped ++ [w]) }
  | .puttingBack j (w :: skipped) found => { s.makeAvailable w with dispatcher := .puttingBack j skipped found }
  | .puttingBack j [] (some w) => { s with dispatcher := .submitting j w }
  | .puttingBack _ [] none => { s with dispatcher := .idle }
  | .idle | .submitting _ _ => s

/-- `Worker.Submit` and `RemoteWorker.Submit`: the send to the unbuffered `JobChannel` goes through only to a goroutine
that is receiving; a request that was received is executed even if its answer is lost. -/
def submit (s : Pool) (call : SubmitCall) (w : Client) (j : Job) : Pool × Option String :=
  match w with
  | .inProcess id =>
    if call.ctxDone then (s, some "context canceled")
    else
      match s.goroutine id with
      | some .receiving => (s.setGoroutine id (.executing j), none)
      | _ => (s, some "worker is busy")
  | .remote id =>
    let n := s.node id
    let received := Rpc.receivedJob (Rpc.submitRequest w.toWorkerClient j).decoded
    (if call.rpc.received then s.setNode id { n with executing := n.executing ++ [received] } else s, call.rpc.error)

/-- `ReportResult` after the result has been sent to the scheduler. -/
def requeue (s : Pool) (id : Int) : Pool :=
  match s.workers.lookup id with
  | some w => s.makeAvailable w
  | none => s

/-! ## The steps -/

inductive Act where
  | registerWorker (id : Int) (topics : List String) (dialed : Bool)
  | remove (id : Int)
  | dispatch (j : Job)
  | selectNext
  | submit (call : SubmitCall)
  | advertise (id : Int)
  | receive (id : Int)
  /-- The runner of an in-process worker returns. -/
  | finish (id : Int)
  /-- A runner on a worker node returns. -/
  | nodeFinish (id : Int) (i : Nat) (err : Option ExecError)
  /-- The forwarder of a worker node takes the next result and calls `ReportResult`. -/
  | forward (id : Int)
  /-- The call ends: the result has been handed to the scheduler, or the context was done or the connection lost. -/
  | reportResult (id : Int) (delivered : Bool)

/-- What can be seen: how a call of `Submit` ended, and the results that reach the scheduler. -/
inductive Event where
  | submitted (w : Client) (j : Job) (err : Option String)
  | result (r : Result)

def step (s : Pool) : Act → Pool × List Event
  | .registerWorker id topics dialed => (s.registerWorker id topics dialed, [])
  | .remove id => (s.remove id, [])
  | .dispatch j => (s.dispatch j, [])
  | .selectNext => (s.selectNext, [])
  | .submit call =>
    match s.dispatcher with
    | .submitting j w =>
      ({ (s.submit call w j).1 with dispatcher := .idle }, [.submitted w j (s.submit call w j).2])
    | _ => (s, [])
  | .advertise id =>
    match s.goroutine id with
    | some .advertising =>
      -- the send blocks while the channel is full
      if s.available.buf.length < s.available.cap then
        ((s.makeAvailable (.inProcess id)).setGoroutine id .advertised, [])
      else (s, [])
    | _ => (s, [])
  | .receive id =>
    match s.goroutine id with
    | some .advertised => (s.setGoroutine id .receiving, [])
    | _ => (s, [])
  | .finish id =>
    match s.goroutine id with
    | some (.executing _) => (s.setGoroutine id .advertising, [])
    | _ => (s, [])
  | .nodeFinish id i err =>
    let n := s.node id
    match n.executing[i]? with
    | some j =>
      (s.setNode id { n with executing := n.executing.eraseIdx i, results := n.results.trySend (Runner.result j err) },
        [])
    | none => (s, [])
  | .forward id =>
    let n := s.node id
    match n.reporting, n.results.tryRecv with
    | none, some (r, ch) => (s.setNode id { n with results := ch, reporting := some r }, [])
    | _, _ => (s, [])
  | .reportResult id delivered =>
    let n := s.node id
    match n.reporting with
    | some r =>
      let s := s.setNode id { n with reporting := none }
      if delivered then (s.requeue id, [.result (Rpc.reportedResult (Rpc.reportRequest ⟨id⟩ r).decoded)]) else (s, [])
    | none => (s, [])

end Pool

def pool : Machine Pool Pool.Act Pool.Event := ⟨Pool.step⟩

namespace Pool

/-- `Manager` without workers; every worker node has a result channel of its own size. -/
def empty (buffer : Int → Nat) : Pool :=
  { workers := ∅, broker := .new, available := .make 100, goroutine := fun _ => none
    node := fun id => ⟨[], .make (buffer id), none⟩, dispatcher := .idle }

/-- The control node after `Start`, with `workerCount` in-process workers. -/
def start (workerCount : Nat) (buffer : Int → Nat) : Pool :=
  { (List.range workerCount).foldl (fun s i => s.register (.inProcess (i + 1)) ["*"]) (empty buffer) with
    goroutine := fun id => if 1 ≤ id ∧ id ≤ workerCount then some .advertising else none }

/-! ## A dispatch that nothing interrupts -/

end Pool

/-- Where the dispatcher goes from `SelectWorker`. -/
def Dispatcher.after (j : Job) : Option Client → Dispatcher
  | some w => .submitting j w
  | none => .idle

namespace Pool

section
variable {s : Pool} {j : Job}

theorem putBack_alone {skipped : List Client} {found : Option Client}
    (h : s.dispatcher = .puttingBack j skipped found) :
    ∃ k ch, pool.exec s (List.replicate k .selectNext) = { s with available := ch, dispatcher := .after j found } ∧
      ch.map Client.toWorkerClient =
        Broker.putBack (skipped.map Client.toWorkerClient) (s.available.map Client.toWorkerClient) := by
  induction skipped generalizing s with
  | nil =>
    refine ⟨1, s.available, ?_, rfl⟩
    show s.selectNext = _
    unfold selectNext
    rw [h]
    cases found <;> rfl
  | cons w skipped ih =>
    have hstep : s.selectNext = { s.makeAvailable w with dispatcher := .puttingBack j skipped found } := by
      unfold selectNext
      rw [h]
    obtain ⟨k, ch, hexec, hch⟩ := ih (s := { s.makeAvailable w with dispatcher := .puttingBack j skipped found }) rfl
    refine ⟨k + 1, ch, ?_, ?_⟩
    · rw [List.replicate_succ, Machine.exec_cons, show (pool.step s .selectNext).1 = s.selectNext from rfl,
        hstep, hexec]
      rfl
    · rw [hch]
      exact congrArg (Broker.putBack _) (Chan.map_trySend _ _ _)

/-- One more step. -/
theorem alone_succ {s' t : Pool} {k : Nat} (hstep : s.selectNext = s')
    (h : pool.exec s' (List.replicate k .selectNext) = t) :
    pool.exec s (List.replicate (k + 1) .selectNext) = t := by
  rw [List.replicate_succ, Machine.exec_cons, show (pool.step s .selectNext).1 = s.selectNext from rfl, hstep, h]

theorem select_alone {n : Nat} {skipped : List Client} (h : s.dispatcher = .selecting j n skipped) :
    ∃ k ch found, pool.exec s (List.replicate k .selectNext) =
      { s with available := ch, dispatcher := .after j found } ∧
      (found.map Client.toWorkerClient, ch.map Client.toWorkerClient) =
        s.broker.selectLoop j.type n (skipped.map Client.toWorkerClient) (s.available.map Client.toWorkerClient) := by
  induction n generalizing s skipped with
  | zero =>
    have hstep : s.selectNext = { s with dispatcher := .puttingBack j skipped none } := by unfold selectNext; rw [h]
    obtain ⟨k, ch, hexec, hch⟩ := putBack_alone (s := { s with dispatcher := .puttingBack j skipped none }) rfl
    exact ⟨k + 1, ch, none, alone_succ hstep hexec, congrArg (Prod.mk none) hch⟩
  | succ n ih =>
    unfold Broker.selectLoop
    rw [Chan.map_tryRecv]
    cases hrecv : s.available.tryRecv with
    | none =>
      have hstep : s.selectNext = { s with dispatcher := .puttingBack j skipped none } := by
        unfold selectNext
        simp only [h, hrecv]
      obtain ⟨k, ch, hexec, hch⟩ := putBack_alone (s := { s with dispatcher := .puttingBack j skipped none }) rfl
      exact ⟨k + 1, ch, none, alone_succ hstep hexec, congrArg (Prod.mk none) hch⟩
    | some p =>
      obtain ⟨w, rest⟩ := p
      dsimp only [Option.map_some]
      by_cases hcan : s.broker.canHandle w.id j.type = true
      · have hstep : s.selectNext = { s with available := rest, dispatcher := .puttingBack j skipped (some w) } := by
          unfold selectNext
          simp only [h, hrecv, hcan, if_true]
        obtain ⟨k, ch, hexec, hch⟩ :=
          putBack_alone (s := { s with available := rest, dispatcher := .puttingBack j skipped (some w) }) rfl
        refine ⟨k + 1, ch, some w, alone_succ hstep hexec, ?_⟩
        exact (congrArg (Prod.mk (some w.toWorkerClient)) hch).trans (if_pos hcan).symm
      · have hstep : s.selectNext = { s with available := rest, dispatcher := .selecting j n (skipped ++ [w]) } := by
          unfold selectNext
          simp only [h, hrecv, hcan, Bool.false_eq_true, if_false]
        obtain ⟨k, ch, found, hexec, hch⟩ :=
          ih (s := { s with available := rest, dispatcher := .selecting j n (skipped ++ [w]) }) rfl
        refine ⟨k + 1, ch, found, alone_succ hstep hexec, hch.trans ?_⟩
        rw [List.map_append]
        exact (if_neg hcan).symm

/-- What `Submit` leaves alone. -/
theorem submit_frame (call : SubmitCall) (w : Client) (j : Job) :
    (s.submit call w j).1.dispatcher = s.dispatcher ∧ (s.submit call w j).1.workers = s.workers ∧
      (s.submit call w j).1.available = s.available := by
  unfold submit
  cases w with
  | inProcess id =>
    dsimp only
    split
    · exact ⟨rfl, rfl, rfl⟩
    · split <;> exact ⟨rfl, rfl, rfl⟩
  | remote id =>
    dsimp only
    split <;> exact ⟨rfl, rfl, rfl⟩

theorem scheduler_dispatch_available {σ : Type} [Store σ] (sched : Scheduler σ) (now : Time)
    (answer : WorkerClient → Job → Option String) (j : Job) :
    (sched.dispatch false now answer j).sched.available = (sched.selectWorker j.type).2 := by
  unfold Scheduler.dispatch
  simp only [Bool.false_eq_true, if_false]
  split
  · rename_i ch hsel
    rw [hsel]
    rfl
  · rename_i w ch hsel
    rw [hsel]
    split <;> rfl

/-- Without interruption the steps of the dispatcher do to the channel what `Scheduler.dispatch` does. -/
theorem dispatch_alone {σ : Type} [Store σ] (hidle : s.dispatcher = .idle) (j : Job) (call : SubmitCall)
    {sched : Scheduler σ} (hbroker : sched.broker = some s.broker)
    (havail : sched.available = s.available.map Client.toWorkerClient) (now : Time)
    (answer : WorkerClient → Job → Option String) :
    ∃ k t, pool.exec s (.dispatch j :: (List.replicate k .selectNext ++ [.submit call])) = t ∧ t.dispatcher = .idle ∧
      t.available.map Client.toWorkerClient = (sched.dispatch false now answer j).sched.available := by
  rw [scheduler_dispatch_available]
  unfold Scheduler.selectWorker Broker.selectWorker
  rw [hbroker, havail]
  dsimp only
  rw [show ((s.available.map Client.toWorkerClient).buf.length = s.available.buf.length) from List.length_map _]
  by_cases hlen : s.available.buf.length = 0
  · have hnone : s.dispatch j = s := by
      unfold dispatch
      simp only [hidle, hlen, if_true]
    refine ⟨0, s, ?_, hidle, by rw [if_pos hlen]⟩
    simp only [List.replicate_zero, List.nil_append, Machine.exec_cons, Machine.exec_nil, pool, step, hnone, hidle]
  · have hstep : s.dispatch j = { s with dispatcher := .selecting j s.available.buf.length [] } := by
      unfold dispatch
      simp only [hidle, hlen, if_false]
    obtain ⟨k, ch, found, hexec, hch⟩ :=
      select_alone (s := { s with dispatcher := .selecting j s.available.buf.length [] }) rfl
    rw [if_neg hlen]
    refine ⟨k, _, rfl, ?_⟩
    rw [Machine.exec_cons, show (pool.step s (.dispatch j)).1 = s.dispatch j from rfl, hstep,
      Machine.exec_append, hexec]
    have hmap := congrArg Prod.snd hch
    cases found with
    | none => exact ⟨rfl, hmap⟩
    | some w =>
      refine ⟨rfl, Eq.trans ?_ hmap⟩
      exact congrArg (Chan.map Client.toWorkerClient) (submit_frame call w j).2.2

end

end Pool

end Quorum
