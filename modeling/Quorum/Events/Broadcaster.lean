/-
The event stream of the control node (`internal/events/broadcaster.go`): `GET /events` subscribes to the broadcaster
and writes what it receives to its client. A channel is known by its identity, and stays closed once `Unsubscribe` has
closed it.

No subscriber is slowed down or starved by another: each is sent what a channel of 100 places gives that has all
broadcasts offered to it and nobody else beside it. And no event is ever sent on a closed channel, nor is a channel
closed twice.

The handler needs a writer it can flush. The middleware of the server (`internal/middleware`) hands it one that it
cannot, so that there the handler panics at once, for every client.
-/
import Quorum.Job.Basic
import Quorum.Lib.GoMap
import Quorum.Lib.LossyChan

namespace Quorum

namespace Events

/-- `EventType`; `connected` is the type of the first event of a stream. -/
inductive EventType where
  | workerRegistered
  | workerEvicted
  | jobSubmitted
  | leaseGranted
  | leaseReleased
  | leaderChanged
  | queueRebuilt
  | dispatchResumed
  | failoverTriggered
  | connected
  deriving DecidableEq, Repr

structure Event where
  type : EventType
  message : String
  timestamp : Time
  metadata : List (String × String)
  deriving DecidableEq, Repr

/-- A channel that `Subscribe` has made. -/
structure Subscription where
  events : Chan Event
  closed : Bool

/-- The broadcaster, the channels there are and the handlers that are in their loops. -/
structure Broadcaster where
  channels : GoMap Nat Subscription
  subscribers : GoMap Nat Unit
  handlers : GoMap Nat Unit

/-- What clients see. `aborted` is a connection closed without an answer, after the panic of its handler; `panicked`
is a send on a closed channel, or a close of one. -/
inductive Shown where
  | sent (ch : Nat) (evt : Event)
  | aborted (ch : Nat)
  | panicked
  deriving DecidableEq

/-- The events that are sent to one client. -/
def Shown.sentTo (ch : Nat) : Shown → Option Event
  | .sent ch' evt => if ch' = ch then some evt else none
  | .aborted _ | .panicked => none

/-- What the `http.ResponseWriter` that a handler is handed can do beyond that interface: whether it is an
`http.Flusher`. -/
structure ResponseWriter where
  flusher : Bool
  deriving DecidableEq

/-- The `responseWriter` of the middleware has the methods of the `http.ResponseWriter` in it, and `Flush` is not one
of them. -/
def responseWriter (_w : ResponseWriter) : ResponseWriter := ⟨false⟩

/-- The writers that `RequestID`, `Tracing` and `Logging` hand on. -/
def requestID (w : ResponseWriter) : ResponseWriter := w

@[inherit_doc requestID]
def tracing (w : ResponseWriter) : ResponseWriter := responseWriter w

@[inherit_doc requestID]
def logging (w : ResponseWriter) : ResponseWriter := responseWriter w

/-- The writer of a request when it gets to the mux. -/
def served (w : ResponseWriter) : ResponseWriter := logging (tracing (requestID w))

namespace Broadcaster

def new : Broadcaster := ⟨∅, ∅, ∅⟩

/-- The size of the channel of a subscriber. -/
def bufSize : Nat := 100

def subscribe (ch : Nat) (b : Broadcaster) : Broadcaster :=
  { b with channels := b.channels.insert ch ⟨.make bufSize, false⟩, subscribers := b.subscribers.insert ch () }

def unsubscribe (ch : Nat) (b : Broadcaster) : Broadcaster × List Shown :=
  let b := { b with subscribers := b.subscribers.erase ch }
  match b.channels.lookup ch with
  | none => (b, [.panicked])
  | some sub =>
    if sub.closed then (b, [.panicked])
    else ({ b with channels := b.channels.insert ch { sub with closed := true } }, [])

/-- One round of the loop of `Broadcast`. -/
def sendTo (evt : Event) (p : Broadcaster × List Shown) (ch : Nat) : Broadcaster × List Shown :=
  match p.1.channels.lookup ch with
  | none => p
  | some sub =>
    if sub.closed then (p.1, p.2 ++ [.panicked])
    else ({ p.1 with channels := p.1.channels.insert ch { sub with events := sub.events.trySend evt } }, p.2)

/-- An event without a time gets that of the broadcast. -/
def stamped (now : Time) (evt : Event) : Event := if evt.timestamp = 0 then { evt with timestamp := now } else evt

def broadcast (evt : Event) (now : Time) (ord : RangeOrder Nat) (b : Broadcaster) : Broadcaster × List Shown :=
  (ord.order b.subscribers.keys).foldl (sendTo (stamped now evt)) (b, [])

/-- What happens: a client connects, an event is broadcast, and the handler of a client receives an event or finds its
request done. -/
inductive Act where
  | connect (ch : Nat) (now : Time) (w : ResponseWriter)
  | broadcast (evt : Event) (now : Time) (ord : RangeOrder Nat)
  | receive (ch : Nat)
  | done (ch : Nat)

/-- The handler returns, and its deferred call is made. -/
def returns (ch : Nat) (b : Broadcaster) : Broadcaster × List Shown :=
  unsubscribe ch { b with handlers := b.handlers.erase ch }

/-- The first event of a stream. -/
def greeting (now : Time) : Event :=
  ⟨.connected, "Stream connected to Quorum Control Plane Event Broadcaster", now, []⟩

section
-- `json.Marshal` has no error, as for all times in the years from 0 to 9999
variable (marshals : Event → Bool)

/-- The handler takes the receive of its `select`, which waits while there is nothing in an open channel. -/
def receive (ch : Nat) (b : Broadcaster) : Broadcaster × List Shown :=
  match b.channels.lookup ch with
  | none => (b, [])
  | some sub =>
    match sub.events.tryRecv with
    | some (evt, events) =>
      ({ b with channels := b.channels.insert ch { sub with events := events } },
        if marshals evt then [.sent ch evt] else [])
    | none => if sub.closed then returns ch b else (b, [])

def step (b : Broadcaster) : Act → Broadcaster × List Shown
  -- a channel that is in use is not made again
  | .connect ch now w =>
    if b.channels.lookup ch = none then
      if w.flusher then ({ subscribe ch b with handlers := b.handlers.insert ch () }, [.sent ch (greeting now)])
      else
        -- the greeting is written, but the assertion that `w` is an `http.Flusher` panics before it is flushed
        let p := unsubscribe ch (subscribe ch b)
        (p.1, .aborted ch :: p.2)
    else (b, [])
  | .broadcast evt now ord => broadcast evt now ord b
  | .receive ch => if ch ∈ b.handlers then receive marshals ch b else (b, [])
  | .done ch => if ch ∈ b.handlers then returns ch b else (b, [])

def machine : Machine Broadcaster Act Shown := ⟨step marshals⟩

end

/-! ## No panic -/

/-- A handler has subscribed, and the channel of a subscriber is open. -/
structure Open (b : Broadcaster) : Prop where
  handlers : ∀ ch, ch ∈ b.handlers ↔ ch ∈ b.subscribers
  channels : ∀ ch ∈ b.subscribers, ∃ events, b.channels.lookup ch = some ⟨events, false⟩

theorem sendTo_open {evt : Event} {b : Broadcaster} {ch : Nat} {events : Chan Event}
    (h : b.channels.lookup ch = some ⟨events, false⟩) :
    sendTo evt (b, []) ch = ({ b with channels := b.channels.insert ch ⟨events.trySend evt, false⟩ }, []) := by
  unfold sendTo
  rw [h]
  rfl

/-- The loop of `Broadcast` offers the event once to every channel it gets to. -/
theorem foldl_sendTo (evt : Event) {l : List Nat} (hnodup : l.Nodup) {b : Broadcaster}
    (hopen : ∀ ch ∈ l, ∃ events, b.channels.lookup ch = some ⟨events, false⟩) :
    ∃ channels, l.foldl (sendTo evt) (b, []) = ({ b with channels := channels }, []) ∧
      (∀ ch ∉ l, channels.lookup ch = b.channels.lookup ch) ∧
      ∀ ch ∈ l, ∀ events, b.channels.lookup ch = some ⟨events, false⟩ →
        channels.lookup ch = some ⟨events.trySend evt, false⟩ := by
  induction l generalizing b with
  | nil => exact ⟨b.channels, rfl, fun _ _ => rfl, List.forall_mem_nil _⟩
  | cons ch l ih =>
    obtain ⟨hch, hnodup⟩ := List.nodup_cons.1 hnodup
    obtain ⟨events, hevents⟩ := hopen ch List.mem_cons_self
    rw [List.foldl_cons, sendTo_open hevents]
    have hother : ∀ ch' ≠ ch, (b.channels.insert ch ⟨events.trySend evt, false⟩).lookup ch' =
        b.channels.lookup ch' := by
      intro ch' hne
      rw [GoMap.lookup_insert_ite, if_neg hne]
    have hne : ∀ ch' ∈ l, ch' ≠ ch := fun ch' hmem heq => hch (heq ▸ hmem)
    obtain ⟨channels, hfold, hout, hin⟩ := ih hnodup
      (b := { b with channels := b.channels.insert ch ⟨events.trySend evt, false⟩ }) fun ch' hmem => by
        rw [hother ch' (hne ch' hmem)]
        exact hopen ch' (List.mem_cons_of_mem _ hmem)
    refine ⟨channels, hfold, fun ch' hmem => ?_, fun ch' hmem events' hevents' => ?_⟩
    · rw [List.mem_cons, not_or] at hmem
      rw [hout ch' hmem.2, hother ch' hmem.1]
    · rcases List.mem_cons.1 hmem with rfl | hmem
      · cases hevents.symm.trans hevents'
        rw [hout ch' hch, GoMap.lookup_insert_ite, if_pos rfl]
      · exact hin ch' hmem events' (by rw [hother ch' (hne ch' hmem)]; exact hevents')

/-- In whatever order `Broadcast` ranges over the subscribers, it offers the event to all of them. -/
theorem broadcast_open {b : Broadcaster} (h : b.Open) (evt : Event) (now : Time) (ord : RangeOrder Nat) :
    ∃ channels, broadcast evt now ord b = ({ b with channels := channels }, []) ∧
      (∀ ch ∉ b.subscribers, channels.lookup ch = b.channels.lookup ch) ∧
      ∀ ch ∈ b.subscribers, ∀ events, b.channels.lookup ch = some ⟨events, false⟩ →
        channels.lookup ch = some ⟨events.trySend (stamped now evt), false⟩ := by
  have hmem : ∀ {ch}, ch ∈ ord.order b.subscribers.keys ↔ ch ∈ b.subscribers := ord.mem_order
  obtain ⟨channels, hfold, hout, hin⟩ :=
    foldl_sendTo (stamped now evt) (ord.nodup_order b.subscribers.keys_nodup) (b := b)
    fun ch hch => h.channels ch (hmem.1 hch)
  exact ⟨channels, hfold, fun ch hch => hout ch fun hin => hch (hmem.1 hin), fun ch hch => hin ch (hmem.2 hch)⟩

section
variable (marshals : Event → Bool)

/-- What a step does while all is in order. -/
inductive Outcome (marshals : Event → Bool) (b : Broadcaster) : Act → Broadcaster × List Shown → Prop
  | inUse {ch : Nat} {now : Time} {w : ResponseWriter} (hused : b.channels.lookup ch ≠ none) :
      Outcome marshals b (.connect ch now w) (b, [])
  | waiting {ch : Nat} (hempty : ch ∈ b.handlers → ∃ events, b.channels.lookup ch = some ⟨events, false⟩ ∧
      events.tryRecv = none) :
      Outcome marshals b (.receive ch) (b, [])
  | gone {ch : Nat} (hch : ch ∉ b.handlers) : Outcome marshals b (.done ch) (b, [])
  | connected {ch : Nat} {now : Time} {w : ResponseWriter} (hfree : b.channels.lookup ch = none)
      (hw : w.flusher = true) :
      Outcome marshals b (.connect ch now w)
        ({ subscribe ch b with handlers := b.handlers.insert ch () }, [.sent ch (greeting now)])
  | aborted {ch : Nat} {now : Time} {w : ResponseWriter} (hfree : b.channels.lookup ch = none)
      (hw : w.flusher = false) :
      Outcome marshals b (.connect ch now w)
        (⟨(subscribe ch b).channels.insert ch ⟨.make bufSize, true⟩, (subscribe ch b).subscribers.erase ch, b.handlers⟩,
          [.aborted ch])
  | broadcast {evt : Event} {now : Time} {ord : RangeOrder Nat} {channels : GoMap Nat Subscription}
      (hout : ∀ ch ∉ b.subscribers, channels.lookup ch = b.channels.lookup ch)
      (hin : ∀ ch ∈ b.subscribers, ∀ events, b.channels.lookup ch = some ⟨events, false⟩ →
        channels.lookup ch = some ⟨events.trySend (stamped now evt), false⟩) :
      Outcome marshals b (.broadcast evt now ord) ({ b with channels := channels }, [])
  | received {ch : Nat} {evt : Event} {events events' : Chan Event} (hch : ch ∈ b.handlers)
      (hevents : b.channels.lookup ch = some ⟨events, false⟩) (hrecv : events.tryRecv = some (evt, events')) :
      Outcome marshals b (.receive ch)
        ({ b with channels := b.channels.insert ch ⟨events', false⟩ }, if marshals evt then [.sent ch evt] else [])
  | returned {ch : Nat} {events : Chan Event} (hch : ch ∈ b.handlers)
      (hevents : b.channels.lookup ch = some ⟨events, false⟩) :
      Outcome marshals b (.done ch)
        (⟨b.channels.insert ch ⟨events, true⟩, b.subscribers.erase ch, b.handlers.erase ch⟩, [])

theorem step_outcome {b : Broadcaster} (h : b.Open) (a : Act) : Outcome marshals b a (step marshals b a) := by
  have hopen : ∀ {ch}, ch ∈ b.handlers → ∃ events, b.channels.lookup ch = some ⟨events, false⟩ :=
    fun hch => h.channels _ ((h.handlers _).1 hch)
  cases a with
  | connect ch now w =>
    simp only [step]
    split
    · rename_i hfree
      split
      · rename_i hw
        exact .connected hfree hw
      · rename_i hw
        rw [unsubscribe, show (subscribe ch b).channels.lookup ch =
          some ⟨.make bufSize, false⟩ from AList.lookup_insert _]
        exact .aborted hfree (Bool.eq_false_iff.2 hw)
    · rename_i hused
      exact .inUse hused
  | broadcast evt now ord =>
    obtain ⟨channels, heq, hout, hin⟩ := broadcast_open h evt now ord
    rw [step, heq]
    exact .broadcast hout hin
  | receive ch =>
    simp only [step]
    split
    · rename_i hch
      obtain ⟨events, hevents⟩ := hopen hch
      simp only [receive, hevents]
      cases hrecv : events.tryRecv with
      | some p => exact .received hch hevents hrecv
      | none => exact .waiting fun _ => ⟨events, hevents, hrecv⟩
    · rename_i hch
      exact .waiting fun hmem => absurd hmem hch
  | done ch =>
    simp only [step]
    split
    · rename_i hch
      obtain ⟨events, hevents⟩ := hopen hch
      simp only [returns, unsubscribe, hevents]
      exact .returned hch hevents
    · rename_i hch
      exact .gone hch

theorem new_open : new.Open := ⟨fun _ => Iff.rfl, fun ch hch => absurd hch (AList.notMem_empty ch)⟩

theorem step_open {b : Broadcaster} (h : b.Open) (a : Act) :
    (step marshals b a).1.Open ∧ .panicked ∉ (step marshals b a).2 := by
  have hstep := step_outcome marshals h a
  generalize step marshals b a = p at hstep
  cases hstep with
  | inUse | waiting | gone => exact ⟨h, List.not_mem_nil⟩
  | @connected ch now w hfree hw =>
    refine ⟨⟨fun ch' => ?_, fun ch' hch' => ?_⟩, by simp⟩
    · simp [subscribe, h.handlers ch']
    · dsimp only [subscribe] at hch' ⊢
      rw [GoMap.lookup_insert_ite]
      split
      · exact ⟨_, rfl⟩
      · exact h.channels ch' ((AList.mem_insert _).1 hch' |>.resolve_left ‹_›)
  | @aborted ch now w hfree hw =>
    have hmem : ∀ ch', ch' ∈ (subscribe ch b).subscribers.erase ch ↔ ch' ∈ b.subscribers := by
      intro ch'
      have hch : ch ∉ b.subscribers := fun hch => by
        obtain ⟨events, hevents⟩ := h.channels ch hch
        cases hfree.symm.trans hevents
      rw [AList.mem_erase, subscribe, AList.mem_insert]
      constructor
      · rintro ⟨hne, hmem⟩
        exact hmem.resolve_left hne
      · intro hmem
        exact ⟨fun heq => hch (heq ▸ hmem), .inr hmem⟩
    refine ⟨⟨fun ch' => (h.handlers ch').trans (hmem ch').symm, fun ch' hch' => ?_⟩, by simp⟩
    have hne := (AList.mem_erase.1 hch').1
    dsimp only [subscribe]
    rw [GoMap.lookup_insert_ite, if_neg hne, GoMap.lookup_insert_ite, if_neg hne]
    exact h.channels ch' ((hmem ch').1 hch')
  | broadcast hout hin =>
    refine ⟨⟨h.handlers, fun ch hch => ?_⟩, List.not_mem_nil⟩
    obtain ⟨events, hevents⟩ := h.channels ch hch
    exact ⟨_, hin ch hch events hevents⟩
  | @received ch evt events events' hch hevents hrecv =>
    refine ⟨⟨h.handlers, fun ch' hch' => ?_⟩, by split <;> simp⟩
    dsimp only
    rw [GoMap.lookup_insert_ite]
    split
    · exact ⟨_, rfl⟩
    · exact h.channels ch' hch'
  | @returned ch events hch hevents =>
    refine ⟨⟨fun ch' => ?_, fun ch' hch' => ?_⟩, List.not_mem_nil⟩
    · simp [AList.mem_erase, h.handlers ch']
    · obtain ⟨hne, hmem⟩ := AList.mem_erase.1 hch'
      dsimp only
      rw [GoMap.lookup_insert_ite, if_neg hne]
      exact h.channels ch' hmem

theorem exec_open (acts : List Act) : ((machine marshals).exec new acts).Open :=
  Machine.exec_inv new_open (fun _ a h => (step_open marshals h a).1) acts

/-- No run of the broadcaster and its clients sends on a closed channel or closes one twice. -/
theorem never_panics (acts : List Act) : .panicked ∉ (machine marshals).trace new acts := by
  intro hmem
  obtain ⟨pre, a, post, -, hpanic⟩ := Machine.mem_trace.1 hmem
  exact (step_open marshals (exec_open marshals pre) a).2 hpanic

/-! ## The stream of one client -/

/-- What an act is for the channel of one client. -/
def Act.op (ch : Nat) : Act → Option (Chan.Op Event)
  | .broadcast evt now _ => some (.offer (stamped now evt))
  | .receive ch' => if ch' = ch then some .take else none
  | .connect _ _ _ | .done _ => none

theorem receive_op (ch : Nat) : ((Act.receive ch).op ch).toList = [.take] := by rw [Act.op, if_pos rfl]; rfl

theorem receive_op_ne {ch ch' : Nat} (h : ch' ≠ ch) : ((Act.receive ch').op ch).toList = [] := by
  rw [Act.op, if_neg h]
  rfl

/-- The handler of the client is in its loop, with this channel. -/
structure Session (ch : Nat) (b : Broadcaster) (events : Chan Event) : Prop where
  isOpen : b.Open
  handler : ch ∈ b.handlers
  channel : b.channels.lookup ch = some ⟨events, false⟩
  cap : events.cap = bufSize

theorem session_step {ch : Nat} {b : Broadcaster} {events : Chan Event} (h : Session ch b events) {a : Act}
    (ha : a ≠ .done ch) :
    Session ch ((machine marshals).step b a).1 (Chan.lossy.exec events (a.op ch).toList) ∧
      ((machine marshals).step b a).2.filterMap (Shown.sentTo ch) =
        (Chan.lossy.trace events (a.op ch).toList).filter marshals := by
  have hopen := (step_open marshals h.isOpen a).1
  have hstep := step_outcome marshals h.isOpen a
  change Session ch (step marshals b a).1 _ ∧ (step marshals b a).2.filterMap _ = _
  generalize step marshals b a = p at hstep hopen
  cases hstep with
  | inUse => exact ⟨h, rfl⟩
  | gone => exact ⟨h, rfl⟩
  | @connected ch' now w hfree hw =>
    have hne : ch' ≠ ch := by
      rintro rfl
      cases hfree.symm.trans h.channel
    refine ⟨⟨hopen, (AList.mem_insert _).2 (.inr h.handler), ?_, h.cap⟩, ?_⟩
    · exact (GoMap.lookup_insert_ite _ _ _ _).trans ((if_neg hne.symm).trans h.channel)
    · simp [Shown.sentTo, hne, Act.op]
  | @aborted ch' now w hfree hw =>
    have hne : ch ≠ ch' := by
      rintro rfl
      cases hfree.symm.trans h.channel
    refine ⟨⟨hopen, h.handler, ?_, h.cap⟩, rfl⟩
    dsimp only [subscribe]
    rw [GoMap.lookup_insert_ite, if_neg hne, GoMap.lookup_insert_ite, if_neg hne]
    exact h.channel
  | broadcast hout hin =>
    have hch := (h.isOpen.handlers ch).1 h.handler
    exact ⟨⟨hopen, h.handler, hin ch hch events h.channel, (Chan.cap_trySend _ _).trans h.cap⟩, rfl⟩
  | @waiting ch' hempty =>
    by_cases hne : ch' = ch
    · subst hne
      obtain ⟨events', hevents', hrecv⟩ := hempty h.handler
      cases h.channel.symm.trans hevents'
      have htake : events.takeStep = (events, []) := by rw [Chan.takeStep, hrecv]
      rw [receive_op, Chan.exec_take, Chan.trace_take, htake]
      exact ⟨h, rfl⟩
    · rw [receive_op_ne hne]
      exact ⟨h, rfl⟩
  | @received ch' evt events' events'' hch hevents hrecv =>
    by_cases hne : ch' = ch
    · subst hne
      cases h.channel.symm.trans hevents
      have htake : events.takeStep = (events'', [evt]) := by rw [Chan.takeStep, hrecv]
      rw [receive_op, Chan.exec_take, Chan.trace_take, htake]
      refine ⟨⟨hopen, h.handler, ?_, (Chan.tryRecv_cap hrecv).trans h.cap⟩, ?_⟩
      · exact (GoMap.lookup_insert_ite _ _ _ _).trans (if_pos rfl)
      · cases hevt : marshals evt <;> simp [Shown.sentTo, hevt]
    · rw [receive_op_ne hne]
      refine ⟨⟨hopen, h.handler, ?_, h.cap⟩, ?_⟩
      · exact (GoMap.lookup_insert_ite _ _ _ _).trans ((if_neg (Ne.symm hne)).trans h.channel)
      · cases hevt : marshals evt <;> simp [Shown.sentTo, hne]
  | @returned ch' events' hch hevents =>
    have hne : ch' ≠ ch := by
      rintro rfl
      exact ha rfl
    refine ⟨⟨hopen, AList.mem_erase.2 ⟨hne.symm, h.handler⟩, ?_, h.cap⟩, rfl⟩
    exact (GoMap.lookup_insert_ite _ _ _ _).trans ((if_neg hne.symm).trans h.channel)

theorem op_cons (ch : Nat) (a : Act) (acts : List Act) :
    (a :: acts).filterMap (Act.op ch) = (a.op ch).toList ++ acts.filterMap (Act.op ch) := by
  cases hop : a.op ch <;> simp [hop]

theorem session_run {ch : Nat} {acts : List Act} (hacts : .done ch ∉ acts) {b : Broadcaster} {events : Chan Event}
    (h : Session ch b events) :
    Session ch ((machine marshals).exec b acts) (Chan.lossy.exec events (acts.filterMap (Act.op ch))) ∧
      ((machine marshals).trace b acts).filterMap (Shown.sentTo ch) =
        (Chan.lossy.trace events (acts.filterMap (Act.op ch))).filter marshals := by
  induction acts generalizing b events with
  | nil => exact ⟨h, rfl⟩
  | cons a acts ih =>
    rw [List.mem_cons, not_or] at hacts
    obtain ⟨hnext, hshown⟩ := session_step marshals h (Ne.symm hacts.1)
    obtain ⟨hend, hrest⟩ := ih hacts.2 hnext
    rw [op_cons, Machine.exec_append, Machine.trace_append, List.filter_append, Machine.trace_cons,
      List.filterMap_append]
    exact ⟨hend, congrArg₂ (· ++ ·) hshown hrest⟩

/-- How many events wait for the handler of a client. -/
def backlog (ch : Nat) (b : Broadcaster) : Nat := (b.channels.lookup ch).elim 0 fun sub => sub.events.buf.length

/-- A broadcast finds a free place in the channel of the client. -/
def Fits (ch : Nat) (b : Broadcaster) (a : Act) : Prop :=
  ∀ evt now ord, a = .broadcast evt now ord → b.backlog ch < bufSize

theorem session_fits_iff {ch : Nat} {acts : List Act} (hacts : .done ch ∉ acts) {b : Broadcaster} {events : Chan Event}
    (h : Session ch b events) :
    (machine marshals).EveryStep (fun _ b a => b.Fits ch a) b acts ↔
      Chan.lossy.EveryStep (fun _ events op => events.HasRoom op) events (acts.filterMap (Act.op ch)) := by
  induction acts generalizing b events with
  | nil => simp
  | cons a acts ih =>
    rw [List.mem_cons, not_or] at hacts
    have hnext := (session_step marshals h (Ne.symm hacts.1)).1
    rw [Machine.everyStep_cons, op_cons, Machine.everyStep_append, ih hacts.2 hnext]
    refine and_congr_left fun _ => ?_
    have hbacklog : b.backlog ch = events.buf.length := by rw [backlog, h.channel]; rfl
    cases a with
    | broadcast evt now ord =>
      rw [show (Act.op ch (.broadcast evt now ord)).toList = [.offer (stamped now evt)] from rfl,
        Machine.everyStep_cons]
      simp [Fits, Chan.HasRoom, hbacklog, h.cap]
    | receive ch' =>
      by_cases hne : ch' = ch
      · subst hne
        rw [receive_op, Machine.everyStep_cons]
        simp [Fits, Chan.HasRoom]
      · rw [receive_op_ne hne]
        simp [Fits]
    | connect | done => simp [Fits, Act.op]

/-- A handler that has just subscribed. -/
theorem connected_session {b : Broadcaster} (h : b.Open) {ch : Nat} (hfree : b.channels.lookup ch = none) (now : Time)
    {w : ResponseWriter} (hw : w.flusher = true) :
    ((machine marshals).step b (.connect ch now w)).2 = [.sent ch (greeting now)] ∧
      Session ch ((machine marshals).step b (.connect ch now w)).1 (.make bufSize) := by
  have hopen := (step_open marshals h (.connect ch now w)).1
  simp only [machine, step, hfree, hw, if_true] at hopen ⊢
  refine ⟨trivial, hopen, (AList.mem_insert _).2 (.inl rfl), ?_, rfl⟩
  exact (GoMap.lookup_insert_ite _ _ _ _).trans (if_pos rfl)

/-- A client whose handler can flush is sent the greeting, and then what a channel of 100 places gives that has all
broadcasts offered to it and is emptied when the client's handler receives: no other client makes a difference. -/
theorem stream_alone (before : List Act) {ch : Nat}
    (hfree : ((machine marshals).exec new before).channels.lookup ch = none) (now : Time) {w : ResponseWriter}
    (hw : w.flusher = true) {acts : List Act} (hacts : .done ch ∉ acts) :
    ((machine marshals).trace ((machine marshals).exec new before) (.connect ch now w :: acts)).filterMap
        (Shown.sentTo ch) =
      greeting now :: (Chan.lossy.trace (.make bufSize) (acts.filterMap (Act.op ch))).filter marshals := by
  obtain ⟨hgreeting, hsession⟩ := connected_session marshals (exec_open marshals before) hfree now hw
  rw [Machine.trace_cons, List.filterMap_append]
  rw [hgreeting, (session_run marshals hacts hsession).2]
  simp [Shown.sentTo]

end

/-- A broadcast of the engine, without a time of its own. -/
def submitted (message : String) : Event := ⟨.jobSubmitted, message, 0, []⟩

/-- The client 2 does not read its events, and the client 1 has its own all the same. -/
theorem stream_alone_slow :
    ((machine fun _ => true).trace ((machine fun _ => true).exec new [.connect 2 3 ⟨true⟩])
      (.connect 1 5 ⟨true⟩ :: [.broadcast (submitted "Job #1") 6 .stored, .receive 1,
        .broadcast (submitted "Job #2") 7 .stored])).filterMap
        (Shown.sentTo 1) = [greeting 5, { submitted "Job #1" with timestamp := 6 }] :=
  (stream_alone (fun _ => true) [.connect 2 3 ⟨true⟩] rfl 5 rfl (by simp)).trans (by decide +kernel)

/-- What a client whose handler can flush is sent, and what still waits for it, is a part of the broadcasts since it
connected, in their order. It is all of them exactly if fewer than 100 events waited for the client at every
broadcast. -/
theorem stream_complete_iff (before : List Act) {ch : Nat}
    (hfree : ((machine fun _ => true).exec new before).channels.lookup ch = none) (now : Time) {w : ResponseWriter}
    (hw : w.flusher = true) {acts : List Act} (hacts : .done ch ∉ acts) :
    let M := machine fun _ => true
    let b := (M.step (M.exec new before) (.connect ch now w)).1
    let broadcasts := acts.filterMap fun a => (a.op ch).bind Chan.Op.offered
    ∃ events, (M.exec b acts).channels.lookup ch = some ⟨events, false⟩ ∧
      ((M.trace b acts).filterMap (Shown.sentTo ch) ++ events.buf).Sublist broadcasts ∧
      ((M.trace b acts).filterMap (Shown.sentTo ch) ++ events.buf = broadcasts ↔
          M.EveryStep (fun _ b a => b.Fits ch a) b acts) := by
  intro M b broadcasts
  have hsession : Session ch b (.make bufSize) := (connected_session _ (exec_open _ before) hfree now hw).2
  obtain ⟨hend, hsent⟩ := session_run (fun _ => true) hacts hsession
  have hbroadcasts : broadcasts = (acts.filterMap (Act.op ch)).filterMap Chan.Op.offered :=
    (List.filterMap_filterMap ..).symm
  refine ⟨_, hend.channel, ?_, ?_⟩
  · rw [hsent, List.filter_true, hbroadcasts]
    exact Chan.lossy_sublist (.make bufSize) _
  · rw [hsent, List.filter_true, hbroadcasts, session_fits_iff (fun _ => true) hacts hsession]
    exact Chan.lossy_complete_iff (.make bufSize) _

/-- Of two broadcasts the client has received one, and the other waits for it. -/
theorem stream_complete_two :
    let M := machine fun _ => true
    let b := (M.step (M.exec new []) (.connect 1 5 ⟨true⟩)).1
    let acts := [.broadcast (submitted "Job #1") 6 .stored, .receive 1, .broadcast (submitted "Job #2") 7 .stored]
    ∃ events, (M.exec b acts).channels.lookup 1 = some ⟨events, false⟩ ∧
      (M.trace b acts).filterMap (Shown.sentTo 1) ++ events.buf =
        [{ submitted "Job #1" with timestamp := 6 }, { submitted "Job #2" with timestamp := 7 }] := by
  intro M b acts
  obtain ⟨events, hevents, -, hiff⟩ := stream_complete_iff [] (show (M.exec new []).channels.lookup 1 = none from rfl) 5
    (show ResponseWriter.flusher ⟨true⟩ = true from rfl) (show .done 1 ∉ acts by simp [acts])
  refine ⟨events, hevents, hiff.2 ?_⟩
  simp only [acts, Machine.everyStep_cons, Machine.everyStep_nil, and_true]
  exact ⟨fun _ _ _ _ => by decide +kernel, fun _ _ _ _ => by decide +kernel, fun _ _ _ _ => by decide +kernel⟩

/-! ## Behind the middleware -/

/-- The clients of the server are those whose requests have come through its middleware. -/
def Act.Served (a : Act) : Prop := ∀ ch now w, a = .connect ch now w → ∃ w', w = served w'

/-- Nobody has subscribed. -/
structure Idle (b : Broadcaster) : Prop where
  isOpen : b.Open
  none : ∀ ch, ch ∉ b.subscribers

theorem idle_step (marshals : Event → Bool) {b : Broadcaster} (h : b.Idle) {a : Act} (ha : a.Served) :
    ((machine marshals).step b a).1.Idle ∧ ∀ ch evt, .sent ch evt ∉ ((machine marshals).step b a).2 := by
  have hopen := (step_open marshals h.isOpen a).1
  have hstep := step_outcome marshals h.isOpen a
  change (step marshals b a).1.Idle ∧ ∀ ch evt, .sent ch evt ∉ (step marshals b a).2
  generalize step marshals b a = p at hstep hopen
  have hhandlers : ∀ ch, ch ∉ b.handlers := fun ch hch => h.none ch ((h.isOpen.handlers ch).1 hch)
  cases hstep with
  | inUse | waiting | gone => exact ⟨h, fun _ _ => List.not_mem_nil⟩
  | connected hfree hw =>
    obtain ⟨w', rfl⟩ := ha _ _ _ rfl
    cases hw
  | aborted hfree hw =>
    refine ⟨⟨hopen, fun ch' hch' => ?_⟩, by simp⟩
    exact hhandlers ch' ((hopen.handlers ch').2 hch')
  | broadcast hout hin => exact ⟨⟨hopen, h.none⟩, fun _ _ => List.not_mem_nil⟩
  | received hch => exact absurd hch (hhandlers _)
  | returned hch => exact absurd hch (hhandlers _)

/-- Behind the middleware of the server every client that connects is cut off without an answer. No client is ever
sent an event, and none stays subscribed. -/
theorem served_aborted (marshals : Event → Bool) {acts : List Act} (hserved : ∀ a ∈ acts, a.Served) :
    let M := machine marshals
    (∀ ch now w, (M.exec new acts).channels.lookup ch = none →
        (M.step (M.exec new acts) (.connect ch now (served w))).2 = [.aborted ch]) ∧
      (∀ ch evt, .sent ch evt ∉ M.trace new acts) ∧ ∀ ch, ch ∉ (M.exec new acts).subscribers := by
  intro M
  have hevery : M.EveryStep (fun _ _ a => a.Served) new acts := fun pre a post heq => hserved a (by simp [heq])
  have hidle : (M.exec new acts).Idle ∧ ∀ ch evt, .sent ch evt ∉ M.trace new acts := by
    refine Machine.EveryStep.inv (P := fun tr b => b.Idle ∧ ∀ ch evt, .sent ch evt ∉ tr) ?_ ?_ hevery
    · exact ⟨⟨new_open, AList.notMem_empty⟩, fun _ _ => List.not_mem_nil⟩
    · rintro tr b a ⟨hb, htr⟩ ha
      obtain ⟨hnext, hshown⟩ := idle_step marshals hb ha
      exact ⟨hnext, fun ch evt hmem => (List.mem_append.1 hmem).elim (htr ch evt) (hshown ch evt)⟩
  refine ⟨fun ch now w hfree => ?_, hidle.2, hidle.1.none⟩
  have hstep := step_outcome marshals hidle.1.isOpen (.connect ch now (served w))
  change (step marshals (M.exec new acts) (.connect ch now (served w))).2 = _
  generalize step marshals (M.exec new acts) (.connect ch now (served w)) = p at hstep
  cases hstep with
  | inUse hused => exact absurd hfree hused
  | connected _ hw => cases hw
  | aborted => rfl

/-- Two clients of the server, and a broadcast between them. -/
theorem served_aborted_two :
    let M := machine fun _ => true
    let acts := [.connect 1 5 (served ⟨true⟩), .broadcast (submitted "Job #1") 6 .stored]
    (M.step (M.exec new acts) (.connect 2 7 (served ⟨true⟩))).2 = [.aborted 2] ∧ ∀ evt,
        .sent 1 evt ∉ M.trace new acts := by
  intro M acts
  have hserved : ∀ a ∈ acts, a.Served := by
    intro a ha ch now w heq
    rcases List.mem_cons.1 ha with rfl | ha
    · cases heq
      exact ⟨_, rfl⟩
    · cases List.mem_singleton.1 ha
      cases heq
  obtain ⟨haborted, hsent, -⟩ := served_aborted (fun _ => true) hserved
  exact ⟨haborted 2 7 ⟨true⟩ rfl, hsent 1⟩

end Broadcaster

end Events

end Quorum
