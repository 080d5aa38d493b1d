/-
`SelectWorker` beside other senders. The call receives from the `Available` channel and puts back what it cannot use one
channel operation at a time; in between `MakeAvailable` and `Worker.Start` may send. A put-back gives up on a full
channel, so the workers are all accounted for exactly if every put-back finds room.
-/
import Quorum.Lib.Machine
import Quorum.Worker.Broker

namespace Quorum

namespace Selection

/-- Where the call is. -/
inductive Point where
  /-- About to look at the length of the channel. -/
  | entry
  /-- In the loop, with the rounds left. -/
  | scanning (rounds : Nat) (skipped : List WorkerClient)
  /-- Putting workers back before it returns. -/
  | puttingBack (skipped : List WorkerClient) (result : Option WorkerClient)
  | returned (result : Option WorkerClient)
  deriving DecidableEq

structure State where
  available : Chan WorkerClient
  call : Point

/-- The next channel operation of the call, with the broker as a `CanHandle` of that moment sees it, or a send of
another goroutine. -/
inductive Act where
  | select (b : Broker)
  | makeAvailable (w : WorkerClient)
  | workerStart (w : WorkerClient)

/-- A send of another goroutine that got in, or a put-back that was given up. -/
inductive Event where
  | sent (w : WorkerClient)
  | lost (w : WorkerClient)
  deriving DecidableEq

def selectStep (jobType : String) (b : Broker) (s : State) : State × List Event :=
  match s.call with
  | .entry =>
    let n := s.available.buf.length
    (⟨s.available, if n = 0 then .returned none else .scanning n []⟩, [])
  | .scanning 0 skipped => (⟨s.available, .puttingBack skipped none⟩, [])
  | .scanning (n + 1) skipped =>
    match s.available.tryRecv with
    | none => (⟨s.available, .puttingBack skipped none⟩, [])
    | some (w, ch) =>
      (⟨ch, if b.canHandle w.id jobType then .puttingBack skipped (some w) else .scanning n (skipped ++ [w])⟩, [])
  | .puttingBack [] result => (⟨s.available, .returned result⟩, [])
  | .puttingBack (w :: skipped) result =>
    (⟨s.available.trySend w, .puttingBack skipped result⟩, (s.available.refused w).toList.map .lost)
  | .returned _ => (s, [])

/-- A send that goes through if there is room. `MakeAvailable` gives up otherwise; `Worker.Start` stays blocked, which
is a step not taken. -/
def send (s : State) (w : WorkerClient) : State × List Event :=
  (⟨s.available.trySend w, s.call⟩, if s.available.buf.length < s.available.cap then [.sent w] else [])

def step (jobType : String) (s : State) : Act → State × List Event
  | .select b => selectStep jobType b s
  | .makeAvailable w | .workerStart w => send s w

def machine (jobType : String) : Machine State Act Event := ⟨step jobType⟩

def start (ch : Chan WorkerClient) : State := ⟨ch, .entry⟩

/-! ## The call on its own -/

theorem exec_select (jobType : String) (b : Broker) (s : State) (k : Nat) :
    (machine jobType).exec s (List.replicate (k + 1) (.select b)) =
      (machine jobType).exec (selectStep jobType b s).1 (List.replicate k (.select b)) := rfl

theorem puttingBack_alone (jobType : String) (b : Broker) (result : Option WorkerClient) :
    ∀ (skipped : List WorkerClient) (ch : Chan WorkerClient),
      (machine jobType).exec ⟨ch, .puttingBack skipped result⟩ (List.replicate (skipped.length + 1) (.select b)) =
        ⟨Broker.putBack skipped ch, .returned result⟩
  | [], _ => rfl
  | w :: skipped, ch => puttingBack_alone jobType b result skipped (ch.trySend w)

theorem scanning_alone (jobType : String) (b : Broker) (n : Nat) (skipped : List WorkerClient)
    (ch : Chan WorkerClient) :
    ∃ k, (machine jobType).exec ⟨ch, .scanning n skipped⟩ (List.replicate k (.select b)) =
      ⟨(b.selectLoop jobType n skipped ch).2, .returned (b.selectLoop jobType n skipped ch).1⟩ := by
  induction n generalizing skipped ch with
  | zero => exact ⟨skipped.length + 1 + 1, puttingBack_alone jobType b none skipped ch⟩
  | succ n ih =>
    unfold Broker.selectLoop
    cases hrecv : ch.tryRecv with
    | none =>
      refine ⟨skipped.length + 1 + 1, ?_⟩
      have hstep : (selectStep jobType b ⟨ch, .scanning (n + 1) skipped⟩).1 = ⟨ch, .puttingBack skipped none⟩ := by
        simp only [selectStep, hrecv]
      rw [exec_select, hstep]
      exact puttingBack_alone jobType b none skipped ch
    | some p =>
      obtain ⟨w, ch'⟩ := p
      have hstep : (selectStep jobType b ⟨ch, .scanning (n + 1) skipped⟩).1 =
          ⟨ch', if b.canHandle w.id jobType then .puttingBack skipped (some w) else .scanning n (skipped ++ [w])⟩ := by
        simp only [selectStep, hrecv]
      dsimp only
      by_cases hcan : b.canHandle w.id jobType = true
      · refine ⟨skipped.length + 1 + 1, ?_⟩
        rw [if_pos hcan] at hstep
        rw [if_pos hcan, exec_select, hstep]
        exact puttingBack_alone jobType b (some w) skipped ch'
      · obtain ⟨k, hk⟩ := ih (skipped ++ [w]) ch'
        refine ⟨k + 1, ?_⟩
        rw [if_neg hcan] at hstep
        rw [if_neg hcan, exec_select, hstep]
        exact hk

/-- The steps of the call without a send in between are `selectWorker`. -/
theorem selectWorker_alone (jobType : String) (b : Broker) (ch : Chan WorkerClient) :
    ∃ k, (machine jobType).exec (start ch) (List.replicate k (.select b)) =
      ⟨(b.selectWorker jobType ch).2, .returned (b.selectWorker jobType ch).1⟩ := by
  unfold Broker.selectWorker
  have hstep : (selectStep jobType b (start ch)).1 =
      ⟨ch, if ch.buf.length = 0 then .returned none else .scanning ch.buf.length []⟩ := rfl
  by_cases hlen : ch.buf.length = 0
  · refine ⟨1, ?_⟩
    rw [if_pos hlen] at hstep
    rw [if_pos hlen, exec_select, hstep]
    rfl
  · obtain ⟨k, hk⟩ := scanning_alone jobType b ch.buf.length [] ch
    refine ⟨k + 1, ?_⟩
    rw [if_neg hlen] at hstep
    rw [if_neg hlen, exec_select, hstep]
    exact hk

/-! ## Where the workers are -/

/-- The workers the call has in hand. -/
def Point.held : Point → List WorkerClient
  | .entry => []
  | .scanning _ skipped => skipped
  | .puttingBack skipped result => skipped ++ result.toList
  | .returned result => result.toList

def Event.sent? : Event → Option WorkerClient
  | .sent w => some w
  | .lost _ => none

def Event.lost? : Event → Option WorkerClient
  | .sent _ => none
  | .lost w => some w

/-- The next operation is a put-back. -/
def Point.putsBack : Point → Bool
  | .puttingBack (_ :: _) _ => true
  | _ => false

/-- If the step is a put-back, the channel has room for it. -/
def FindsRoom (s : State) : Act → Prop
  | .select _ => s.call.putsBack = true → s.available.buf.length < s.available.cap
  | .makeAvailable _ | .workerStart _ => True

theorem filterMap_sent_lost (l : List WorkerClient) : (l.map Event.lost).filterMap Event.sent? = [] := by
  induction l with
  | nil => rfl
  | cons w l ih => exact ih

theorem filterMap_lost_lost (l : List WorkerClient) : (l.map Event.lost).filterMap Event.lost? = l := by
  induction l with
  | nil => rfl
  | cons w l ih => exact congrArg (w :: ·) ih

/-- One step: what it takes out of the channel it has in hand or has lost. -/
theorem step_count (jobType : String) (s : State) (a : Act) (w : WorkerClient) :
    (step jobType s a).1.available.buf.count w + (step jobType s a).1.call.held.count w +
        ((step jobType s a).2.filterMap Event.lost?).count w =
      s.available.buf.count w + s.call.held.count w + ((step jobType s a).2.filterMap Event.sent?).count w := by
  have hsend : ∀ x, (send s x).1.available.buf.count w + (send s x).1.call.held.count w +
        ((send s x).2.filterMap Event.lost?).count w =
      s.available.buf.count w + s.call.held.count w + ((send s x).2.filterMap Event.sent?).count w := by
    intro x
    have hgot : [Event.sent x].filterMap Event.sent? = [x] := rfl
    have hnone : [Event.sent x].filterMap Event.lost? = [] := rfl
    simp only [send, Chan.buf_trySend]
    split
    · rw [hgot, hnone, List.count_append, List.count_nil]
      omega
    · rfl
  cases a with
  | makeAvailable x => exact hsend x
  | workerStart x => exact hsend x
  | select b =>
    obtain ⟨ch, call⟩ := s
    simp only [step]
    cases call with
    | entry =>
      simp only [selectStep]
      split <;> simp [Point.held]
    | scanning n skipped =>
      cases n with
      | zero => simp [selectStep, Point.held]
      | succ n =>
        simp only [selectStep]
        cases hrecv : ch.tryRecv with
        | none => simp [Point.held]
        | some p =>
          have hbuf : ch.buf = p.1 :: p.2.buf := Chan.tryRecv_eq_some hrecv
          dsimp only
          rw [hbuf]
          split <;> simp [Point.held, List.count_cons] <;> omega
    | puttingBack skipped result =>
      cases skipped with
      | nil => simp [selectStep, Point.held]
      | cons x skipped =>
        have hcount := ch.count_trySend x w
        simp only [selectStep, Point.held, filterMap_sent_lost, filterMap_lost_lost]
        rw [List.cons_append, ← List.singleton_append]
        simp only [List.count_append, List.count_nil]
        omega
    | returned result => simp [selectStep]

theorem run_count (jobType : String) (ch : Chan WorkerClient) (acts : List Act) (w : WorkerClient) :
    let s := (machine jobType).exec (start ch) acts
    let tr := (machine jobType).trace (start ch) acts
    s.available.buf.count w + s.call.held.count w + (tr.filterMap Event.lost?).count w =
      ch.buf.count w + (tr.filterMap Event.sent?).count w := by
  induction acts using List.reverseRecOn with
  | nil => simp [start, Point.held]
  | append_singleton acts a ih =>
    have hstep := step_count jobType ((machine jobType).exec (start ch) acts) a w
    simp only [Machine.exec_append, Machine.trace_append, List.filterMap_append, List.count_append]
    simp only [Machine.exec_cons, Machine.exec_nil, Machine.trace_cons, Machine.trace_nil, List.append_nil]
    simp only [machine] at ih hstep ⊢
    omega

/-- A step loses a worker exactly if it puts one back into a full channel. -/
theorem step_lost_eq_nil (jobType : String) (s : State) (a : Act) :
    (step jobType s a).2.filterMap Event.lost? = [] ↔ FindsRoom s a := by
  have hsend : ∀ x, (send s x).2.filterMap Event.lost? = [] := by
    intro x
    simp only [send]
    split <;> rfl
  cases a with
  | makeAvailable x => exact iff_of_true (hsend x) trivial
  | workerStart x => exact iff_of_true (hsend x) trivial
  | select b =>
    obtain ⟨ch, call⟩ := s
    simp only [step, FindsRoom]
    cases call with
    | entry => exact iff_of_true rfl nofun
    | returned result => exact iff_of_true rfl nofun
    | scanning n skipped =>
      refine iff_of_true ?_ nofun
      cases n with
      | zero => rfl
      | succ n =>
        simp only [selectStep]
        split <;> rfl
    | puttingBack skipped result =>
      cases skipped with
      | nil => exact iff_of_true rfl nofun
      | cons x skipped =>
        simp only [selectStep, filterMap_lost_lost, Chan.refused]
        split
        · rename_i hroom
          exact iff_of_true rfl fun _ => hroom
        · rename_i hroom
          exact iff_of_false (List.cons_ne_nil _ _) fun h => hroom (h rfl)

theorem run_lost_eq_nil (jobType : String) (s : State) (acts : List Act) :
    ((machine jobType).trace s acts).filterMap Event.lost? = [] ↔
      (machine jobType).EveryStep (fun _ s a => FindsRoom s a) s acts := by
  induction acts using List.reverseRecOn with
  | nil => simp
  | append_singleton acts a ih =>
    rw [Machine.trace_append, List.filterMap_append, List.append_eq_nil_iff, Machine.everyStep_snoc, ih,
      Machine.trace_cons, Machine.trace_nil, List.append_nil]
    exact and_congr_right fun _ => step_lost_eq_nil jobType _ a

/-- `SelectWorker` accounts for every worker, however often it is in the channel, exactly if every put-back finds
room: each one that was in the channel or was sent during the call is then returned or in the channel. -/
theorem selectWorker_accounts_iff (jobType : String) (ch : Chan WorkerClient) (acts : List Act)
    (result : Option WorkerClient) (hend : ((machine jobType).exec (start ch) acts).call = .returned result) :
    let final := ((machine jobType).exec (start ch) acts).available.buf
    let sent := ((machine jobType).trace (start ch) acts).filterMap Event.sent?
    ((∀ w, ch.buf.count w + sent.count w = result.toList.count w + final.count w) ↔
      (machine jobType).EveryStep (fun _ s a => FindsRoom s a) (start ch) acts) ∧
    ((machine jobType).EveryStep (fun _ s a => FindsRoom s a) (start ch) acts →
      ∀ w ∈ ch.buf ++ sent, result = some w ∨ w ∈ final) := by
  have hcount := run_count jobType ch acts
  have hlost := run_lost_eq_nil jobType (start ch) acts
  dsimp only at hcount ⊢
  rw [hend] at hcount
  generalize ((machine jobType).exec (start ch) acts).available.buf = final at hcount ⊢
  generalize ((machine jobType).trace (start ch) acts).filterMap Event.sent? = sent at hcount ⊢
  generalize ((machine jobType).trace (start ch) acts).filterMap Event.lost? = lost at hcount hlost
  have hiff : (∀ w, ch.buf.count w + sent.count w = result.toList.count w + final.count w) ↔
      (machine jobType).EveryStep (fun _ s a => FindsRoom s a) (start ch) acts := by
    rw [← hlost]
    simp only [Point.held] at hcount
    constructor
    · intro h
      refine List.eq_nil_iff_forall_not_mem.2 fun w hw => ?_
      have hpos := List.count_pos_iff.2 hw
      have hall := hcount w
      rw [h w] at hall
      omega
    · rintro rfl w
      have hall := hcount w
      rw [List.count_nil] at hall
      omega
  refine ⟨hiff, fun hroom w hw => ?_⟩
  have hpos := List.count_pos_iff.2 hw
  rw [List.count_append, hiff.2 hroom w] at hpos
  by_cases hres : result = some w
  · exact .inl hres
  · have hzero : result.toList.count w = 0 := List.count_eq_zero.2 fun hmem => hres (Option.mem_toList.1 hmem)
    exact .inr (List.count_pos_iff.1 (by omega))

/-- Worker 7 takes mails only. -/
def mailsOnly : Broker := Broker.new.registerWorker 7 ["mail"]

/-- Worker 8 becomes available while the call has worker 7 in hand, and takes its place in the channel. -/
def slotTaken : List Act :=
  [.select mailsOnly, .select mailsOnly, .makeAvailable ⟨8⟩, .select mailsOnly, .select mailsOnly, .select mailsOnly]

/-- The same with room for both. -/
theorem selectWorker_accounts_room :
    let s := (machine "report").exec (start ((Chan.make 2).trySend ⟨7⟩)) slotTaken
    s.call = .returned none ∧ ∀ w ∈ [⟨7⟩, ⟨8⟩], (none : Option WorkerClient) = some w ∨ w ∈ s.available.buf := by
  refine ⟨by decide +kernel, ?_⟩
  have hall := (selectWorker_accounts_iff "report" ((Chan.make 2).trySend ⟨7⟩) slotTaken none (by decide +kernel)).2
  refine hall ?_
  simp only [slotTaken, Machine.everyStep_cons, Machine.everyStep_nil, and_true, FindsRoom]
  decide +kernel

/-- In a channel with room for one, worker 7 is neither returned nor in the channel after the call. -/
theorem selectWorker_loses_worker :
    let s := (machine "report").exec (start ((Chan.make 1).trySend ⟨7⟩)) slotTaken
    ((Chan.make 1).trySend (⟨7⟩ : WorkerClient)).buf = [⟨7⟩] ∧ s.call = .returned none ∧ s.available.buf = [⟨8⟩] := by
  decide +kernel

end Selection

end Quorum
