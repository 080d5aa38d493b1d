/-
One job at a time per worker. `RegisterWorker` and `ReportResult` put a worker into `Available` without a look at what
is there or at what the worker is doing; `Dispatch` takes it out. A worker stands in the channel at most once, and only
while nothing it was given is outstanding, in exactly the runs in which each of these calls finds it outside the channel
and, apart from the execution that is reported, idle.
-/
import Quorum.Rpc.Fleet
import Quorum.Store.Memory

namespace Quorum.Fleet

variable {σ : Type} [Store σ]

/-- The executions dispatched to each worker that have not been reported, by job id. -/
abbrev Outstanding := Int → List Int

/-- A job that the worker has received is executed there: it was accepted, or `Submit` failed after the node had
`received` the request. -/
def noteGrant (received : Bool) (h : Outstanding) (g : Grant) : Outstanding :=
  if g.accepted || received then Function.update h g.lease.workerID (h g.lease.workerID ++ [g.job.id]) else h

/-- The history of a step: a report ends the execution it reports. -/
def noteOutstanding (timeout : Duration) (received : Bool) (h : Outstanding) (s : Fleet σ) (a : Act) : Outstanding :=
  match a with
  | .reportResult workerID r ctxDone =>
    if s.delivers ctxDone then Function.update h workerID ((h workerID).erase r.jobID) else h
  | .executionLost workerID jobID => Function.update h workerID ((h workerID).erase jobID)
  | a => (s.step timeout a).2.foldl (noteGrant received) h

/-- The control node with the outstanding executions. Beside each step stands whether a `Submit` of it that fails has
reached the worker all the same. -/
def oneJob (timeout : Duration) : Machine (Fleet σ × Outstanding) (Act × Bool) Grant :=
  ⟨fun p x => (((p.1.step timeout x.1).1, noteOutstanding timeout x.2 p.2 p.1 x.1), (p.1.step timeout x.1).2)⟩

/-- Each worker is in the channel at most once, and not while an execution dispatched to it is outstanding. -/
def AtMostOne (ws : List WorkerClient) (h : Outstanding) : Prop :=
  ∀ id, ws.count ⟨id⟩ ≤ 1 ∧ (h id ≠ [] → ws.count ⟨id⟩ = 0)

/-- The step, if it puts a worker into the channel, finds it outside and with nothing else to do. -/
def PutsIdle (s : Fleet σ) (h : Outstanding) : Act → Prop
  | .registerWorker id _ dialed _ =>
    dialed = true → s.available.buf.length < s.available.cap → s.available.buf.count ⟨id⟩ = 0 ∧ h id = []
  | .reportResult workerID r ctxDone =>
    s.delivers ctxDone = true → (s.workers.lookup workerID).isSome = true → s.available.buf.length < s.available.cap →
      s.available.buf.count ⟨workerID⟩ = 0 ∧ (h workerID).erase r.jobID = []
  | _ => True

/-! ## One step -/

namespace AtMostOne

variable {ws : List WorkerClient} {h : Outstanding}

theorem perm {ws' : List WorkerClient} (hperm : ws'.Perm ws) (hone : AtMostOne ws h) : AtMostOne ws' h := by
  intro id
  rw [hperm.count_eq]
  exact hone id

/-- Putting a worker into the channel. -/
theorem put_iff (hone : AtMostOne ws h) (id : Int) :
    AtMostOne (ws ++ [(⟨id⟩ : WorkerClient)]) h ↔ ws.count ⟨id⟩ = 0 ∧ h id = [] := by
  have hcount : ∀ k, (ws ++ [(⟨id⟩ : WorkerClient)]).count ⟨k⟩ = ws.count ⟨k⟩ + if k = id then 1 else 0 := by
    intro k
    rw [List.count_append, List.count_singleton]
    by_cases hk : k = id
    · simp [hk]
    · simp [hk, Ne.symm hk]
  constructor
  · intro hput
    obtain ⟨hle, hbusy⟩ := hput id
    rw [hcount, if_pos rfl] at hle hbusy
    refine ⟨by omega, ?_⟩
    by_contra hne
    have := hbusy hne
    omega
  · rintro ⟨hzero, hidle⟩ k
    obtain ⟨hle, hbusy⟩ := hone k
    rw [hcount]
    by_cases hk : k = id
    · subst hk
      rw [if_pos rfl]
      exact ⟨by omega, fun hne => absurd hidle hne⟩
    · rw [if_neg hk]
      exact ⟨by omega, fun hne => by have := hbusy hne; omega⟩

/-- A send to the channel puts the worker there if there is room. -/
theorem trySend_iff {ch : Chan WorkerClient} (hone : AtMostOne ch.buf h) (id : Int) :
    AtMostOne (ch.trySend ⟨id⟩).buf h ↔ (ch.buf.length < ch.cap → ch.buf.count ⟨id⟩ = 0 ∧ h id = []) := by
  rw [Chan.buf_trySend]
  split
  · rename_i hroom
    rw [hone.put_iff]
    exact ⟨fun hidle _ => hidle, fun hidle => hidle hroom⟩
  · rename_i hfull
    exact iff_of_true hone fun hroom => absurd hroom hfull

/-- An execution that ends leaves less outstanding. -/
theorem erase (hone : AtMostOne ws h) (id jobID : Int) : AtMostOne ws (Function.update h id ((h id).erase jobID)) := by
  intro k
  obtain ⟨hle, hbusy⟩ := hone k
  refine ⟨hle, fun hne => hbusy fun hnil => hne ?_⟩
  by_cases hk : k = id
  · subst hk
    rw [Function.update_self, hnil]
    rfl
  · rw [Function.update_of_ne hk]
    exact hnil

/-- A dispatch takes the worker out. -/
theorem take (hone : AtMostOne ws h) {w : WorkerClient} {rest : List WorkerClient} (hperm : ws.Perm (w :: rest))
    (jobs : List Int) : AtMostOne rest (Function.update h w.id jobs) := by
  intro k
  obtain ⟨hle, hbusy⟩ := hone k
  rw [hperm.count_eq, List.count_cons] at hle hbusy
  by_cases hk : k = w.id
  · subst hk
    rw [if_pos (by simp)] at hle
    exact ⟨by omega, fun _ => by omega⟩
  · rw [Function.update_of_ne hk]
    exact ⟨by omega, fun hne => by have := hbusy hne; omega⟩

end AtMostOne

theorem dispatchLoop_atMostOne {timeout : Duration} {s : Fleet σ} {h : Outstanding} (hone : AtMostOne s.available.buf h)
    (now : Time) (submit : WorkerClient → Job → Option String) (received : Bool) :
    AtMostOne (s.step timeout (.dispatchLoop now submit)).1.available.buf
      (noteOutstanding timeout received h s (.dispatchLoop now submit)) := by
  have hround := Scheduler.dispatchLoop_round now submit s.scheduler
  show AtMostOne (s.scheduler.dispatchLoop false now submit).1.available.buf
    ((s.scheduler.dispatchLoop false now submit).2.foldl (noteGrant received) h)
  generalize (s.scheduler.dispatchLoop false now submit).1 = s' at hround
  generalize (s.scheduler.dispatchLoop false now submit).2 = gs at hround
  cases hround with
  | idle => exact hone
  | drop => exact hone
  | pushBack _ _ _ _ hperm => exact hone.perm hperm
  | place _ _ _ _ hperm => exact hone.take hperm _
  | @refuse _ _ _ w _ _ _ _ _ hperm =>
    cases received with
    | true => exact hone.take hperm _
    | false =>
      have htake := hone.take hperm (h w.id)
      rw [Function.update_eq_self] at htake
      exact htake

/-- What holds before a step holds after it exactly if the step puts no worker into the channel that is there or
busy. -/
theorem step_atMostOne_iff {timeout : Duration} {s : Fleet σ} {h : Outstanding} (hone : AtMostOne s.available.buf h)
    (received : Bool) (a : Act) :
    AtMostOne (s.step timeout a).1.available.buf (noteOutstanding timeout received h s a) ↔ PutsIdle s h a := by
  -- a step that does not put anything into the channel
  have hsame : ∀ {t : Fleet σ}, t.available = s.available → (AtMostOne t.available.buf h ↔ True) := by
    intro t ht
    rw [ht]
    exact iff_true_intro hone
  cases a with
  | registerWorker id topics dialed now =>
    simp only [step, noteOutstanding, List.foldl_nil, registerWorker, PutsIdle]
    cases dialed with
    | false => exact iff_of_true hone fun hdialed => by cases hdialed
    | true =>
      have hsend : AtMostOne (s.available.trySend ⟨id⟩).buf h ↔ _ := hone.trySend_iff id
      exact hsend.trans ⟨fun hidle _ => hidle, fun hidle => hidle rfl⟩
  | remove id => exact hsame rfl
  | heartbeat id now => exact hsame (congrArg (fun e => e.scheduler.available) (s.heartbeat_frame id now).1)
  | monitorWorker id now =>
    exact hsame (congrArg (fun e => e.scheduler.available) (s.monitorWorker_frame timeout now id).1)
  | dispatchLoop now submit => exact iff_of_true (dispatchLoop_atMostOne hone now submit received) trivial
  | reportResult workerID r ctxDone =>
    simp only [step, noteOutstanding, reportResult, PutsIdle]
    by_cases hdel : s.delivers ctxDone = true
    · rw [if_pos hdel, if_pos hdel]
      have hless := hone.erase workerID r.jobID
      cases hreg : (s.workers.lookup workerID).isSome with
      | false => exact iff_of_true hless fun _ hsome => by cases hsome
      | true =>
        have hsend := hless.trySend_iff workerID
        rw [Function.update_self] at hsend
        exact hsend.trans ⟨fun hidle _ _ => hidle, fun hidle => hidle hdel rfl⟩
    · rw [if_neg hdel, if_neg hdel]
      exact iff_of_true hone fun hd => absurd hd hdel
  | executionLost workerID jobID => exact iff_of_true (hone.erase workerID jobID) trivial
  | resultLoop now =>
    cases hrecv : s.results.tryRecv with
    | none =>
      simp only [step, noteOutstanding, hrecv]
      exact hsame rfl
    | some p =>
      simp only [step, noteOutstanding, hrecv]
      exact hsame (resultLoop_frame now p.1 s.scheduler).1
  | receiveDead =>
    have hnil : (s.step timeout .receiveDead).2 = [] := step_grants_nil fun _ _ heq => by cases heq
    simp only [noteOutstanding, hnil, List.foldl_nil]
    exact hsame (congrArg (fun e => e.scheduler.available) (s.receiveDead_frame timeout).1)
  | recover ord =>
    cases hrec : s.recovering with
    | none =>
      simp only [step, noteOutstanding, hrec]
      exact hsame rfl
    | some id =>
      simp only [step, noteOutstanding, hrec]
      exact hsame (recoveryLoop_frame ord id s.scheduler).1
  | jobCall raft c => exact hsame (jobCall_frame raft c s.engine).1

/-! ## Runs -/

end Quorum.Fleet
