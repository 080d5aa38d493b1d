/-
The inner loop of `dispatchLoop` run to its end, with nothing else running and every `Submit` accepted. A job
for which no waiting worker can be found goes back to the queue the loop pops from, the workers only get fewer
and the store does not change: such a job is found again and again. The loop ends exactly when no round meets
one, and then the queue is empty.
-/
import Quorum.Scheduler.Dispatch
import Quorum.Store.Memory

namespace Quorum.Scheduler

variable {σ : Type} [Store σ]

/-- One round with every `Submit` accepted. -/
def drainRound (now : Time) (s : Scheduler σ) : Scheduler σ := (s.dispatchLoop false now fun _ _ => none).1

/-- The inner loop with at most `fuel` calls of `Dequeue`: where it ends, or `none` if it is still running. -/
def drain (now : Time) : Nat → Scheduler σ → Option (Scheduler σ)
  | 0, _ => none
  | fuel + 1, s => if s.priorityQueue.peek = none then some s else drain now fuel (s.drainRound now)

/-- The job under this id is to be dispatched and no waiting worker can take it. -/
def Unplaceable (s : Scheduler σ) (id : Int) : Prop :=
  ∃ j, Store.get s.store id = some j ∧ j.status.isTerminal = false ∧ ∀ w ∈ s.available.buf, s.canHandle j.type w = false

/-- The next round pops a job it can place or drop. -/
def PlacesNext (s : Scheduler σ) : Prop := ∀ id, s.priorityQueue.peek = some id → ¬ s.Unplaceable id

/-- No job in the queue has a waiting worker that can take it. -/
def NoneStarved (s : Scheduler σ) : Prop :=
  ∀ id ∈ s.priorityQueue.ids, ∀ j, Store.get s.store id = some j → ∀ w ∈ s.available.buf, s.canHandle j.type w = false

/-! ## One round -/

theorem drainRound_round (now : Time) (s : Scheduler σ) :
    ∃ gs, DispatchRound now (fun _ _ => none) s (s.drainRound now) gs :=
  ⟨_, dispatchLoop_round now _ s⟩

theorem drainRound_store (now : Time) (s : Scheduler σ) : (s.drainRound now).store = s.store := by
  obtain ⟨gs, hround⟩ := drainRound_round now s
  exact hround.frame.1

/-- A job that cannot be placed stays so. -/
theorem Unplaceable.drainRound {now : Time} {s : Scheduler σ} {id : Int} (h : s.Unplaceable id) :
    (s.drainRound now).Unplaceable id := by
  obtain ⟨gs, hround⟩ := drainRound_round now s
  obtain ⟨hstore, hbroker, hsub⟩ := hround.frame
  obtain ⟨j, hj, hact, hcan⟩ := h
  refine ⟨j, by rw [hstore]; exact hj, hact, fun w hw => ?_⟩
  have hw' := hcan w (hsub w hw)
  unfold canHandle at hw' ⊢
  rw [hbroker]
  exact hw'

/-- It also stays in the queue. -/
theorem Unplaceable.mem_drainRound {now : Time} {s : Scheduler σ} {id : Int} (h : s.Unplaceable id)
    (hkeyed : Store.Keyed s.store) (hmem : id ∈ s.priorityQueue.ids) : id ∈ (s.drainRound now).priorityQueue.ids := by
  obtain ⟨gs, hround⟩ := drainRound_round now s
  obtain ⟨j, hj, hact, hcan⟩ := h
  generalize s.drainRound now = s' at hround
  cases hround with
  | idle => exact hmem
  | drop hd hended =>
    rw [(JobQueue.dequeue_some _ _ hd).2, Multiset.mem_cons] at hmem
    obtain rfl | hmem := hmem
    · rw [hended j hj] at hact; cases hact
    · exact hmem
  | pushBack hd hj' =>
    rw [(JobQueue.dequeue_some _ _ hd).2] at hmem
    rw [JobQueue.ids_enqueue, hkeyed _ _ hj']
    exact hmem
  | place hd hj' _ hw hperm =>
    rw [(JobQueue.dequeue_some _ _ hd).2, Multiset.mem_cons] at hmem
    obtain rfl | hmem := hmem
    · rw [hj] at hj'
      cases hj'
      rw [hcan _ (hperm.mem_iff.2 List.mem_cons_self)] at hw; cases hw
    · exact hmem
  | refuse _ _ _ _ _ hsubmit => cases hsubmit

/-- A round that pops a job it can place or drop leaves one job less in the queue. -/
theorem drainRound_card {now : Time} {s : Scheduler σ} (h : s.PlacesNext) (hne : s.priorityQueue.ids ≠ 0) :
    s.priorityQueue.ids.card = (s.drainRound now).priorityQueue.ids.card + 1 := by
  obtain ⟨gs, hround⟩ := drainRound_round now s
  generalize s.drainRound now = s' at hround
  cases hround with
  | idle hempty => exact absurd hempty hne
  | drop hd => rw [(JobQueue.dequeue_some _ _ hd).2, Multiset.card_cons]
  | pushBack hd hj hact hcan => exact absurd ⟨_, hj, hact, hcan⟩ (h _ (JobQueue.dequeue_some _ _ hd).1)
  | place hd => rw [(JobQueue.dequeue_some _ _ hd).2, Multiset.card_cons]
  | refuse _ _ _ _ _ hsubmit => cases hsubmit

/-! ## The whole loop -/

/-- A job that cannot be placed is in the queue. -/
def Stuck (s : Scheduler σ) : Prop := ∃ id ∈ s.priorityQueue.ids, s.Unplaceable id

theorem Stuck.drainRound {now : Time} {s : Scheduler σ} (hkeyed : Store.Keyed s.store) (h : s.Stuck) :
    (s.drainRound now).Stuck := by
  obtain ⟨id, hmem, hun⟩ := h
  exact ⟨id, hun.mem_drainRound hkeyed hmem, hun.drainRound⟩

theorem Stuck.drain_eq_none {now : Time} {s : Scheduler σ} (hkeyed : Store.Keyed s.store) (h : s.Stuck) (fuel : Nat) :
    s.drain now fuel = none := by
  induction fuel generalizing s with
  | zero => rfl
  | succ fuel ih =>
    have hpeek : s.priorityQueue.peek ≠ none := by
      intro hnone
      obtain ⟨k, hmem, -⟩ := h
      rw [JobQueue.peek_eq_none.1 hnone] at hmem
      exact absurd hmem (Multiset.notMem_zero k)
    simp only [drain, hpeek, if_false]
    exact ih (by rw [drainRound_store]; exact hkeyed) (h.drainRound hkeyed)

/-- Where the loop ends the queue is empty. -/
theorem drain_empty {now : Time} {fuel : Nat} {s s' : Scheduler σ} (h : s.drain now fuel = some s') :
    s'.priorityQueue.ids = 0 := by
  induction fuel generalizing s with
  | zero => cases h
  | succ fuel ih =>
    unfold drain at h
    split at h
    · rename_i hpeek
      cases h
      exact JobQueue.peek_eq_none.1 hpeek
    · exact ih h

/-- A round on an empty queue does nothing. -/
theorem drainRound_of_empty {now : Time} {s : Scheduler σ} (h : s.priorityQueue.peek = none) :
    s.drainRound now = s := by
  have hd := (JobQueue.dequeue_none priorityComparator s.store).2 (JobQueue.peek_eq_none.1 h)
  unfold drainRound dispatchLoop
  rw [hd]

/-- In a loop that ends no round pops a job that cannot be placed. -/
theorem placesNext_of_drain {now : Time} {fuel : Nat} {s s' : Scheduler σ} (hkeyed : Store.Keyed s.store)
    (h : s.drain now fuel = some s') (n : Nat) : ((drainRound now)^[n] s).PlacesNext := by
  induction fuel generalizing s n with
  | zero => cases h
  | succ fuel ih =>
    have hstuck : ¬ s.Stuck := fun hs => by rw [hs.drain_eq_none hkeyed] at h; cases h
    unfold drain at h
    split at h
    · rename_i hpeek
      rw [Function.iterate_fixed (drainRound_of_empty hpeek)]
      intro id hid
      rw [hpeek] at hid; cases hid
    · cases n with
      | zero =>
        intro id hid hun
        obtain ⟨q, -, hids⟩ := JobQueue.dequeue_of_peek priorityComparator s.store hid
        exact hstuck ⟨id, hids ▸ Multiset.mem_cons_self _ _, hun⟩
      | succ n =>
        rw [Function.iterate_succ_apply]
        exact ih (by rw [drainRound_store]; exact hkeyed) h n

/-- As many rounds as there are jobs are enough when each of them places or drops its job. -/
theorem drain_of_placesNext {now : Time} {s : Scheduler σ} (h : ∀ n, ((drainRound now)^[n] s).PlacesNext) :
    ∃ s', s.drain now (s.priorityQueue.ids.card + 1) = some s' := by
  induction hcard : s.priorityQueue.ids.card generalizing s with
  | zero =>
    refine ⟨s, ?_⟩
    rw [drain, if_pos (JobQueue.peek_eq_none.2 (Multiset.card_eq_zero.1 hcard))]
  | succ n ih =>
    have hne : s.priorityQueue.ids ≠ 0 := fun h0 => by rw [h0, Multiset.card_zero] at hcard; omega
    have hone : s.priorityQueue.ids.card = (s.drainRound now).priorityQueue.ids.card + 1 := drainRound_card (h 0) hne
    obtain ⟨s', hs'⟩ := ih (s := s.drainRound now) (fun k => h (k + 1)) (by omega)
    refine ⟨s', ?_⟩
    rw [drain, if_neg (fun hp => hne (JobQueue.peek_eq_none.1 hp)), hs']

/-- The drain ends, with no job left that a waiting worker could take, exactly if none of its rounds pops a job that
no waiting worker can take. -/
theorem drain_terminates_iff (now : Time) (s : Scheduler σ) (hkeyed : Store.Keyed s.store) :
    (∃ fuel s', s.drain now fuel = some s' ∧ s'.NoneStarved) ↔ ∀ n, ((drainRound now)^[n] s).PlacesNext := by
  constructor
  · rintro ⟨fuel, s', hend, -⟩ n
    exact placesNext_of_drain hkeyed hend n
  · intro h
    obtain ⟨s', hend⟩ := drain_of_placesNext h
    refine ⟨_, s', hend, fun id hid => ?_⟩
    rw [drain_empty hend] at hid
    exact absurd hid (Multiset.notMem_zero id)

/-- An e-mail of priority 5 and a text message of priority 1. -/
def mail : Job := { Job.zero with id := 1, type := "email", priority := 5, status := .pending }

def text : Job := { Job.zero with id := 2, type := "sms", priority := 1, status := .pending }

/-- Both jobs are stored and queued; the broker knows worker 7 for e-mails and worker 8 for text messages. -/
def twoTopics (available : Chan WorkerClient) : Scheduler MemoryStore :=
  let one := (orUnchanged Store.empty (Store.add Store.empty mail)).1
  let both := (orUnchanged one (Store.add one text)).1
  let broker := (Broker.new.registerWorker 7 ["email"]).registerWorker 8 ["sms"]
  ((new both available (some broker)).enqueueJob 1 .priority).enqueueJob 2 .priority

theorem twoTopics_keyed (available : Chan WorkerClient) : Store.Keyed (twoTopics available).store := by
  have hempty : Store.Keyed (Store.empty : MemoryStore) := Store.keyed_of_wf LawfulStore.wf_empty
  exact (hempty.add (j := mail) rfl).add (j := text) rfl

/-- With both workers waiting the two jobs are placed. -/
theorem drain_both_workers : let s := twoTopics ⟨2, [⟨8⟩, ⟨7⟩], by decide⟩
    (s.drain 0 3).isSome = true ∧ ∀ n, ((drainRound 0)^[n] s).PlacesNext := by
  intro s
  have hsome : (s.drain 0 3).isSome = true := by decide +kernel
  obtain ⟨s', hend⟩ := Option.isSome_iff_exists.1 hsome
  refine ⟨hsome, (drain_terminates_iff 0 s (twoTopics_keyed _)).1 ⟨3, s', hend, fun id hid => ?_⟩⟩
  rw [drain_empty hend] at hid
  exact absurd hid (Multiset.notMem_zero id)

/-- With only worker 8 waiting the loop pops and pushes back the e-mail for ever, while worker 8 could take the text
message behind it. -/
theorem drain_one_worker : let s := twoTopics ⟨2, [⟨8⟩], by decide⟩
    (¬ ∃ fuel s', s.drain 0 fuel = some s' ∧ s'.NoneStarved) ∧ s.priorityQueue.items = #[1, 2] ∧
      s.canHandle text.type ⟨8⟩ = true ∧ (s.drainRound 0).priorityQueue = s.priorityQueue ∧
      (s.drainRound 0).available.buf = [⟨8⟩] := by
  intro s
  have hitems : s.priorityQueue.items = #[1, 2] := by decide +kernel
  have hstuck : s.Stuck := by
    refine ⟨1, ?_, mail, by decide +kernel, rfl, ?_⟩
    · unfold JobQueue.ids
      rw [hitems]
      decide
    · intro w hw
      rw [List.mem_singleton.1 hw]
      decide +kernel
  refine ⟨?_, hitems, by decide +kernel, by decide +kernel, by decide +kernel⟩
  rintro ⟨fuel, s', hend, -⟩
  rw [hstuck.drain_eq_none (twoTopics_keyed _)] at hend
  cases hend

end Quorum.Scheduler
