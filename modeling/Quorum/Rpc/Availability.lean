/-
Which workers stay in service. A place of a worker is an entry of `Available`, a worker in the dispatcher's hand, or
work that will bring the worker back. Every step keeps the book of places: they move, and are lost only where the
source drops a worker. So a worker is lost exactly when its last place is dropped, which a failed dispatch does.
-/
import Quorum.Rpc.Pool

namespace Quorum

namespace Pool

/-! ## Who is in service -/

def Registered (s : Pool) (c : Client) : Prop := s.workers.lookup c.id = some c

/-- The worker executes a job, is about to advertise itself, or has a result under way. -/
def Occupied (s : Pool) : Client → Prop
  | .inProcess id => s.goroutine id = some .advertising ∨ ∃ j, s.goroutine id = some (.executing j)
  | .remote id => (s.node id).executing ≠ [] ∨ (s.node id).results.buf ≠ [] ∨ (s.node id).reporting ≠ none

/-- A worker that is not occupied is in the channel, or during a dispatch in the dispatcher's hand. -/
def InService (s : Pool) (c : Client) : Prop :=
  s.Registered c → ¬ s.Occupied c → c ∈ s.available.buf ∨ c ∈ s.dispatcher.hand

/-! ## The places of a worker -/

end Pool

def Goroutine.load : Goroutine → Nat
  | .advertising | .executing _ => 1
  | .advertised | .receiving => 0

def WorkerNode.load (n : WorkerNode) : Nat := n.executing.length + n.results.buf.length + n.reporting.toList.length

namespace Pool

def load (s : Pool) : Client → Nat
  | .inProcess id => (s.goroutine id).elim 0 Goroutine.load
  | .remote id => (s.node id).load

/-- How often a worker is there: at work, in the channel, in the dispatcher's hand. -/
def places (s : Pool) (c : Client) : Nat := s.load c + s.available.buf.count c + s.dispatcher.hand.count c

/-- The worker that loses a place by a step: a send finds the channel full, a `Submit` does not reach the worker, a
result is not kept or not delivered. -/
def dropped (s : Pool) : Act → Option Client
  | .registerWorker id _ true => s.available.refused (.remote id)
  | .selectNext =>
    match s.dispatcher with
    | .puttingBack _ (w :: _) _ => s.available.refused w
    | _ => none
  | .submit call =>
    match s.dispatcher with
    | .submitting _ (.inProcess id) =>
      match call.ctxDone, s.goroutine id with
      | false, some .receiving => none
      | _, _ => some (.inProcess id)
    | .submitting _ (.remote id) => if call.rpc.received then none else some (.remote id)
    | _ => none
  | .nodeFinish id i err =>
    match (s.node id).executing[i]? with
    | some j => ((s.node id).results.refused (Runner.result j err)).map fun _ => .remote id
    | none => none
  | .reportResult id delivered =>
    match (s.node id).reporting with
    | some _ =>
      if delivered = true ∧ s.workers.lookup id = some (.remote id) then s.available.refused (.remote id)
      else some (.remote id)
    | none => none
  | _ => none

/-- The worker that gets a new place by a step. A reported result makes whatever worker is registered under the id
available, which need not be the one that reported. -/
def granted (s : Pool) : Act → Option Client
  | .registerWorker id _ true => some (.remote id)
  | .reportResult id true =>
    match (s.node id).reporting, s.workers.lookup id with
    | some _, some w =>
      if w = .remote id ∨ ¬ s.available.buf.length < s.available.cap then none else some w
    | _, _ => none
  | _ => none

/-- The worker that a call registers. -/
def Act.registers : Act → Option Client
  | .registerWorker id _ true => some (.remote id)
  | _ => none

section
variable {s : Pool} {c : Client} {id : Int}

theorem load_pos : 0 < s.load c ↔ s.Occupied c := by
  cases c with
  | inProcess id =>
    simp only [load, Occupied]
    cases s.goroutine id with
    | none => simp
    | some g => cases g <;> simp [Goroutine.load]
  | remote id =>
    simp only [load, Occupied, WorkerNode.load]
    cases (s.node id).reporting with
    | none =>
      rw [← List.length_pos_iff, ← List.length_pos_iff]
      simp only [Option.toList, List.length_nil, ne_eq, not_true_eq_false, or_false]
      omega
    | some r => simp

/-- A worker is in service as long as it has a place. -/
theorem inService_iff : s.InService c ↔ (s.Registered c → 0 < s.places c) := by
  have hcount : 0 < s.places c ↔ s.Occupied c ∨ c ∈ s.available.buf ∨ c ∈ s.dispatcher.hand := by
    rw [← load_pos, ← List.count_pos_iff, ← List.count_pos_iff, places]
    omega
  exact forall_congr' fun _ => or_iff_not_imp_left.symm.trans hcount.symm

theorem places_makeAvailable (w : Client) :
    (s.makeAvailable w).places c + (s.available.refused w).toList.count c = s.places c + [w].count c := by
  have hcount := s.available.count_trySend w c
  have hplaces : (s.makeAvailable w).places c =
      s.load c + (s.available.trySend w).buf.count c + s.dispatcher.hand.count c := rfl
  rw [hplaces, places]
  omega

/-- The goroutine of one worker moves: `a` of its places go and `b` come. -/
theorem places_setGoroutine {g₀ : Goroutine} (hg : s.goroutine id = some g₀) (g : Goroutine) (a b : Nat)
    (h : g.load + a = g₀.load + b) (c : Client) :
    (s.setGoroutine id g).places c + a * [Client.inProcess id].count c =
      s.places c + b * [Client.inProcess id].count c := by
  by_cases hc : c = .inProcess id
  · subst hc
    simp only [places, load, setGoroutine, Function.update_self, hg, Option.elim, List.count_singleton_self]
    omega
  · rw [List.count_eq_zero.2 fun hmem => hc (List.mem_singleton.1 hmem)]
    cases c with
    | inProcess id' =>
      have hne : id' ≠ id := fun h => hc (by rw [h])
      simp only [places, load, setGoroutine, Function.update_of_ne hne, Nat.mul_zero]
    | remote id' => rfl

/-- The same for a worker node. -/
theorem places_setNode (s : Pool) (id : Int) (n : WorkerNode) (a b : Nat) (h : n.load + a = (s.node id).load + b)
    (c : Client) :
    (s.setNode id n).places c + a * [Client.remote id].count c = s.places c + b * [Client.remote id].count c := by
  by_cases hc : c = .remote id
  · subst hc
    simp only [places, load, setNode, Function.update_self, List.count_singleton_self]
    omega
  · rw [List.count_eq_zero.2 fun hmem => hc (List.mem_singleton.1 hmem)]
    cases c with
    | inProcess id' => rfl
    | remote id' =>
      have hne : id' ≠ id := fun h => hc (by rw [h])
      simp only [places, load, setNode, Function.update_of_ne hne, Nat.mul_zero]

theorem places_setDispatcher (d : Dispatcher) :
    { s with dispatcher := d }.places c + s.dispatcher.hand.count c = s.places c + d.hand.count c := by
  have hplaces : { s with dispatcher := d }.places c = s.load c + s.available.buf.count c + d.hand.count c := rfl
  rw [hplaces, places]
  omega

theorem places_selectNext :
    s.selectNext.places c + (s.dropped .selectNext).toList.count c = s.places c := by
  unfold selectNext
  simp only [dropped]
  cases hdisp : s.dispatcher with
  | idle | submitting _ _ => rfl
  | selecting j n skipped =>
    have hsame : { s with dispatcher := .puttingBack j skipped none }.places c = s.places c := by
      have h := places_setDispatcher (s := s) (c := c) (.puttingBack j skipped none)
      simp only [hdisp, Dispatcher.hand, Option.toList, List.append_nil] at h
      omega
    cases n with
    | zero => exact hsame
    | succ n =>
      dsimp only
      cases hrecv : s.available.tryRecv with
      | none => exact hsame
      | some p =>
        obtain ⟨w, ch⟩ := p
        dsimp only
        -- from the channel to the hand
        have hmove : ∀ {d : Dispatcher}, d.hand = skipped ++ [w] →
            { s with available := ch, dispatcher := d }.places c = s.places c := by
          intro d hd
          have hold : s.dispatcher.hand = skipped := by rw [hdisp]; rfl
          simp only [places, load, hd, hold, Chan.tryRecv_eq_some hrecv, List.count_append, List.count_cons,
            List.count_nil]
          omega
        split
        · exact hmove rfl
        · exact hmove rfl
  | puttingBack j skipped found =>
    cases skipped with
    | nil =>
      cases found with
      | none =>
        have h := places_setDispatcher (s := s) (c := c) .idle
        rw [hdisp] at h
        exact h
      | some w =>
        have h := places_setDispatcher (s := s) (c := c) (.submitting j w)
        rw [hdisp] at h
        exact Nat.add_right_cancel h
    | cons w skipped =>
      have hsend := places_makeAvailable (s := s) (c := c) w
      have h := places_setDispatcher (s := s.makeAvailable w) (c := c) (.puttingBack j skipped found)
      rw [show (s.makeAvailable w).dispatcher = s.dispatcher from rfl, hdisp] at h
      simp only [Dispatcher.hand, List.cons_append, List.count_cons, List.count_nil] at h hsend
      dsimp only
      omega

/-- `Submit` gives the worker work, or drops it. -/
theorem places_submit (call : SubmitCall) {w : Client} {j : Job} (hdisp : s.dispatcher = .submitting j w) :
    (s.submit call w j).1.places c + (s.dropped (.submit call)).toList.count c = s.places c + [w].count c := by
  cases w with
  | inProcess id =>
    simp only [dropped, hdisp, submit]
    cases hctx : call.ctxDone with
    | true => rfl
    | false =>
      simp only [Bool.false_eq_true, if_false]
      cases hg : s.goroutine id with
      | none => rfl
      | some g =>
        cases g with
        | advertising | advertised | executing _ => rfl
        | receiving =>
          have h := places_setGoroutine hg (.executing j) 0 1 rfl c
          rw [Nat.zero_mul, Nat.one_mul] at h
          exact h
  | remote id =>
    simp only [dropped, hdisp, submit]
    cases hrec : call.rpc.received with
    | false => rfl
    | true =>
      have h := places_setNode s id { s.node id with executing :=
        (s.node id).executing ++ [Rpc.receivedJob (Rpc.submitRequest (Client.remote id).toWorkerClient j).decoded] } 0 1
        (by simp only [WorkerNode.load, List.length_append, List.length_singleton]; omega) c
      rw [Nat.zero_mul, Nat.one_mul] at h
      exact h

theorem places_requeue (id : Int) :
    (s.requeue id).places c + ((s.workers.lookup id).bind s.available.refused).toList.count c =
      s.places c + (s.workers.lookup id).toList.count c := by
  unfold requeue
  cases s.workers.lookup id with
  | none => rfl
  | some w => exact places_makeAvailable w

/-- A result that is not kept takes the place of its worker with it. -/
theorem places_finish {i : Nat} {j : Job} (hj : (s.node id).executing[i]? = some j) (err : Option ExecError) :
    (s.setNode id { s.node id with
        executing := (s.node id).executing.eraseIdx i
        results := (s.node id).results.trySend (Runner.result j err) }).places c +
      (((s.node id).results.refused (Runner.result j err)).map fun _ => Client.remote id).toList.count c =
          s.places c := by
  have hsend := (s.node id).results.length_trySend (Runner.result j err)
  have hlen := List.length_eraseIdx_add_one (List.getElem?_eq_some_iff.1 hj).1
  cases href : (s.node id).results.refused (Runner.result j err) with
  | none =>
    rw [href, Option.toList_none, List.length_nil] at hsend
    have h := places_setNode s id { s.node id with
      executing := (s.node id).executing.eraseIdx i
      results := (s.node id).results.trySend (Runner.result j err) } 0 0 (by simp only [WorkerNode.load]; omega) c
    rw [Nat.zero_mul] at h
    exact h
  | some r =>
    rw [href, Option.toList_some, List.length_singleton] at hsend
    have h := places_setNode s id { s.node id with
      executing := (s.node id).executing.eraseIdx i
      results := (s.node id).results.trySend (Runner.result j err) } 1 0 (by simp only [WorkerNode.load]; omega) c
    rw [Nat.zero_mul, Nat.one_mul] at h
    exact h

/-- A result that was reported is no longer under way. -/
theorem places_reported {r : Result} (hrep : (s.node id).reporting = some r) :
    (s.setNode id { s.node id with reporting := none }).places c + [Client.remote id].count c = s.places c := by
  have hload : WorkerNode.load { s.node id with reporting := none } + 1 = (s.node id).load + 0 := by
    simp only [WorkerNode.load, hrep, Option.toList_none, Option.toList_some, List.length_nil, List.length_singleton]
  have h := places_setNode s id { s.node id with reporting := none } 1 0 hload c
  rw [Nat.zero_mul, Nat.one_mul] at h
  exact h

theorem places_reportResult (id : Int) (delivered : Bool) :
    (s.step (.reportResult id delivered)).1.places c + (s.dropped (.reportResult id delivered)).toList.count c =
      s.places c + (s.granted (.reportResult id delivered)).toList.count c := by
  simp only [step, dropped]
  cases hrep : (s.node id).reporting with
  | none =>
    cases delivered with
    | false => rfl
    | true =>
      simp only [granted, hrep]
  | some r =>
    have hnode := places_reported (c := c) hrep
    cases delivered with
    | false =>
      simp only [Bool.false_eq_true, false_and, if_false, granted]
      exact hnode
    | true =>
      have hreq := places_requeue (s := s.setNode id { s.node id with reporting := none }) (c := c) id
      rw [show (s.setNode id { s.node id with reporting := none }).workers = s.workers from rfl,
        show (s.setNode id { s.node id with reporting := none }).available = s.available from rfl] at hreq
      simp only [if_true, true_and, granted, hrep]
      generalize s.setNode id { s.node id with reporting := none } = s₁ at hnode hreq
      cases hlookup : s.workers.lookup id with
      | none =>
        simp only [hlookup, Option.bind_none, Option.toList_none, List.count_nil] at hreq
        simp only [reduceCtorEq, if_false, Option.toList_some, Option.toList_none, List.count_nil]
        omega
      | some w =>
        simp only [hlookup, Option.bind_some, Option.toList_some] at hreq
        by_cases hw : w = .remote id
        · subst hw
          simp only [true_or, if_true, Option.toList_none, List.count_nil]
          omega
        · by_cases hroom : s.available.buf.length < s.available.cap
          · simp only [Chan.refused, if_pos hroom, Option.toList_none, List.count_nil] at hreq
            simp only [Option.some.injEq, hw, if_false, false_or, hroom, not_true_eq_false, Option.toList_some]
            omega
          · simp only [Chan.refused, if_neg hroom, Option.toList_some] at hreq
            simp only [Option.some.injEq, hw, if_false, hroom, not_false_eq_true, or_true, if_true, Option.toList_some,
              Option.toList_none, List.count_nil]
            omega

/-- The book of a step: no place of a worker comes or goes but those granted and dropped. -/
theorem places_step (s : Pool) (a : Act) (c : Client) :
    (s.step a).1.places c + (s.dropped a).toList.count c = s.places c + (s.granted a).toList.count c := by
  cases a with
  | registerWorker id topics dialed =>
    cases dialed with
    | false => rfl
    | true => exact places_makeAvailable (s := s.register (.remote id) topics) (.remote id)
  | remove id => rfl
  | dispatch j =>
    simp only [step, dispatch]
    cases hdisp : s.dispatcher with
    | idle =>
      dsimp only
      split
      · rfl
      · have h := places_setDispatcher (s := s) (c := c) (.selecting j s.available.buf.length [])
        rw [hdisp] at h
        exact h
    | selecting _ _ _ | puttingBack _ _ _ | submitting _ _ => rfl
  | selectNext => exact places_selectNext
  | submit call =>
    simp only [step]
    cases hdisp : s.dispatcher with
    | idle | selecting _ _ _ | puttingBack _ _ _ =>
      simp only [dropped, hdisp]
      rfl
    | submitting j w =>
      have hsub := places_submit (c := c) call hdisp
      have h := places_setDispatcher (s := (s.submit call w j).1) (c := c) .idle
      rw [(submit_frame call w j).1, hdisp] at h
      simp only [Dispatcher.hand, List.count_nil] at h
      simp only [granted, Option.toList_none, List.count_nil]
      omega
  | advertise id =>
    simp only [step]
    cases hg : s.goroutine id with
    | none => rfl
    | some g =>
      cases g with
      | advertised | receiving | executing _ => rfl
      | advertising =>
        dsimp only
        split
        · rename_i hroom
          have hsend := places_makeAvailable (s := s) (c := c) (.inProcess id)
          have h := places_setGoroutine (s := s.makeAvailable (.inProcess id)) hg .advertised 1 0 rfl c
          rw [Chan.refused, if_pos hroom, Option.toList_none, List.count_nil] at hsend
          simp only [dropped, granted, Option.toList_none, List.count_nil]
          omega
        · rfl
  | receive id =>
    simp only [step]
    split
    · rename_i hg
      have h := places_setGoroutine hg .receiving 0 0 rfl c
      rw [Nat.zero_mul] at h
      exact h
    · rfl
  | finish id =>
    simp only [step]
    split
    · rename_i j hg
      have h := places_setGoroutine hg .advertising 0 0 rfl c
      rw [Nat.zero_mul] at h
      exact h
    · rfl
  | nodeFinish id i err =>
    simp only [step, dropped]
    cases hj : (s.node id).executing[i]? with
    | none => rfl
    | some j => exact places_finish hj err
  | forward id =>
    simp only [step]
    split
    · rename_i r ch hrep hrecv
      have hload : WorkerNode.load { s.node id with results := ch, reporting := some r } + 0 =
          (s.node id).load + 0 := by
        simp only [WorkerNode.load, hrep, Chan.tryRecv_eq_some hrecv, Option.toList_none, Option.toList_some,
          List.length_cons, List.length_nil]
        omega
      have h := places_setNode s id { s.node id with results := ch, reporting := some r } 0 0 hload c
      rw [Nat.zero_mul] at h
      exact h
    · rfl
  | reportResult id delivered => exact places_reportResult id delivered

theorem selectNext_workers : s.selectNext.workers = s.workers := by
  unfold selectNext
  split
  · rfl
  · split
    · rfl
    · split <;> rfl
  · rfl
  · rfl
  · rfl
  · rfl
  · rfl

theorem requeue_workers (id : Int) : (s.requeue id).workers = s.workers := by
  unfold requeue
  split <;> rfl

/-- Only a registration and a removal change the table of workers. -/
theorem workers_step (s : Pool) (a : Act) :
    (s.step a).1.workers =
      match a with
      | .registerWorker id _ true => s.workers.insert id (.remote id)
      | .remove id => s.workers.erase id
      | _ => s.workers := by
  cases a with
  | registerWorker id topics dialed => cases dialed <;> rfl
  | remove id => rfl
  | dispatch j =>
    simp only [step, dispatch]
    split
    · split <;> rfl
    · rfl
  | selectNext => exact selectNext_workers
  | submit call =>
    simp only [step]
    split
    · rename_i j w _
      exact (submit_frame call w j).2.1
    · rfl
  | advertise id =>
    simp only [step]
    split
    · split <;> rfl
    · rfl
  | receive id | finish id | nodeFinish id i err | forward id =>
    simp only [step]
    split <;> rfl
  | reportResult id delivered =>
    simp only [step]
    split
    · split
      · exact requeue_workers id
      · rfl
    · rfl

/-- A worker gets registered by `RegisterWorker`, which makes it available. -/
theorem Registered.of_step {a : Act} (h : (s.step a).1.Registered c) : s.Registered c ∨ s.granted a = some c := by
  unfold Registered at h
  rw [workers_step] at h
  split at h
  · rw [GoMap.lookup_insert_ite] at h
    split at h
    · exact .inr h
    · exact .inl h
  · rw [GoMap.lookup_erase_ite] at h
    split at h
    · cases h
    · exact .inl h
  · exact .inl h

/-- Of the steps that drop a worker only `RegisterWorker`, whose worker finds no room in the channel, changes who is
registered. -/
theorem registered_step_iff {a : Act} (hd : s.dropped a = some c) :
    (s.step a).1.Registered c ↔ s.Registered c ∨ a.registers = some c := by
  unfold Registered
  rw [workers_step]
  split
  · rename_i id topics
    have hc : Client.remote id = c := by
      simp only [dropped, Chan.refused] at hd
      split at hd
      · cases hd
      · exact Option.some.inj hd
    subst hc
    exact iff_of_true ((GoMap.lookup_insert_ite ..).trans (if_pos rfl)) (.inr rfl)
  · cases hd
  · rename_i hother _
    refine (or_iff_left ?_).symm
    unfold Act.registers
    split
    · exact absurd rfl (hother _ _)
    · exact nofun

/-- The worker is in service after a step, or the step dropped its last place. -/
theorem inService_step (h : s.InService c) (a : Act) :
    (s.step a).1.InService c ↔
      (s.dropped a = some c → s.Registered c ∨ a.registers = some c →
        1 < s.places c + (s.granted a).toList.count c) := by
  have hbook := places_step s a c
  rw [inService_iff] at h ⊢
  by_cases hd : s.dropped a = some c
  · rw [hd, Option.toList_some, List.count_singleton_self] at hbook
    rw [registered_step_iff hd]
    refine ⟨fun hs _ hreg => ?_, fun hs hreg => ?_⟩
    · have hpos := hs hreg
      omega
    · have hmore := hs hd hreg
      omega
  · rw [List.count_eq_zero.2 fun hmem => hd (Option.mem_toList.1 hmem)] at hbook
    refine iff_of_true (fun hreg => ?_) fun hd' => absurd hd' hd
    rcases hreg.of_step with hold | hnew
    · have hpos := h hold
      omega
    · rw [hnew, Option.toList_some, List.count_singleton_self] at hbook
      omega

end

/-! ## Runs -/

section
variable {workerCount : Nat} {buffer : Int → Nat} {c : Client}

theorem registered_start (h : (start workerCount buffer).Registered c) : ∃ i < workerCount, c = .inProcess (i + 1) := by
  have hfold : ∀ (l : List Nat) (s : Pool),
      (l.foldl (fun (s : Pool) (i : Nat) => s.register (.inProcess (i + 1)) ["*"]) s).Registered c →
        s.Registered c ∨ ∃ i ∈ l, c = .inProcess (i + 1) := by
    intro l
    induction l with
    | nil => exact fun s h => .inl h
    | cons i l ih =>
      intro s h
      rcases ih _ h with hreg | ⟨i', hi', hc⟩
      · have hins : (s.workers.insert ((i : Int) + 1) (Client.inProcess (i + 1))).lookup c.id = some c := hreg
        rw [GoMap.lookup_insert_ite] at hins
        split at hins
        · cases hins
          exact .inr ⟨i, List.mem_cons_self, rfl⟩
        · exact .inl hins
      · exact .inr ⟨i', List.mem_cons_of_mem _ hi', hc⟩
  rcases hfold (List.range workerCount) (empty buffer) h with hnone | ⟨i, hi, hc⟩
  · cases hnone
  · exact ⟨i, List.mem_range.1 hi, hc⟩

theorem inService_start (c : Client) : (start workerCount buffer).InService c := by
  intro hreg hfree
  obtain ⟨i, hi, rfl⟩ := registered_start hreg
  refine absurd (.inl (if_pos ?_)) hfree
  omega

end

theorem inService_run_iff {s₀ : Pool} (h₀ : ∀ c, s₀.InService c) (acts : List Act) :
    (∀ pre, pre <+: acts → ∀ c, (pool.exec s₀ pre).InService c) ↔
      pool.EveryStep (fun _ s a => ∀ c, s.dropped a = some c → s.Registered c ∨ a.registers = some c →
        1 < s.places c + (s.granted a).toList.count c) s₀ acts :=
  Machine.everyPrefix_iff (M := pool) (P := fun s => ∀ c, s.InService c) (Q := fun _ => True) trivial h₀
    (fun _ _ _ => trivial)
    (fun _ a _ hs => forall_congr' fun c => inService_step (hs c) a) acts

/-- No registered worker is lost if and only if each step that drops a place of a worker, which is registered or is
being registered, leaves it another one: a worker with a single place is lost by the first `Submit` that fails, send
that finds the channel full or result that does not arrive. -/
theorem none_lost_iff (workerCount : Nat) (buffer : Int → Nat) (acts : List Act) :
    (∀ pre, pre <+: acts → ∀ c, (pool.exec (start workerCount buffer) pre).InService c) ↔
      pool.EveryStep (fun _ s a => ∀ c, s.dropped a = some c → s.Registered c ∨ a.registers = some c →
        1 < s.places c + (s.granted a).toList.count c) (start workerCount buffer) acts :=
  inService_run_iff inService_start acts

theorem places_start_le (workerCount : Nat) (buffer : Int → Nat) (c : Client) :
    (start workerCount buffer).places c ≤ 1 := by
  have hfold : ∀ (l : List Nat) (s : Pool),
      (l.foldl (fun (s : Pool) (i : Nat) => s.register (.inProcess (i + 1)) ["*"]) s).node = s.node ∧
        (l.foldl (fun (s : Pool) (i : Nat) => s.register (.inProcess (i + 1)) ["*"]) s).available = s.available ∧
        (l.foldl (fun (s : Pool) (i : Nat) => s.register (.inProcess (i + 1)) ["*"]) s).dispatcher = s.dispatcher := by
    intro l
    induction l with
    | nil => exact fun s => ⟨rfl, rfl, rfl⟩
    | cons i l ih => exact fun s => ih _
  obtain ⟨hnode, havail, hdisp⟩ := hfold (List.range workerCount) (empty buffer)
  have hload : (start workerCount buffer).load c ≤ 1 := by
    cases c with
    | inProcess id =>
      simp only [load, start]
      split
      · exact Nat.le_refl 1
      · exact Nat.zero_le 1
    | remote id =>
      simp only [load, start, hnode]
      exact Nat.zero_le _
  simp only [places, start] at hload ⊢
  rw [havail, hdisp]
  exact hload

/-- A worker that registers once has one place at a time. Then it stays available exactly as long as it is not
dropped. -/
theorem none_lost_single_iff {workerCount : Nat} {buffer : Int → Nat} {acts : List Act}
    (honce : pool.EveryStep (fun _ s a => ∀ c, s.granted a = some c → s.places c = 0) (start workerCount buffer) acts) :
    (∀ pre, pre <+: acts → ∀ c, (pool.exec (start workerCount buffer) pre).InService c) ↔
      pool.EveryStep (fun _ s a => ∀ c, s.dropped a = some c → ¬ (s.Registered c ∨ a.registers = some c))
        (start workerCount buffer) acts := by
  -- what the worker has, and what it is granted, is one place
  have hsupply : ∀ (s : Pool) (a : Act), (∀ c, s.places c ≤ 1) → (∀ c, s.granted a = some c → s.places c = 0) →
      ∀ c, s.places c + (s.granted a).toList.count c ≤ 1 := by
    intro s a hs hg c
    by_cases hgc : s.granted a = some c
    · rw [hg c hgc, hgc, Option.toList_some, List.count_singleton_self]
    · rw [List.count_eq_zero.2 fun hmem => hgc (Option.mem_toList.1 hmem)]
      exact hs c
  have hle : pool.EveryStep (fun _ s a => ∀ c, s.places c + (s.granted a).toList.count c ≤ 1)
      (start workerCount buffer) acts := by
    refine honce.imp (P := fun _ s => ∀ c, s.places c ≤ 1) (places_start_le workerCount buffer) ?_
      fun _ s a hs hg => hsupply s a hs hg
    intro _ s a hs hg c
    have hbook := places_step s a c
    have hone := hsupply s a hs hg c
    show (s.step a).1.places c ≤ 1
    omega
  rw [inService_run_iff inService_start]
  constructor
  · intro h pre a post heq c hd hreg
    have htwo := h pre a post heq c hd hreg
    have hone := hle pre a post heq c
    omega
  · intro h pre a post heq c hd hreg
    exact absurd hreg (h pre a post heq c hd)

/-- The dispatch of a job to the only worker fails: the request of a remote worker gets lost, and an in-process worker
has not come from its advertisement to receiving. When the dispatch is over the worker has nothing to do and is
not in the channel. -/
theorem failed_dispatch_loses_worker :
    let j := Job.newJob 1 "email" 1
    let s := pool.exec (start 0 fun _ => 1)
      [.registerWorker 1 ["*"] true, .dispatch j, .selectNext, .selectNext,
        .submit ⟨false, .failed false "unavailable"⟩]
    let t := pool.exec (start 1 fun _ => 1)
      [.advertise 1, .dispatch j, .selectNext, .selectNext, .submit ⟨false, .accepted⟩, .receive 1]
    (¬ s.InService (.remote 1) ∧ s.available.buf = [] ∧ s.dispatcher.hand = []) ∧
      ¬ t.InService (.inProcess 1) ∧ t.available.buf = [] ∧ t.dispatcher.hand = [] := by
  refine ⟨⟨fun h => ?_, by decide +kernel, by decide +kernel⟩, ⟨fun h => ?_, by decide +kernel, by decide +kernel⟩⟩
  · exact absurd (inService_iff.1 h (by unfold Registered; decide +kernel)) (by decide +kernel)
  · exact absurd (inService_iff.1 h (by unfold Registered; decide +kernel)) (by decide +kernel)

end Pool

end Quorum
