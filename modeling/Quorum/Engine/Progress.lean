/-
The queues can be emptied. With enough workers that accept, every round of `dispatchLoop` takes one id out of the
priority queue for good; once everything in the delay queue is due, every round of `ProcessDelayedJobs` takes
one out of it. So whatever keeps an id in a queue until some goal is met can be led to that goal.
-/
import Quorum.Engine.Work

namespace Quorum

open Engine (Work Seen)

/-- A round that neither brings a result nor declares a worker dead. -/
def Scheduler.Round.Plain : Scheduler.Round → Prop
  | .resultLoop _ _ | .recoveryLoop _ _ => False
  | .workers _ _ | .dispatchLoop _ _ | .processDelayedJobs _ => True

theorem Chan.tryRecv_cons {α : Type} {ch : Chan α} {x : α} {rest : List α} (h : ch.buf = x :: rest) :
    ∃ ch', ch.tryRecv = some (x, ch') ∧ ch'.buf = rest := by
  unfold tryRecv
  split
  · rename_i hnil; rw [h] at hnil; cases hnil
  · rename_i y rest' heq
    obtain ⟨rfl, rfl⟩ := List.cons.inj (heq.symm.trans h)
    exact ⟨_, rfl, rfl⟩

/-- A bound for finitely many ids. -/
theorem exists_bound (f : Int → Int) (m : Multiset Int) : ∃ t, ∀ id ∈ m, f id ≤ t := by
  induction m using Multiset.induction_on with
  | empty => exact ⟨0, fun id hid => absurd hid (Multiset.notMem_zero id)⟩
  | cons a m ih =>
    obtain ⟨t, ht⟩ := ih
    refine ⟨max t (f a), fun id hid => ?_⟩
    rcases Multiset.mem_cons.1 hid with rfl | hid
    · omega
    · have hle := ht id hid
      omega

namespace Scheduler

variable {σ : Type} [LawfulStore σ]

/-- A round of `dispatchLoop` with a waiting worker that accepts. -/
theorem dispatchLoop_accepted {s : Scheduler σ} (hb : s.broker = none) {w : WorkerClient} {rest : List WorkerClient}
    (hw : s.available.buf = w :: rest) (now : Time) (hne : s.board.ready ≠ 0) :
    let s' := (s.dispatchLoop false now fun _ _ => none).1
    s'.board.ready.card + 1 = s.board.ready.card ∧ s'.broker = none ∧ rest.length ≤ s'.available.buf.length := by
  intro s'
  have hlen : rest.length ≤ s.available.buf.length := by rw [hw]; simp
  obtain ⟨ch, hrecv, hch⟩ := Chan.tryRecv_cons hw
  cases hd : s.priorityQueue.dequeue priorityComparator s.store with
  | none => exact absurd ((JobQueue.dequeue_none priorityComparator s.store).1 hd) hne
  | some p =>
    obtain ⟨id, q⟩ := p
    have hids : s.board.ready = id ::ₘ q.ids := (JobQueue.dequeue_some _ _ hd).2
    have hcard : q.ids.card + 1 = s.board.ready.card := by rw [hids, Multiset.card_cons]
    have hloop : ∀ s₁ gs, s.dispatchLoop false now (fun _ _ => none) = (s₁, gs) → s' = s₁ :=
      fun _ _ h => congrArg Prod.fst h
    unfold dispatchLoop at hloop
    rw [hd] at hloop
    dsimp only at hloop
    cases hj : Store.get s.store id with
    | none =>
      rw [hj] at hloop
      rw [hloop _ _ rfl]
      exact ⟨hcard, hb, hlen⟩
    | some j =>
      rw [hj] at hloop
      dsimp only at hloop
      by_cases ht : j.status.isTerminal = true
      · rw [if_pos ht] at hloop
        rw [hloop _ _ rfl]
        exact ⟨hcard, hb, hlen⟩
      · rw [if_neg ht] at hloop
        rw [hloop _ _ rfl]
        unfold dispatch selectWorker
        simp only [Bool.false_eq_true, if_false, hb, hrecv]
        exact ⟨hcard, trivial, by rw [hch]⟩

/-- A round of `ProcessDelayedJobs` once everything in the delay queue is due. -/
theorem processDelayedJob_due {s : Scheduler σ} {now : Time} (hne : s.board.delayed ≠ 0)
    (hdue : ∀ id ∈ s.board.delayed, ∀ j, s.board.job id = some j → j.nextRunAt ≤ now) :
    let s' := (s.processDelayedJob now).getD s
    s'.board.delayed.card + 1 = s.board.delayed.card ∧
      ∀ id ∈ s'.board.delayed, ∀ j, s'.board.job id = some j → j.nextRunAt ≤ now := by
  intro s'
  obtain ⟨id, hpeek⟩ : ∃ id, s.delayQueue.peek = some id := by
    cases hd : s.delayQueue.dequeue delayComparator s.store with
    | none => exact absurd ((JobQueue.dequeue_none delayComparator s.store).1 hd) hne
    | some p => exact ⟨p.1, (JobQueue.dequeue_some _ _ hd).1⟩
  obtain ⟨rest, hdel, hboard⟩ := board_dropDelayed hpeek
  have hcard : rest.card + 1 = s.board.delayed.card := by rw [hdel, Multiset.card_cons]
  have hrest : ∀ k ∈ rest, ∀ j, s.board.job k = some j → j.nextRunAt ≤ now :=
    fun k hk => hdue k (by rw [hdel]; exact Multiset.mem_cons_of_mem hk)
  have hdrop : s.dropDelayed.board.delayed.card + 1 = s.board.delayed.card ∧
      ∀ k ∈ s.dropDelayed.board.delayed, ∀ j, s.dropDelayed.board.job k = some j → j.nextRunAt ≤ now := by
    rw [hboard]; exact ⟨hcard, hrest⟩
  obtain ⟨s₁, hs₁, hgoal⟩ : ∃ s₁, s.processDelayedJob now = some s₁ ∧
      s₁.board.delayed.card + 1 = s.board.delayed.card ∧
        ∀ k ∈ s₁.board.delayed, ∀ j, s₁.board.job k = some j → j.nextRunAt ≤ now := by
    unfold processDelayedJob
    rw [hpeek]
    dsimp only
    cases hj : Store.get s.store id with
    | none => exact ⟨_, rfl, hdrop⟩
    | some j =>
      have hjdue := hdue id (by rw [hdel]; exact Multiset.mem_cons_self id rest) j hj
      dsimp only
      rw [if_neg (Int.not_lt.2 hjdue)]
      cases hu : Store.update s.dropDelayed.store { j with status := .pending } with
      | error e => exact ⟨_, rfl, hdrop⟩
      | ok st =>
        refine ⟨_, rfl, ?_⟩
        -- the promoted job keeps its time
        rw [board_priority, board_update hu, hboard]
        refine ⟨hcard, fun k hk x hx => ?_⟩
        simp only [Board.withReady_job, Board.setJob_job, Board.withDelayed_job] at hx
        split at hx
        · cases hx; exact hjdue
        · exact hrest k hk x hx
  have heq : s' = s₁ := by
    show (s.processDelayedJob now).getD s = s₁
    rw [hs₁]; rfl
  rw [heq]
  exact hgoal

end Scheduler

namespace Engine

variable {σ : Type} [LawfulStore σ] {C : List Seen → Engine σ → Work → Prop} {P Q : List Seen → Engine σ → Prop}

/-- What keeps an id ready until `Q` holds can be led to `Q` by dispatches. -/
theorem leads_of_ready (hready : ∀ tr e, P tr e → e.board.ready ≠ 0)
    (hC : ∀ tr e a b, P tr e → C tr e (.input (.round (.workers a b))))
    (hC' : ∀ tr e now submit, P tr e → C tr e (.input (.round (.dispatchLoop now submit))))
    (hworkers : ∀ tr e a b, P tr e → P tr (e.work (.input (.round (.workers a b)))).1)
    (hdispatch : ∀ tr e now submit, P tr e →
      let p := e.work (.input (.round (.dispatchLoop now submit)))
      Q (tr ++ p.2) p.1 ∨ P (tr ++ p.2) p.1)
    {tr : List Seen} {e : Engine σ} (h : P tr e) : working.Leads C Q tr e := by
  -- a worker for each ready id turns up first
  let workers : Chan WorkerClient := ⟨e.board.ready.card, List.replicate e.board.ready.card ⟨0⟩, by simp⟩
  let P' := fun tr (e : Engine σ) =>
    P tr e ∧ e.scheduler.broker = none ∧ e.board.ready.card ≤ e.scheduler.available.buf.length
  have hstart : P' tr (e.work (.input (.round (.workers workers none)))).1 := by
    refine ⟨hworkers tr e workers none h, rfl, ?_⟩
    show e.board.ready.card ≤ (List.replicate e.board.ready.card (⟨0⟩ : WorkerClient)).length
    simp
  refine Machine.Leads.bind (Machine.Leads.step (M := working) (Q := P') (hC tr e workers none h)
    ((List.append_nil tr).symm ▸ hstart)) fun tr e h => ?_
  refine Machine.Leads.of_measure (M := working) (P := P') (fun e => e.board.ready.card)
    (.input (.round (.dispatchLoop 0 fun _ _ => none))) ?_ h
  rintro tr e ⟨h, hb, hlen⟩
  refine ⟨hC' tr e 0 _ h, ?_⟩
  have hne := hready tr e h
  obtain ⟨w, rest, hbuf⟩ : ∃ w rest, e.scheduler.available.buf = w :: rest := by
    cases hbuf : e.scheduler.available.buf with
    | cons w rest => exact ⟨w, rest, rfl⟩
    | nil =>
      rw [hbuf, List.length_nil, Nat.le_zero, Multiset.card_eq_zero] at hlen
      exact absurd hlen hne
  obtain ⟨hcard, hb', hlen'⟩ := Scheduler.dispatchLoop_accepted hb hbuf 0 hne
  change (working.step e (.input (.round (.dispatchLoop 0 fun _ _ => none)))).1.board.ready.card + 1 =
    e.board.ready.card at hcard
  rw [hbuf, List.length_cons] at hlen
  rcases hdispatch tr e 0 (fun _ _ => none) h with hQ | hP
  · exact .inl hQ
  · exact .inr ⟨⟨hP, hb', Nat.le_trans (by omega) hlen'⟩, by show _ < e.board.ready.card; omega⟩

/-- What keeps an id delayed until `Q` holds can be led to `Q` by promotions, late enough. -/
theorem leads_of_delayed (hdelayed : ∀ tr e, P tr e → e.board.delayed ≠ 0)
    (hC : ∀ tr e now, P tr e → C tr e (.input (.round (.processDelayedJobs now))))
    (hprocess : ∀ tr e now, P tr e →
      let p := e.work (.input (.round (.processDelayedJobs now)))
      Q (tr ++ p.2) p.1 ∨ P (tr ++ p.2) p.1)
    {tr : List Seen} {e : Engine σ} (h : P tr e) : working.Leads C Q tr e := by
  obtain ⟨now, hnow⟩ := exists_bound (fun id => ((e.board.job id).map Job.nextRunAt).getD 0) e.board.delayed
  refine Machine.Leads.of_measure (M := working) (P := fun tr e => P tr e ∧
    ∀ id ∈ e.board.delayed, ∀ j, e.board.job id = some j → j.nextRunAt ≤ now) (fun e => e.board.delayed.card)
    (.input (.round (.processDelayedJobs now))) ?_ ⟨h, fun id hid j hj => ?_⟩
  · rintro tr e ⟨h, hdue⟩
    refine ⟨hC tr e now h, ?_⟩
    obtain ⟨hcard, hdue'⟩ := Scheduler.processDelayedJob_due (hdelayed tr e h) hdue
    change (working.step e (.input (.round (.processDelayedJobs now)))).1.board.delayed.card + 1 =
      e.board.delayed.card at hcard
    rcases hprocess tr e now h with hQ | hP
    · exact .inl hQ
    · exact .inr ⟨⟨hP, hdue'⟩, by show _ < e.board.delayed.card; omega⟩
  · have hle := hnow id hid
    rw [hj] at hle
    exact hle

/-! ## One job in a queue -/

/-- A dispatch leaves a ready, active job ready or leases it. -/
theorem dispatched {e : Engine σ} (h : e.Sound) {id : Int} (hready : 0 < (e.view id).ready) {j : Job}
    (hj : (e.view id).job = some j) (ht : j.status.isTerminal = false) (now : Time)
    (submit : WorkerClient → Job → Option String) :
    let v := (e.work (.input (.round (.dispatchLoop now submit)))).1.view id
    v.lease ≠ none ∨ 0 < v.ready := by
  have hs := work_view h (.input (.round (.dispatchLoop now submit))) id
  generalize e.view id = v at hs hready hj
  generalize (e.work (.input (.round (.dispatchLoop now submit)))).1.view id = v' at hs
  generalize grants (e.work (.input (.round (.dispatchLoop now submit)))).2 = gs at hs
  cases hs with
  | away _ => exact .inr hready
  | created hi _ => cases hi
  | skipped _ hterm => rw [hterm j hj] at ht; cases ht
  | refused _ _ _ _ => exact .inr hready
  | granted _ _ _ _ => exact .inl (Option.some_ne_none _)

section
variable (id : Int) {F : List Seen → Engine σ → Prop}
  (hC : ∀ tr e rd, rd.Plain → F tr e → C tr e (.input (.round rd)))
  (hF : ∀ tr e rd, rd.Plain → F tr e → F (tr ++ (e.work (.input (.round rd))).2) (e.work (.input (.round rd))).1)
include hC hF

/-- A ready job can be leased, whatever invariant the run has. -/
theorem leads_to_lease (hsound : ∀ tr e, F tr e → e.Sound)
    (hactive : ∀ tr e, F tr e → 0 < (e.view id).ready → ∃ j, (e.view id).job = some j ∧ j.status.isTerminal = false)
    {tr : List Seen} {e : Engine σ} (h : F tr e) (hr : 0 < (e.view id).ready) :
    working.Leads C (fun tr e => F tr e ∧ (e.view id).lease ≠ none) tr e := by
  refine leads_of_ready (P := fun tr e => F tr e ∧ 0 < (e.view id).ready) ?_ ?_ ?_ ?_ ?_ ⟨h, hr⟩
  · rintro tr e ⟨-, hpos⟩ hzero
    have hcount : 0 < e.board.ready.count id := hpos
    rw [hzero, Multiset.count_zero] at hcount
    omega
  · exact fun tr e a b h => hC tr e _ trivial h.1
  · exact fun tr e now submit h => hC tr e _ trivial h.1
  · intro tr e a b h
    have hnext := hF tr e (.workers a b) trivial h.1
    exact ⟨List.append_nil tr ▸ hnext, h.2⟩
  · intro tr e now submit h
    obtain ⟨j, hj, ht⟩ := hactive tr e h.1 h.2
    have hnext := hF tr e (.dispatchLoop now submit) trivial h.1
    rcases dispatched (hsound tr e h.1) h.2 hj ht now submit with hl | hr
    · exact .inl ⟨hnext, hl⟩
    · exact .inr ⟨hnext, hr⟩

/-- A job leaves the delay queue once its time has come. -/
theorem leads_past_delay {tr : List Seen} {e : Engine σ} (h : F tr e) :
    working.Leads C (fun tr e => F tr e ∧ (e.view id).delayed = 0) tr e := by
  rcases Nat.eq_zero_or_pos (e.view id).delayed with hd | hd
  · exact .here ⟨h, hd⟩
  refine leads_of_delayed (P := fun tr e => F tr e ∧ 0 < (e.view id).delayed) ?_ ?_ ?_ ⟨h, hd⟩
  · rintro tr e ⟨-, hpos⟩ hzero
    have hcount : 0 < e.board.delayed.count id := hpos
    rw [hzero, Multiset.count_zero] at hcount
    omega
  · exact fun tr e now h => hC tr e _ trivial h.1
  · intro tr e now h
    have hnext := hF tr e (.processDelayedJobs now) trivial h.1
    rcases Nat.eq_zero_or_pos ((e.work (.input (.round (.processDelayedJobs now)))).1.view id).delayed with hd | hd
    · exact .inl ⟨hnext, hd⟩
    · exact .inr ⟨hnext, hd⟩

end

end Engine

end Quorum
