/-
No early execution. The backoff of a retry and the time of `SubmitJobAt` are enforced only by which queue an id sits in:
`dispatchLoop` skips terminal jobs but dispatches a scheduled one, and it submits the job it has read without
looking at the store again. As long as what is in the priority queue, or on its way to it or from it, is pending or
terminal, and what `dispatchLoop` has read stays pending until it is submitted, what is submitted is pending and
due. The steps that break this are a cancellation, a deletion or a result of a job that `dispatchLoop` has in hand;
a retry of a job that is in the priority queue or on its way there, or of which `ProcessDelayedJobs` has an older
copy in hand; and a `Submit` that fails after its job has been scheduled.
-/
import Quorum.Engine.Exclusion

namespace Quorum

/-- What is ready is pending or terminal, and what is pending is due at `t`. -/
structure Board.Timely (b : Board) (t : Time) : Prop where
  ready : ∀ id j, id ∈ b.ready → b.job id = some j → j.status = .pending ∨ j.status.isTerminal = true
  due : ∀ id j, b.job id = some j → j.status = .pending → j.nextRunAt ≤ t

theorem Board.job_of_setJob {b : Board} {id : Int} {j x : Job} (h : (b.setJob j).job id = some x) :
    id = j.id ∧ x = j ∨ id ≠ j.id ∧ b.job id = some x := by
  rw [setJob_job] at h
  split at h
  · rename_i hid
    exact .inl ⟨hid, (Option.some.inj h).symm⟩
  · rename_i hid
    exact .inr ⟨hid, h⟩

/-! ## What goes to the workers -/

/-! The ids a goroutine has taken from the priority queue, or is to push onto it. -/

def Dispatching.armed : Dispatching → List Int
  | .dequeued id => [id]
  | .entered j => [j.id]
  | .selected j _ => [j.id]
  | .counted j _ _ => [j.id]
  | .leased j _ _ => [j.id]
  | .refused j => [j.id]
  | .requeueing id => [id]
  | .idle | .submitting _ _ _ => []

def Promoting.armed : Promoting → List Int
  | .promoted id => [id]
  | .idle | .peeked _ | .missing | .due _ _ | .dequeued _ _ => []

def Recovering.armed : Recovering → List Int
  | .found id _ => [id]
  | .visiting _ => []

def Submitting.armed : Submitting → List Int
  | .stored j .priority => [j.id]
  | .stored _ .delay => []
  | .made _ _ => []

/-- The copy `ProcessDelayedJobs` is to write back. -/
def Promoting.copy : Promoting → Option Job
  | .due _ j => some j
  | .dequeued _ j => some j
  | .idle | .peeked _ | .missing | .promoted _ => none

namespace Loops

/-- The clock reading of a step that makes one. -/
def Act.clock : Act → Option Time
  | .dispatchLoop now _ => some now
  | .resultLoop now _ => some now
  | .delayLoop now => some now
  | _ => none

/-- The `NextRunAt` a step has set for `id`. -/
def Shown.sets (id : Int) : Shown → Option Time
  | .scheduled k runAt => if k = id then some runAt else none
  | .submitted _ _ _ => none

/-- The last `NextRunAt` that `SubmitJobAt` or a retry has set for `id`. -/
def lastSet (tr : List Shown) (id : Int) : Option Time := tr.reverse.findSome? (Shown.sets id)

@[simp] theorem lastSet_nil (id : Int) : lastSet [] id = none := rfl

theorem lastSet_append (tr sh : List Shown) (id : Int) :
    lastSet (tr ++ sh) id = (lastSet sh id).or (lastSet tr id) := by
  unfold lastSet
  rw [List.reverse_append, List.findSome?_append]

end Loops

namespace Floor

open Loops (Act Shown setTime lastSet lastSet_append)

/-- The id is in the priority queue, or a goroutine has taken it from there or is to push it there. -/
def Armed (f : Floor) (id : Int) : Prop :=
  id ∈ f.board.ready ∨ id ∈ f.dispatcher.armed ∨ id ∈ f.promoter.armed ∨ id ∈ f.recoverer.armed ∨
    ∃ c ∈ f.calls, id ∈ c.armed

/-- What is armed is pending or terminal, what `dispatchLoop` has in hand is pending, and what is pending is due
at `t`; the copy that `ProcessDelayedJobs` is to write back has the stored time; and the stored times are those
that were set last. -/
structure Timely (f : Floor) (tr : List Shown) (t : Time) : Prop where
  armed : ∀ id j, f.Armed id → f.board.job id = some j → j.status = .pending ∨ j.status.isTerminal = true
  held : ∀ id ∈ f.dispatcher.held, ∃ j, f.board.job id = some j ∧ j.status = .pending
  due : ∀ id j, f.board.job id = some j → j.status = .pending → j.nextRunAt ≤ t
  copy : ∀ c, f.promoter.copy = some c → c.nextRunAt ≤ t ∧
    ∀ j, f.board.job c.id = some j → j.status.isTerminal = false → j.nextRunAt = c.nextRunAt
  set : ∀ id runAt j, lastSet tr id = some runAt → f.board.job id = some j → j.status.isTerminal = false →
    j.nextRunAt = runAt
  known : ∀ id runAt, lastSet tr id = some runAt → id ≤ f.next ∧ ∀ j q, Submitting.made j q ∈ f.calls → j.id ≠ id
  made : ∀ j q, Submitting.made j q ∈ f.calls →
    q = .priority ∧ j.status = .pending ∧ j.nextRunAt = 0 ∨ q = .delay ∧ j.status = .scheduled

/-- What a step must find to keep jobs from being early: one that ends or removes a job finds it not in the hands of
`dispatchLoop`; the retry of an active job finds it not armed, and no copy of it in the hands of `ProcessDelayedJobs`;
and a `Submit` that fails finds its job pending or terminal. -/
def Steady (f : Floor) : Act → Prop
  | .cancelJob id => id ∉ f.dispatcher.held
  | .deleteJob id => id ∉ f.dispatcher.held
  | .finish n _ => ∀ j, f.running[n]? = some j → j.id ∉ f.dispatcher.held
  | .resultLoop _ _ =>
    match f.reporter with
    | .released r j =>
      if r.success = false ∧ shouldRetry j = true then
        f.board.IsActive j.id → ¬ f.Armed j.id ∧ ∀ c, f.promoter.copy = some c → c.id ≠ j.id
      else j.id ∉ f.dispatcher.held
    | _ => True
  | .dispatchLoop _ (some _) =>
    match f.dispatcher with
    | .submitting j _ _ => ∀ x, f.board.job j.id = some x → x.status = .pending ∨ x.status.isTerminal = true
    | _ => True
  | _ => True

variable {f f' : Floor} {head : Option Int} {a : Act} {sh tr : List Shown} {t : Time}

theorem Timely.later (h : f.Timely tr t) {t' : Time} (ht : t ≤ t') : f.Timely tr t' :=
  { h with
    due := fun id j hj hp => Int.le_trans (h.due id j hj hp) ht
    copy := fun c hc => ⟨Int.le_trans (h.copy c hc).1 ht, (h.copy c hc).2⟩ }

/-- A step that shows nothing. -/
theorem Timely.silent (h : f.Timely tr t) : f.Timely (tr ++ []) t := by
  rw [List.append_nil]
  exact h

section
variable {id : Int}

theorem Armed.queue (h : id ∈ f.board.ready) : f.Armed id := .inl h

theorem Armed.dispatcher (h : id ∈ f.dispatcher.armed) : f.Armed id := .inr (.inl h)

theorem Armed.promoter (h : id ∈ f.promoter.armed) : f.Armed id := .inr (.inr (.inl h))

theorem Armed.recoverer (h : id ∈ f.recoverer.armed) : f.Armed id := .inr (.inr (.inr (.inl h)))

theorem Armed.call (h : ∃ c ∈ f.calls, id ∈ c.armed) : f.Armed id := .inr (.inr (.inr (.inr h)))

theorem Armed.imp {P : Prop} (h : f.Armed id) (hq : id ∈ f.board.ready → P) (hd : id ∈ f.dispatcher.armed → P)
    (hp : id ∈ f.promoter.armed → P) (hv : id ∈ f.recoverer.armed → P)
    (hc : (∃ c ∈ f.calls, id ∈ c.armed) → P) : P := by
  rcases h with h | h | h | h | h
  · exact hq h
  · exact hd h
  · exact hp h
  · exact hv h
  · exact hc h

end

/-- What `dispatchLoop` has in hand is armed. -/
theorem armed_of_held {id : Int} (h : id ∈ f.dispatcher.held) : f.Armed id := by
  refine .inr (.inl ?_)
  cases hd : f.dispatcher <;> rw [hd] at h <;> first | exact h | cases h

/-- No job has changed and there is less in hand. -/
theorem Timely.shrink (h : f.Timely tr t) (hjob : f'.board.job = f.board.job) (hnext : f'.next = f.next)
    (harmed : ∀ id, f'.Armed id → f.Armed id) (hheld : ∀ id ∈ f'.dispatcher.held, id ∈ f.dispatcher.held)
    (hcopy : ∀ c, f'.promoter.copy = some c → f.promoter.copy = some c)
    (hcalls : ∀ c ∈ f'.calls, c ∈ f.calls) : f'.Timely tr t where
  armed id j ha hj := h.armed id j (harmed id ha) (hjob ▸ hj)
  held id hid := hjob ▸ h.held id (hheld id hid)
  due id j hj := h.due id j (hjob ▸ hj)
  copy c hc := ⟨(h.copy c (hcopy c hc)).1, fun j hj => (h.copy c (hcopy c hc)).2 j (hjob ▸ hj)⟩
  set id runAt j hset hj := h.set id runAt j hset (hjob ▸ hj)
  known id runAt hset := ⟨hnext ▸ (h.known id runAt hset).1, fun j q hc => (h.known id runAt hset).2 j q (hcalls _ hc)⟩
  made j q hc := h.made j q (hcalls _ hc)

/-- The job `id` has ended or is gone, and `dispatchLoop` does not have it in hand. -/
theorem Timely.settle (h : f.Timely tr t) {b : Board} (id : Int) (hid : id ∉ f.dispatcher.held)
    (hready : b.ready = f.board.ready) (hother : ∀ k, k ≠ id → b.job k = f.board.job k)
    (hended : ∀ j, b.job id = some j → j.status.isTerminal = true ∨ f.board.job id = some j) :
    { f with board := b }.Timely tr t := by
  have hold : ∀ k j, b.job k = some j → j.status.isTerminal = true ∨ f.board.job k = some j := by
    intro k j hj
    by_cases hk : k = id
    · subst hk; exact hended j hj
    · exact .inr (hother k hk ▸ hj)
  have hactive : ∀ k j, b.job k = some j → j.status.isTerminal = false → f.board.job k = some j := by
    intro k j hj ht
    exact (hold k j hj).resolve_left (by rw [ht]; exact Bool.false_ne_true)
  refine { h with armed := ?_, held := ?_, due := ?_, copy := ?_, set := ?_ }
  · intro k j ha hj
    have ha' : f.Armed k := by
      unfold Armed at ha ⊢
      rw [hready] at ha
      exact ha
    rcases hold k j hj with ht | hj
    · exact .inr ht
    · exact h.armed k j ha' hj
  · intro k hk
    obtain ⟨j, hj, hp⟩ := h.held k hk
    refine ⟨j, ?_, hp⟩
    rw [hother k fun heq => hid (heq ▸ hk)]
    exact hj
  · intro k j hj hp
    exact h.due k j (hactive k j hj (by rw [hp]; rfl)) hp
  · intro c hc
    exact ⟨(h.copy c hc).1, fun j hj ht => (h.copy c hc).2 j (hactive _ j hj ht) ht⟩
  · intro k runAt j hset hj ht
    exact h.set k runAt j hset (hactive k j hj ht) ht

/-- A terminal status is written, or refused. -/
theorem Timely.update (h : f.Timely tr t) {j : Job} (ht : j.status.isTerminal = true) (hid : j.id ∉ f.dispatcher.held) :
    { f with board := f.board.update j }.Timely tr t := by
  rcases Board.update_eq (b := f.board) (j := j) with ⟨hu, -⟩ | ⟨hu, -⟩
  · refine h.settle j.id hid (by simp) (fun k hk => ?_) (fun x hx => ?_)
    · rw [hu, Board.setJob_job, if_neg hk]
    · rw [hu, Board.setJob_job, if_pos rfl] at hx
      cases hx
      exact .inl ht
  · rw [hu]; exact h

/-- The job a submission stores is not armed by anything else. -/
theorem Sound.made_unarmed (hs : f.Sound) {n : Nat} {j : Job} {q : QueueRef} (hn : f.calls[n]? = some (.made j q)) :
    ¬ f.Armed j.id := by
  have hfree := hs.made j q (List.mem_of_getElem? hn)
  rintro (hr | hd | hp | hv | ⟨c, hc, hin⟩)
  · exact hfree.ready hr
  · refine hfree.dispatcher ?_
    cases hf : f.dispatcher <;> rw [hf] at hd <;> first | exact hd | cases hd
  · refine hfree.promoter ?_
    cases hf : f.promoter <;> rw [hf] at hp <;> first | exact hp | cases hp
  · refine hfree.recoverer ?_
    cases hf : f.recoverer with
    | visiting ids => rw [hf] at hv; cases hv
    | found id rest => rw [hf] at hv; exact List.mem_cons.2 (.inl (List.mem_singleton.1 hv))
  · obtain ⟨m, hm⟩ := List.mem_iff_getElem?.1 hc
    by_cases hnm : n = m
    · subst hnm
      rw [hn] at hm
      cases hm
      cases hin
    · refine hs.other_call hn hm hnm ?_
      cases c with
      | made k r => cases hin
      | stored k r =>
        cases r with
        | priority => exact List.mem_singleton.1 hin
        | delay => cases hin

/-! ## What a step does to the times -/

/-- `dispatchLoop` has moved on, with less in hand. -/
theorem Timely.dispatcher (h : f.Timely tr t) {b : Board} {d : Dispatching} {running : List Job}
    (hjob : b.job = f.board.job) (hready : ∀ id ∈ b.ready, f.Armed id) (hd : ∀ id ∈ d.armed, f.Armed id)
    (hheld : ∀ id ∈ d.held, id ∈ f.dispatcher.held) :
    { f with board := b, dispatcher := d, running := running }.Timely tr t :=
  h.shrink hjob rfl (fun id ha => ha.imp (hready id) (hd id) (fun hin => .promoter hin)
    (fun hin => .recoverer hin) fun hin => .call hin) hheld (fun _ hc => hc)
    fun _ hc => hc

/-- `ProcessDelayedJobs` has moved on, with less in hand. -/
theorem Timely.promoter (h : f.Timely tr t) {b : Board} {p : Promoting} (hjob : b.job = f.board.job)
    (hready : ∀ id ∈ b.ready, f.Armed id) (hp : ∀ id ∈ p.armed, f.Armed id)
    (hcopy : ∀ c, p.copy = some c → f.promoter.copy = some c) : { f with board := b, promoter := p }.Timely tr t :=
  h.shrink hjob rfl (fun id ha => ha.imp (hready id) (fun hin => .dispatcher hin) (hp id)
    (fun hin => .recoverer hin) fun hin => .call hin) (fun _ hid => hid) hcopy
    fun _ hc => hc

/-- `recoveryLoop` has moved on, with less in hand. -/
theorem Timely.recoverer (h : f.Timely tr t) {b : Board} {v : Recovering} (hjob : b.job = f.board.job)
    (hready : ∀ id ∈ b.ready, f.Armed id) (hv : ∀ id ∈ v.armed, f.Armed id) :
    { f with board := b, recoverer := v }.Timely tr t :=
  h.shrink hjob rfl (fun id ha => ha.imp (hready id) (fun hin => .dispatcher hin)
    (fun hin => .promoter hin) (hv id) fun hin => .call hin) (fun _ hid => hid)
    (fun _ hc => hc) fun _ hc => hc

/-- Some submissions are gone. -/
theorem Timely.calls (h : f.Timely tr t) {b : Board} {calls : List Submitting} (hjob : b.job = f.board.job)
    (hready : ∀ id ∈ b.ready, f.Armed id) (hcalls : ∀ c ∈ calls, c ∈ f.calls) :
    { f with board := b, calls := calls }.Timely tr t :=
  h.shrink hjob rfl (fun id ha => ha.imp (hready id) (fun hin => .dispatcher hin) (fun hin => .promoter hin)
    (fun hin => .recoverer hin) fun ⟨c, hc, hin⟩ => .call ⟨c, hcalls c hc, hin⟩) (fun _ hid => hid)
    (fun _ hc => hc) hcalls

/-- A step of `dispatchLoop`. -/
theorem Moves.timely_dispatch {now : Time} {answer : Option String} (hm : f.Moves head (.dispatchLoop now answer) sh f')
    (hst : f.Steady (.dispatchLoop now answer)) (h : f.Timely tr t) : f'.Timely (tr ++ sh) t := by
  have hnil : ∀ id : Int, id ∈ ([] : List Int) → f.Armed id := fun id hid => by cases hid
  have hnil' : ∀ id : Int, id ∈ ([] : List Int) → id ∈ f.dispatcher.held := fun id hid => by cases hid
  cases hm with
  | idle => exact h.silent
  | @dequeued _ _ k rest hd hids =>
    have hk : f.Armed k := .queue (hids ▸ Multiset.mem_cons_self k rest)
    refine .silent (h.dispatcher rfl (fun id hid => .queue (hids ▸ Multiset.mem_cons_of_mem hid)) ?_ hnil')
    intro id hid
    rw [List.mem_singleton.1 hid]; exact hk
  | skipped | placed => exact .silent (h.dispatcher rfl (fun _ => .queue) hnil hnil')
  | @entered _ _ k j hd hstored ht =>
    have hk : f.Armed j.id := .dispatcher (by rw [hd, hstored.2]; exact List.mem_singleton_self k)
    have hj : f.board.job j.id = some j := by rw [hstored.2]; exact hstored.1
    -- what was in the queue and is not terminal is pending
    have hpend : j.status = .pending := (h.armed j.id j hk hj).resolve_right (by rw [ht]; exact Bool.false_ne_true)
    refine .silent { h with armed := fun id x ha hx => h.armed id x ?_ hx, held := ?_ }
    · refine ha.imp (fun hin => .queue hin) (fun hid => ?_) (fun hin => .promoter hin) (fun hin => .recoverer hin)
        fun hin => .call hin
      rw [List.mem_singleton.1 hid]; exact hk
    · intro id hid
      rw [List.mem_singleton.1 hid]
      exact ⟨j, hj, hpend⟩
  | unplaced hd | released hd =>
    exact .silent (h.dispatcher rfl (fun _ => .queue) (fun id hid => .dispatcher (by rw [hd]; exact hid)) hnil')
  | selected hd | counted hd | leased hd =>
    exact .silent (h.dispatcher rfl (fun _ => .queue) (fun id hid => .dispatcher (by rw [hd]; exact hid))
      fun id hid => by rw [hd]; exact hid)
  | @submitted _ _ j w attempt hd =>
    have hsame : ∀ id, lastSet (tr ++ [.submitted j w now]) id = lastSet tr id := by
      intro id
      rw [lastSet_append]
      rfl
    have hf : { f with dispatcher := .submitting j w false }.Timely tr t :=
      h.dispatcher rfl (fun _ => .queue) hnil hnil'
    exact { hf with
      set := fun id runAt x hset => hf.set id runAt x (hsame id ▸ hset)
      known := fun id runAt hset => hf.known id runAt (hsame id ▸ hset) }
  | @refused _ err j w b hd =>
    simp only [Steady, hd] at hst
    refine .silent { h with armed := ?_, held := fun id hid => by cases hid }
    intro id x ha hx
    refine ha.imp (fun hid => h.armed id x (.queue hid) hx) (fun hid => ?_) (fun hid => h.armed id x (.promoter hid) hx)
      (fun hid => h.armed id x (.recoverer hid) hx) (fun hid => h.armed id x (.call hid) hx)
    cases List.mem_singleton.1 hid
    exact hst x hx
  | @requeued _ _ k hd =>
    refine .silent (h.dispatcher rfl ?_ hnil hnil')
    intro id hid
    rcases Multiset.mem_cons.1 hid with rfl | hid
    · exact .dispatcher (by rw [hd]; exact List.mem_singleton_self id)
    · exact .queue hid

/-- Another stage of `resultLoop`, which has no hand in these times. -/
theorem Timely.reporter (h : f.Timely tr t) {b : Board} {r : Reporting} (hjob : b.job = f.board.job)
    (hready : b.ready = f.board.ready) : { f with board := b, reporter := r }.Timely tr t :=
  h.shrink hjob rfl (fun _ ha => ha.imp (fun hin => .queue (hready ▸ hin)) (fun hin => .dispatcher hin)
    (fun hin => .promoter hin) (fun hin => .recoverer hin) fun hin => .call hin) (fun _ hid => hid) (fun _ hc => hc)
    fun _ hc => hc

/-- The time of a retry is written. -/
theorem Timely.retry (h : f.Timely tr t) (hs : f.Sound) {j : Job} (hstatus : j.status = .scheduled)
    (hacc : f.board.Accepts j) (hun : ¬ f.Armed j.id) (hcopy : ∀ c, f.promoter.copy = some c → c.id ≠ j.id) :
    { f with board := f.board.setJob j }.Timely (tr ++ [Shown.scheduled j.id j.nextRunAt]) t := by
  obtain ⟨old, hold, -⟩ := hacc
  have hlast : ∀ id, lastSet (tr ++ [Shown.scheduled j.id j.nextRunAt]) id =
      if id = j.id then some j.nextRunAt else lastSet tr id := by
    intro id
    rw [lastSet_append]
    by_cases hid : id = j.id
    · simp [lastSet, Shown.sets, hid]
    · simp [lastSet, Shown.sets, hid, Ne.symm hid]
  refine { h with armed := ?_, held := ?_, due := ?_, copy := ?_, set := ?_, known := ?_ }
  · intro id x ha hx
    rcases Board.job_of_setJob hx with ⟨rfl, rfl⟩ | ⟨-, hx⟩
    · exact absurd ha hun
    · exact h.armed id x ha hx
  · intro id hid
    obtain ⟨x, hx, hp⟩ := h.held id hid
    have hne : id ≠ j.id := by
      rintro rfl
      exact hun (armed_of_held hid)
    exact ⟨x, by rw [Board.setJob_job, if_neg hne]; exact hx, hp⟩
  · intro id x hx hp
    rcases Board.job_of_setJob hx with ⟨-, rfl⟩ | ⟨-, hx⟩
    · rw [hstatus] at hp; cases hp
    · exact h.due id x hx hp
  · intro c hc
    refine ⟨(h.copy c hc).1, fun x hx ht => ?_⟩
    rcases Board.job_of_setJob hx with ⟨hid, -⟩ | ⟨-, hx⟩
    · exact absurd hid (hcopy c hc)
    · exact (h.copy c hc).2 x hx ht
  · intro id runAt x hset hx ht
    rw [hlast] at hset
    rcases Board.job_of_setJob hx with ⟨hid, rfl⟩ | ⟨hid, hx⟩
    · rw [if_pos hid] at hset
      exact Option.some.inj hset
    · rw [if_neg hid] at hset
      exact h.set id runAt x hset hx ht
  · intro id runAt hset
    rw [hlast] at hset
    split at hset
    · rename_i hid
      subst hid
      exact hs.stored_known hold
    · exact h.known id runAt hset

/-- A step of `resultLoop`. -/
theorem Moves.timely_report {now : Time} {r : Result} (hm : f.Moves head (.resultLoop now r) sh f') (hs : f.Sound)
    (hst : f.Steady (.resultLoop now r)) (h : f.Timely tr t) : f'.Timely (tr ++ sh) t := by
  cases hm with
  | idle => exact h.silent
  | received | discarded | accepted | freed | notRetried | delayed | buried => exact .silent (h.reporter rfl rfl)
  | @completed _ r' _ j hr hok =>
    simp only [Steady, hr, hok, Bool.true_eq_false, false_and, if_false] at hst
    exact .silent ((h.update (j := { j with status := .completed }) rfl hst).reporter rfl rfl)
  | @retried _ r' _ j hr hok hretry hacc =>
    simp only [Steady, hr, hok, hretry, and_self, if_true] at hst
    obtain ⟨old, hold, hv⟩ := hacc
    have hact : f.board.IsActive j.id := by
      refine ⟨old, hold, ?_⟩
      rcases isValidTransition_to_scheduled.1 hv with hs | hs <;> rw [hs] <;> rfl
    obtain ⟨hun, hcopy⟩ := hst hact
    exact (h.retry hs rfl ⟨old, hold, hv⟩ hun hcopy).reporter rfl rfl
  | @failed _ r' _ j hr hok hretry =>
    simp only [Steady, hr, hretry, Bool.false_eq_true, and_false, if_false] at hst
    exact .silent ((h.update (j := { j with status := .failed, lastError := r'.error.getD "" }) rfl hst).reporter rfl
      rfl)

/-- The copy of a due job is written back as pending. -/
theorem Timely.promote (h : f.Timely tr t) {j : Job} (hj : f.promoter.copy = some j)
    (hacc : f.board.Accepts { j with status := .pending }) :
    { f with board := f.board.setJob { j with status := .pending }, promoter := .promoted j.id }.Timely tr t := by
  obtain ⟨hdue, hsame⟩ := h.copy j hj
  obtain ⟨old, hold, hv⟩ := hacc
  have hactive : old.status.isTerminal = false := by
    rcases isValidTransition_to_pending.1 hv with hs | hs <;> rw [hs] <;> rfl
  have hnone : ∀ c, (Promoting.promoted j.id).copy = some c → False := fun c hc => by cases hc
  refine { h with armed := ?_, held := ?_, due := ?_, copy := fun c hc => (hnone c hc).elim, set := ?_ }
  · intro id x ha hx
    rcases Board.job_of_setJob hx with ⟨-, rfl⟩ | ⟨hid, hx⟩
    · exact .inl rfl
    · refine h.armed id x (ha.imp (fun hin => .queue hin) (fun hin => .dispatcher hin) (fun hin => ?_)
        (fun hin => .recoverer hin) fun hin => .call hin) hx
      exact absurd (List.mem_singleton.1 hin) hid
  · intro id hid
    by_cases hk : id = j.id
    · exact ⟨{ j with status := .pending }, by rw [Board.setJob_job, if_pos hk], rfl⟩
    · obtain ⟨x, hx, hp⟩ := h.held id hid
      exact ⟨x, by rw [Board.setJob_job, if_neg hk]; exact hx, hp⟩
  · intro id x hx hp
    rcases Board.job_of_setJob hx with ⟨-, rfl⟩ | ⟨-, hx⟩
    · exact hdue
    · exact h.due id x hx hp
  · intro id runAt x hset hx ht
    rcases Board.job_of_setJob hx with ⟨rfl, rfl⟩ | ⟨-, hx⟩
    · -- the copy still has the time of the stored job
      exact (hsame old hold hactive).symm.trans (h.set _ runAt old hset hold hactive)
    · exact h.set id runAt x hset hx ht

/-- A step of `ProcessDelayedJobs`. -/
theorem Moves.timely_promote {now : Time} (hm : f.Moves head (.delayLoop now) sh f') (hs : f.Sound) (h : f.Timely tr t)
    (hnow : now ≤ t) : f'.Timely (tr ++ sh) t := by
  have hnil : ∀ id : Int, id ∈ ([] : List Int) → f.Armed id := fun id hid => by cases hid
  have hnone : ∀ c : Job, none = some c → f.promoter.copy = some c := fun c hc => by cases hc
  cases hm with
  | idle => exact h.silent
  | peeked | vanished | waits | dropped | notPromoted =>
    exact .silent (h.promoter rfl (fun _ hin => .queue hin) hnil hnone)
  | @due _ id j hp hstored hdue =>
    have hf := h.promoter (b := f.board) (p := .peeked id) rfl (fun _ hin => .queue hin) hnil hnone
    refine .silent { hf with copy := fun c hc => ?_ }
    cases hc
    refine ⟨Int.le_trans hdue hnow, fun x hx _ => ?_⟩
    rw [hstored.2] at hx
    cases hstored.1.symm.trans hx
    rfl
  | unqueued hp _ _ =>
    refine .silent (h.promoter rfl (fun _ hin => .queue hin) hnil fun c hc => ?_)
    rw [hp]; exact hc
  | @promoted _ id j hp hacc =>
    have hid : j.id = id := by
      have hkeyed := hs.promoter
      rw [hp] at hkeyed
      exact hkeyed
    subst hid
    exact .silent (h.promote (by rw [hp]; rfl) hacc)
  | @readied _ id hp =>
    refine .silent (h.promoter rfl (fun k hk => ?_) hnil hnone)
    rcases Multiset.mem_cons.1 hk with rfl | hk
    · exact .promoter (by rw [hp]; exact List.mem_singleton_self k)
    · exact .queue hk

/-- The copy that `ProcessDelayedJobs` has in hand is that of a known job. -/
theorem Sound.copy_ne (hs : f.Sound) {id : Int} (h : f.Free id) {c : Job} (hc : f.promoter.copy = some c) :
    c.id ≠ id := by
  have hkeyed := hs.promoter
  have hid := h.promoter
  cases hp : f.promoter with
  | due k j | dequeued k j =>
    rw [hp] at hc hkeyed hid
    cases hc
    rintro rfl
    exact hid (List.mem_singleton.2 hkeyed)
  | idle | peeked | missing | promoted => rw [hp] at hc; cases hc

section
variable {n : Nat} {j : Job} {q : QueueRef}

/-- The other submissions that are to store a job have other ids. -/
theorem Sound.made_of_set (hs : f.Sound) (hn : f.calls[n]? = some (.made j q)) {k : Job} {r : QueueRef}
    (hk : Submitting.made k r ∈ f.calls.set n (.stored j q)) : Submitting.made k r ∈ f.calls ∧ k.id ≠ j.id := by
  obtain ⟨m, hm⟩ := List.mem_iff_getElem?.1 hk
  rw [List.getElem?_set] at hm
  split at hm
  · split at hm <;> cases hm
  · rename_i hne
    exact ⟨List.mem_of_getElem? hm, Ne.symm (hs.other_call hn hm hne)⟩

/-- A submission that stores its job arms this job only, and not if the job is scheduled. -/
theorem Armed.of_set {b : Board} {id : Int} (hready : b.ready = f.board.ready)
    (h : { f with board := b, calls := f.calls.set n (.stored j q) }.Armed id) :
    f.Armed id ∨ id = j.id ∧ q = .priority := by
  refine h.imp (fun hin => .inl (.queue (hready ▸ hin))) (fun hin => .inl (.dispatcher hin))
    (fun hin => .inl (.promoter hin)) (fun hin => .inl (.recoverer hin)) ?_
  rintro ⟨c, hc, hin⟩
  rcases List.mem_or_eq_of_mem_set hc with hc | rfl
  · exact .inl (.call ⟨c, hc, hin⟩)
  · cases q with
    | priority => exact .inr ⟨List.mem_singleton.1 hin, rfl⟩
    | delay => cases hin

/-- The time that a submission sets is the last one of its job, which had none. -/
theorem Timely.lastSet_add (h : f.Timely tr t) (hmade : Submitting.made j q ∈ f.calls) (id : Int) :
    lastSet (tr ++ setTime j q) id =
      if id = j.id then lastSet (setTime j q) j.id else lastSet tr id := by
  have hunset : lastSet tr j.id = none := by
    cases hset : lastSet tr j.id with
    | none => rfl
    | some runAt => exact absurd rfl ((h.known j.id runAt hset).2 j q hmade)
  rw [lastSet_append]
  by_cases hid : id = j.id
  · rw [hid, hunset, if_pos rfl, Option.or_none]
  · rw [if_neg hid]
    cases q with
    | priority => rfl
    | delay => simp [setTime, lastSet, Shown.sets, Ne.symm hid]

/-- A submission stores its job. -/
theorem Timely.add (h : f.Timely tr t) (hs : f.Sound) (h0 : 0 ≤ t) (hn : f.calls[n]? = some (.made j q)) :
    { f with board := f.board.setJob j, calls := f.calls.set n (.stored j q) }.Timely (tr ++ setTime j q) t := by
  have hmade := List.mem_of_getElem? hn
  have hfree := hs.made j q hmade
  have hlast := h.lastSet_add hmade
  refine ⟨?_, ?_, ?_, ?_, ?_, ?_, ?_⟩
  · intro id x ha hx
    rcases Board.job_of_setJob hx with ⟨rfl, rfl⟩ | ⟨hid, hx⟩
    · rcases h.made x q hmade with ⟨-, hp, -⟩ | ⟨rfl, -⟩
      · exact .inl hp
      · -- a scheduled job is armed by no one
        rcases ha.of_set rfl with ha | ⟨-, hq⟩
        · exact absurd ha (hs.made_unarmed hn)
        · cases hq
    · exact h.armed id x ((ha.of_set rfl).resolve_right fun hk => hid hk.1) hx
  · intro id hid
    obtain ⟨x, hx, hp⟩ := h.held id hid
    have hne : id ≠ j.id := by
      rintro rfl
      cases hfree.job.symm.trans hx
    exact ⟨x, by rw [Board.setJob_job, if_neg hne]; exact hx, hp⟩
  · intro id x hx hp
    rcases Board.job_of_setJob hx with ⟨-, rfl⟩ | ⟨-, hx⟩
    · rcases h.made x q hmade with ⟨-, -, hzero⟩ | ⟨-, hsched⟩
      · rw [hzero]; exact h0
      · rw [hsched] at hp; cases hp
    · exact h.due id x hx hp
  · intro c hc
    refine ⟨(h.copy c hc).1, fun x hx ht => ?_⟩
    rcases Board.job_of_setJob hx with ⟨hid, -⟩ | ⟨-, hx⟩
    · exact absurd hid (hs.copy_ne hfree hc)
    · exact (h.copy c hc).2 x hx ht
  · intro id runAt x hset hx ht
    rw [hlast] at hset
    rcases Board.job_of_setJob hx with ⟨hid, rfl⟩ | ⟨hid, hx⟩
    · rw [if_pos hid] at hset
      cases q with
      | priority => cases hset
      | delay =>
        rw [show lastSet (setTime x .delay) x.id = some x.nextRunAt by simp [setTime, lastSet, Shown.sets]] at hset
        exact Option.some.inj hset
    · rw [if_neg hid] at hset
      exact h.set id runAt x hset hx ht
  · intro id runAt hset
    rw [hlast] at hset
    split at hset
    · rename_i hid
      subst hid
      exact ⟨hs.counted _ hmade, fun k r hk => (hs.made_of_set hn hk).2⟩
    · obtain ⟨hle, hother⟩ := h.known id runAt hset
      exact ⟨hle, fun k r hk => hother k r (hs.made_of_set hn hk).1⟩
  · intro k r hk
    exact h.made k r (hs.made_of_set hn hk).1

end

/-- A submission begins. -/
theorem Timely.submit (h : f.Timely tr t) {i : Engine.Input} {q : QueueRef} {j : Job}
    (hi : i.newJob (f.next + 1) = some (q, j)) :
    { f with next := f.next + 1, calls := f.calls ++ [Submitting.made j q] }.Timely tr t := by
  refine { h with armed := fun id x ha hx => h.armed id x ?_ hx, known := ?_, made := ?_ }
  · refine ha.imp (fun hin => .queue hin) (fun hin => .dispatcher hin) (fun hin => .promoter hin)
      (fun hin => .recoverer hin) ?_
    rintro ⟨c, hc, hin⟩
    rcases List.mem_append.1 hc with hc | hc
    · exact .call ⟨c, hc, hin⟩
    · cases List.mem_singleton.1 hc
      cases hin
  · intro id runAt hset
    obtain ⟨hle, hother⟩ := h.known id runAt hset
    refine ⟨Int.le_trans hle (Int.le_add_one (Int.le_refl _)), fun k r hk => ?_⟩
    rcases List.mem_append.1 hk with hk | hk
    · exact hother k r hk
    · cases List.mem_singleton.1 hk
      have hid := Board.newJob_id hi
      omega
  · intro k r hk
    rcases List.mem_append.1 hk with hk | hk
    · exact h.made k r hk
    · cases List.mem_singleton.1 hk
      cases i <;> cases hi
      · exact .inl ⟨rfl, rfl, rfl⟩
      · exact .inr ⟨rfl, rfl⟩
      · exact .inl ⟨rfl, rfl, rfl⟩

/-- A step of a submission. -/
theorem Moves.timely_call {n : Nat} (hm : f.Moves head (.call n) sh f') (hs : f.Sound) (h : f.Timely tr t)
    (h0 : 0 ≤ t) : f'.Timely (tr ++ sh) t := by
  have hfewer : ∀ c ∈ f.calls.eraseIdx n, c ∈ f.calls := fun c hc => List.mem_of_mem_eraseIdx hc
  cases hm with
  | idle => exact h.silent
  | notAdded _ => exact .silent (h.calls rfl (fun _ hin => .queue hin) hfewer)
  | added hn => exact h.add hs h0 hn
  | @queued _ j q hn =>
    refine .silent (h.calls ?_ ?_ hfewer)
    · cases q <;> rfl
    · intro id hin
      cases q with
      | priority =>
        rcases Multiset.mem_cons.1 hin with rfl | hin
        · exact .call ⟨_, List.mem_of_getElem? hn, List.mem_singleton_self _⟩
        · exact .queue hin
      | delay => exact .queue hin

/-- A step of `recoveryLoop`. -/
theorem Moves.timely_recover {workerID : Int} {ord : RangeOrder Int}
    (hm : f.Moves head (.recoveryLoop workerID ord) sh f') (h : f.Timely tr t) : f'.Timely (tr ++ sh) t := by
  have hnil : ∀ id : Int, id ∈ ([] : List Int) → f.Armed id := fun id hid => by cases hid
  cases hm with
  | idle => exact h.silent
  | lost | passed => exact .silent (h.recoverer rfl (fun _ hin => .queue hin) hnil)
  | @found _ _ id rest j hv hstored hpend =>
    refine .silent { h with armed := fun k x ha hx => ?_ }
    refine ha.imp (fun hin => h.armed k x (.queue hin) hx) (fun hin => h.armed k x (.dispatcher hin) hx)
      (fun hin => h.armed k x (.promoter hin) hx) (fun hin => ?_) (fun hin => h.armed k x (.call hin) hx)
    cases List.mem_singleton.1 hin
    cases hstored.1.symm.trans hx
    exact .inl hpend
  | @recovered _ _ id rest hv =>
    refine .silent (h.recoverer rfl (fun k hk => ?_) hnil)
    rcases Multiset.mem_cons.1 hk with rfl | hk
    · exact .recoverer (by rw [hv]; exact List.mem_singleton_self k)
    · exact .queue hk

theorem Moves.timely (hm : f.Moves head a sh f') (hs : f.Sound) (hst : f.Steady a) (h : f.Timely tr t) (h0 : 0 ≤ t)
    (hnow : ∀ now, a.clock = some now → now ≤ t) : f'.Timely (tr ++ sh) t := by
  cases a with
  | submit i =>
    cases hm with
    | idle => exact h.silent
    | made hi => exact .silent (h.submit hi)
  | call n => exact hm.timely_call hs h h0
  | cancelJob id =>
    cases hm with
    | idle => exact h.silent
    | @cancelled _ j hstored _ =>
      refine .silent (h.settle id hst rfl (fun k hk => ?_) (fun x hx => ?_))
      · rw [Board.setJob_job, if_neg fun heq => hk (heq.trans hstored.2)]
      · rw [Board.setJob_job, if_pos hstored.2.symm] at hx
        cases hx
        exact .inl rfl
  | deleteJob id =>
    cases hm with
    | idle => exact h.silent
    | deleted =>
      refine .silent (h.settle id hst rfl (fun k hk => ?_) (fun x hx => ?_))
      · rw [Board.removeJob_job, if_neg hk]
      · rw [Board.removeJob_job, if_pos rfl] at hx
        cases hx
  | workers available broker =>
    cases hm with
    | idle => exact h.silent
  | dispatchLoop now answer => exact hm.timely_dispatch hst h
  | take =>
    cases hm with
    | idle => exact h.silent
    | taken hd =>
      exact .silent (h.dispatcher rfl (fun _ hin => .queue hin) (fun id hid => by cases hid)
        fun id hid => by cases hid)
  | resultLoop now r => exact hm.timely_report hs hst h
  | delayLoop now => exact hm.timely_promote hs h (hnow now rfl)
  | recoveryLoop workerID ord => exact hm.timely_recover h
  | finish n err =>
    cases hm with
    | idle => exact h.silent
    | @finished _ _ j hn =>
      have hended : (Runner.finish j err).status.isTerminal = true := Runner.finish_terminal j err
      have hid : (Runner.finish j err).id ∉ f.dispatcher.held := by
        rw [Runner.finish_id]
        exact hst j hn
      exact .silent { h.update hended hid with }

end Floor

/-! ## Runs -/

namespace Loops

variable {σ : Type} [LawfulStore σ]

/-- A step that calls `Submit` finds the job stored as pending, its `NextRunAt` reached, and reached also the time that
was set for it last. -/
def OnTime (tr : List Shown) (s : Loops σ) (a : Act) : Prop :=
  ∀ now answer j w attempt, a = .dispatchLoop now answer → s.dispatcher = .leased j w attempt →
    ∃ x, Store.get s.store j.id = some x ∧ x.status = .pending ∧ x.nextRunAt ≤ now ∧
      ∀ runAt, lastSet tr j.id = some runAt → runAt ≤ now

theorem onTime_of_timely {tr : List Shown} {s : Loops σ} {t : Time} (h : s.floor.Timely tr t) {a : Act}
    (hnow : ∀ now, a.clock = some now → t ≤ now) : OnTime tr s a := by
  rintro now answer j w attempt rfl hd
  have hheld : j.id ∈ s.floor.dispatcher.held := by
    rw [show s.floor.dispatcher = .leased j w attempt from hd]
    exact List.mem_singleton_self _
  obtain ⟨x, hx, hp⟩ := h.held j.id hheld
  have hle : x.nextRunAt ≤ now := Int.le_trans (h.due j.id x hx hp) (hnow now rfl)
  refine ⟨x, hx, hp, hle, fun runAt hset => ?_⟩
  rw [← h.set j.id runAt x hset hx (by rw [hp]; rfl)]
  exact hle

theorem run_on_time (acts : List Act) (tr : List Shown) (s : Loops σ) (hs : s.Sound) (t : Time) (h0 : 0 ≤ t)
    (ht : s.floor.Timely tr t) (hclock : (t :: acts.filterMap Act.clock).Pairwise (· ≤ ·))
    (h : loops.EveryStep (fun _ s a => s.floor.Steady a) s acts) :
    loops.EveryStep (fun tr' => OnTime (tr ++ tr')) s acts := by
  induction acts generalizing tr s t with
  | nil => exact Machine.everyStep_nil
  | cons a acts ih =>
    rw [Machine.everyStep_cons] at h ⊢
    have hnow : ∀ now, a.clock = some now → t ≤ now := by
      intro now ha
      rw [List.filterMap_cons_some ha, List.pairwise_cons] at hclock
      exact hclock.1 now List.mem_cons_self
    -- the rest of the run starts at this step's reading, or at `t` if it made none
    have hlater : t ≤ a.clock.getD t := by
      cases ha : a.clock with
      | none => exact Int.le_refl t
      | some now => exact hnow now ha
    have hread : ∀ now, a.clock = some now → now ≤ a.clock.getD t := by
      intro now ha
      rw [ha]
      exact Int.le_refl now
    have hstep := (step_moves hs.wf a).timely hs.floor h.1 (ht.later hlater) (Int.le_trans h0 hlater) hread
    have hrest : (a.clock.getD t :: acts.filterMap Act.clock).Pairwise (· ≤ ·) := by
      cases ha : a.clock with
      | none =>
        rw [List.filterMap_cons_none ha] at hclock
        exact hclock
      | some now =>
        rw [List.filterMap_cons_some ha, List.pairwise_cons] at hclock
        exact hclock.2
    refine ⟨by rw [List.append_nil]; exact onTime_of_timely ht hnow, ?_⟩
    simpa only [List.append_assoc] using
      ih (tr ++ (loops.step s a).2) (loops.step s a).1 (step_sound hs a) _ (Int.le_trans h0 hlater) hstep hrest h.2

theorem start_timely {e : Engine σ} {t : Time} (h : e.board.Timely t) : (start e).floor.Timely [] t where
  armed id j ha hj := by
    refine h.ready id j (ha.imp (fun hin => hin) ?_ ?_ ?_ ?_) hj
    · intro hin; cases hin
    · intro hin; cases hin
    · intro hin; cases hin
    · rintro ⟨c, hc, -⟩; cases hc
  held id hid := by cases hid
  due id j hj := h.due id j hj
  copy c hc := by cases hc
  set id runAt j hset := by cases hset
  known id runAt hset := by cases hset
  made j q hc := by cases hc

/-- No early execution: with a clock that never goes back, from a start in which what is in the priority queue
is pending or terminal and what is pending is due, every submitted job is pending and due, in every run whose steps
are steady. -/
theorem dispatch_on_time (e : Engine σ) (he : e.Sound) (t : Time) (h0 : 0 ≤ t) (ht : e.board.Timely t) (acts : List Act)
    (hclock : (t :: acts.filterMap Act.clock).Pairwise (· ≤ ·))
    (h : loops.EveryStep (fun _ s a => s.floor.Steady a) (start e) acts) : loops.EveryStep OnTime (start e) acts :=
  run_on_time acts [] (start e) (start_sound he) t h0 (start_timely ht) hclock h

open Engine (threeWorkers failure)

/-- Nothing is queued or stored at the start. -/
theorem timely_new (available : Chan WorkerClient) (broker : Option Broker) (t : Time) :
    (Engine.new (Store.empty : σ) available broker).board.Timely t :=
  ⟨fun _ _ hin => absurd hin (Multiset.notMem_zero _),
    fun id j hj => by
      have hnone : Store.get (Store.empty : σ) id = none := LawfulStore.get_empty id
      cases hnone.symm.trans hj⟩

/-- Submit a job and dispatch it; its worker fails it in time, and it is dispatched again after the backoff. -/
theorem dispatch_on_time_retry :
    loops.EveryStep OnTime (start threeWorkers)
      (submission ++ dispatchRound 5 ++ List.replicate 5 (.resultLoop 9 failure) ++
        List.replicate 5 (.delayLoop (60 * second)) ++ dispatchRound (61 * second)) := by
  refine dispatch_on_time threeWorkers (Engine.sound_new _ _) 0 (by decide) (timely_new _ _ 0) _ (by decide) ?_
  simp only [submission, dispatchRound, List.replicate, List.cons_append, List.nil_append, Machine.everyStep_cons,
    Machine.everyStep_nil, and_true]
  refine ⟨trivial, trivial, trivial, trivial, trivial, trivial, trivial, trivial, trivial, trivial, trivial, trivial,
    trivial, trivial, ?_, trivial, trivial, trivial, trivial, trivial, trivial, trivial, trivial, trivial, trivial,
    trivial, trivial, trivial, trivial⟩
  -- the retry finds the job in no one's hands
  refine fun _ => ⟨?_, fun c hc => by cases hc⟩
  rintro (hin | hin | hin | hin | ⟨c, hc, -⟩)
  · cases hin
  · cases hin
  · cases hin
  · cases hin
  · cases hc

/-- Worker 7 is declared dead and its failing result arrives late: the retry is scheduled a backoff away, and
the job is submitted to worker 8 at once. -/
theorem dispatched_before_backoff :
    let acts := submission ++ dispatchRound 5 ++ List.replicate 3 (.recoveryLoop 7 .stored) ++
      List.replicate 5 (.resultLoop 9 failure) ++ List.replicate 5 (.dispatchLoop 10 none)
    let s := loops.exec (start threeWorkers) acts
    (Store.get s.store 1).map (fun j => (j.status, j.nextRunAt)) = some (.scheduled, 9 + 2 * second) ∧
      (∃ j, j.id = 1 ∧ (s.step (.dispatchLoop 10 none)).2 = [.submitted j ⟨8⟩ 10]) ∧
      ¬ loops.EveryStep OnTime (start threeWorkers) (acts ++ [.dispatchLoop 10 none]) := by
  refine ⟨by decide +kernel, ⟨_, ?_, rfl⟩, fun h => ?_⟩
  · rfl
  · obtain ⟨x, hx, hp, -⟩ := h _ _ [] rfl 10 none _ _ _ rfl rfl
    cases hx
    cases hp

end Loops

end Quorum
