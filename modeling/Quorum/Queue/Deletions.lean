/-
The delay queue when queued jobs are deleted. A deleted id stays in the heap and compares as the zero time from then on,
before every job. Taking ids out keeps the jobs that are still stored in order: the deleted ids only rise. A push does
not: on its way up the new id stops under a deleted one, and a job above that one may run later than the new one. Until
the later job has left, the new one waits behind it.
-/
import Quorum.Queue.Runs

namespace Quorum

open ContainerHeap (Above)

variable {σ : Type}

/-! ## Popping deleted ids off the head -/

/-- The rounds of `ProcessDelayedJobs` that find no job under the head's id. -/
def JobQueue.dropMissing [Store σ] (st : σ) : Nat → JobQueue → JobQueue
  | 0, q => q
  | fuel + 1, q =>
    match q.peek with
    | none => q
    | some id =>
      match Store.get st id with
      | some _ => q
      | none =>
        match q.dequeue delayComparator st with
        | none => q
        | some (_, q') => dropMissing st fuel q'

section
variable [Store σ]

/-- Of two stored jobs the first does not run after the second. -/
def NotAfter (st : σ) (a b : Int) : Prop :=
  ∀ ja jb, Store.get st a = some ja → Store.get st b = some jb → ja.nextRunAt ≤ jb.nextRunAt

theorem notAfter_refl (st : σ) (id : Int) : NotAfter st id id := by
  intro ja jb ha hb
  cases ha.symm.trans hb
  exact Int.le_refl _

/-- No stored job runs before the zero time. -/
def AfterZero (st : σ) : Prop := ∀ id j, Store.get st id = some j → 0 ≤ j.nextRunAt

theorem runAt_of_missing {st : σ} {id : Int} (h : Store.get st id = none) : runAt st id = 0 := by
  simp [runAt, h, Job.zero]

theorem laws_notAfter {st : σ} (hst : AfterZero st) :
    ContainerHeap.Laws (fun a b => delayComparator a b st) (NotAfter st) := by
  have hle : ∀ a b, delayComparator a b st = false ↔ runAt st b ≤ runAt st a :=
    ContainerHeap.not_less_iff_key (delayComparator_iff st)
  refine ⟨fun {a b} hab => ?_, fun {a b} hba ja jb ha hb => ?_, fun {a b c} hba hbc ja jc ha hc => ?_⟩
  · rw [hle]
    exact Int.le_of_lt ((delayComparator_iff st a b).1 hab)
  · rw [hle, runAt_of_get ha, runAt_of_get hb] at hba
    exact hba
  · rw [hle, runAt_of_get ha] at hba
    cases hb : Store.get st b with
    | none =>
      -- what a deleted id is not before is not after any job
      rw [runAt_of_missing hb] at hba
      exact Int.le_trans hba (hst c jc hc)
    | some jb =>
      rw [runAt_of_get hb] at hba
      exact Int.le_trans hba (hbc jb jc hb hc)

end

namespace JobQueue

variable [Store σ] {st : σ}

theorem dequeue_missing {q q' : JobQueue} {id : Int} (hpeek : q.peek = some id)
    (hd : q.dequeue delayComparator st = some (id, q')) (hget : Store.get st id = none) {k : Int} {j : Job}
    (hj : Store.get st k = some j) : k ∈ q'.ids ↔ k ∈ q.ids := by
  rw [(dequeue_some delayComparator st hd).2, Multiset.mem_cons]
  constructor
  · exact .inr
  · rintro (rfl | hk)
    · rw [hget] at hj; cases hj
    · exact hk

/-- Popping deleted ids off the head keeps the order and the stored jobs, and ends at a stored job or with an empty
queue. -/
theorem dropMissing_spec (hst : AfterZero st) :
    ∀ (fuel : Nat) (q : JobQueue), q.ids.card ≤ fuel → q.Ordered (NotAfter st) →
    (dropMissing st fuel q).Ordered (NotAfter st) ∧
      (∀ k j, Store.get st k = some j → (k ∈ (dropMissing st fuel q).ids ↔ k ∈ q.ids)) ∧
      ∀ id, (dropMissing st fuel q).peek = some id → ∃ j, Store.get st id = some j
  | 0, q, hfuel, ho => by
    refine ⟨ho, fun _ _ _ => Iff.rfl, fun id hid => ?_⟩
    have hnone := peek_eq_none.2 (Multiset.card_eq_zero.1 (Nat.le_zero.1 hfuel))
    rw [dropMissing, hnone] at hid
    cases hid
  | fuel + 1, q, hfuel, ho => by
    unfold dropMissing
    cases hpeek : q.peek with
    | none =>
      refine ⟨ho, fun _ _ _ => Iff.rfl, fun id hid => ?_⟩
      rw [hpeek] at hid; cases hid
    | some id =>
      dsimp only
      cases hget : Store.get st id with
      | some j =>
        refine ⟨ho, fun _ _ _ => Iff.rfl, fun k hk => ?_⟩
        cases hpeek.symm.trans hk
        exact ⟨j, hget⟩
      | none =>
        obtain ⟨q', hd, hids⟩ := dequeue_of_peek delayComparator st hpeek
        rw [hd]
        rw [hids, Multiset.card_cons] at hfuel
        obtain ⟨ho', hmem, hhead⟩ := dropMissing_spec hst fuel q' (by omega) (ho.dequeue (laws_notAfter hst) hd)
        exact ⟨ho', fun k j hj => (hmem k j hj).trans (dequeue_missing hpeek hd hget hj), hhead⟩

end JobQueue

namespace QueueState

variable [Store σ]

/-! ## No job waits behind a later one -/

/-- Once the deleted ids have been popped off the head, `Peek` returns a stored job that runs first of all queued ones
that are still stored; if it returns nothing, none of them is. -/
def PeeksLeast (s : QueueState σ) : Prop :=
  match (s.queue.dropMissing s.store s.queue.ids.card).peek with
  | none => ∀ k ∈ s.queue.ids, Store.get s.store k = none
  | some id => ∃ j, Store.get s.store id = some j ∧
      ∀ k ∈ s.queue.ids, ∀ j', Store.get s.store k = some j' → j.nextRunAt ≤ j'.nextRunAt

/-- What keeps the order. A new id meets no deleted id below a job that runs later than it; a call of the store may
delete queued jobs, but it neither brings one back nor changes its `NextRunAt`, and it stores nothing before the zero
time. -/
def KeepsRunOrder (s : QueueState σ) : QueueAct → Prop
  | .enqueue id => ∀ i k a p, Above i k → Above k s.queue.items.size → s.queue.items[i]? = some a →
      s.queue.items[k]? = some p → Store.get s.store p = none → NotAfter s.store a id
  | .dequeue => True
  | .write w => AfterZero (Store.write s.store w).1 ∧ ∀ id ∈ s.queue.ids, ∀ j',
      Store.get (Store.write s.store w).1 id = some j' → ∃ j, Store.get s.store id = some j ∧ j'.nextRunAt = j.nextRunAt

/-- The stored jobs of the heap are in order along every path. -/
structure LiveOrdered (s : QueueState σ) : Prop where
  afterZero : AfterZero s.store
  order : s.queue.Ordered (NotAfter s.store)

theorem LiveOrdered.step {s : QueueState σ} (h : s.LiveOrdered) {a : QueueAct} (ha : s.KeepsRunOrder a) :
    (s.step delayComparator a).1.LiveOrdered := by
  have hlaws := laws_notAfter h.afterZero
  cases a with
  | enqueue id =>
    refine ⟨h.afterZero, h.order.enqueue hlaws fun i k b p hik hk hb hp hstop => ?_⟩
    cases hget : Store.get s.store p with
    | none => exact ha i k b p hik hk hb hp hget
    | some jp =>
      -- under a stored job the usual argument applies
      intro jb jx hjb hjx
      have hbp := h.order i k b p hik (Array.getElem?_eq_some_iff.1 hp).1 hb hp jb jp hjb hget
      exact Int.le_trans hbp (hlaws.of_not_less hstop jp jx hget hjx)
  | dequeue =>
    simp only [QueueState.step]
    cases hd : s.queue.dequeue delayComparator s.store with
    | none => exact h
    | some p => exact ⟨h.afterZero, h.order.dequeue hlaws hd⟩
  | write w =>
    refine ⟨ha.1, h.order.imp fun a hma b hmb hab ja jb hja hjb => ?_⟩
    obtain ⟨ja', hja', heqa⟩ := ha.2 a hma ja hja
    obtain ⟨jb', hjb', heqb⟩ := ha.2 b hmb jb hjb
    rw [heqa, heqb]
    exact hab ja' jb' hja' hjb'

theorem LiveOrdered.peeksLeast {s : QueueState σ} (h : s.LiveOrdered) : s.PeeksLeast := by
  obtain ⟨ho, hmem, hhead⟩ := JobQueue.dropMissing_spec h.afterZero s.queue.ids.card s.queue (Nat.le_refl _) h.order
  unfold PeeksLeast
  cases hpeek : (s.queue.dropMissing s.store s.queue.ids.card).peek with
  | none =>
    intro k hk
    cases hget : Store.get s.store k with
    | none => rfl
    | some j =>
      have hk' := (hmem k j hget).2 hk
      rw [JobQueue.peek_eq_none.1 hpeek] at hk'
      exact absurd hk' (Multiset.notMem_zero k)
  | some id =>
    obtain ⟨j, hj⟩ := hhead id hpeek
    exact ⟨j, hj, fun k hk j' hj' => ho.head hpeek (notAfter_refl s.store id) ((hmem k j' hj').2 hk) j j' hj hj'⟩

/-- In every state of a run that keeps the order, the head is the stored job that runs first. -/
theorem peeksLeast_of_keepsRunOrder (store : σ) (hstore : AfterZero store) (acts : List QueueAct)
    (hacts : (machine delayComparator).EveryStep (fun _ s a => KeepsRunOrder s a) (start store) acts)
    (pre : List QueueAct) (hpre : pre <+: acts) : ((machine delayComparator).exec (start store) pre).PeeksLeast := by
  obtain ⟨post, rfl⟩ := hpre
  have hlive :=
    hacts.init.inv (P := fun _ s => s.LiveOrdered) ⟨hstore, JobQueue.ordered_new⟩ fun _ s a hs ha => hs.step ha
  exact hlive.peeksLeast

end QueueState

/-! ## Additions and deletions -/

namespace QueueState

/-- With all queued ids stored any id may be pushed. -/
theorem keepsRunOrder_enqueue [Store σ] {s : QueueState σ} (h : ∀ k ∈ s.queue.ids, (Store.get s.store k).isSome = true)
    (id : Int) :
    s.KeepsRunOrder (.enqueue id) := by
  intro i k a p _ _ _ hp hnone
  have hsome := h p (JobQueue.mem_ids.2 (Array.mem_of_getElem? hp))
  rw [hnone] at hsome
  cases hsome

/-- An `Add` of an id that is neither stored nor queued, or a `Delete`. -/
def AddsOrDeletes [Store σ] (s : QueueState σ) : Write → Prop
  | .add j => Store.get s.store j.id = none ∧ j.id ∉ s.queue.ids ∧ 0 ≤ j.nextRunAt
  | .delete _ => True
  | _ => False

/-- What is stored after such a call was stored before it, or is a new job that is not queued. -/
theorem AddsOrDeletes.get_write [TableStore σ] {s : QueueState σ} (hk : Store.Keyed s.store) {w : Write}
    (h : s.AddsOrDeletes w) {id : Int} {j : Job} (hj : Store.get (Store.write s.store w).1 id = some j) :
    Store.get s.store id = some j ∨ id ∉ s.queue.ids ∧ 0 ≤ j.nextRunAt := by
  have hchange := Store.get_write hk w id
  generalize Store.get (Store.write s.store w).1 id = r at hj hchange
  cases hchange with
  | same => exact .inl hj
  | added =>
    cases hj
    exact .inr h.2
  | updated => exact h.elim
  | deleted => cases hj
  | cancelled => exact h.elim

theorem AddsOrDeletes.keepsRunOrder [TableStore σ] {s : QueueState σ} (hk : Store.Keyed s.store)
    (hz : AfterZero s.store) {w : Write} (h : s.AddsOrDeletes w) : s.KeepsRunOrder (.write w) := by
  constructor
  · intro id j hj
    rcases h.get_write hk hj with hold | ⟨-, hnew⟩
    · exact hz id j hold
    · exact hnew
  · intro id hid j hj
    rcases h.get_write hk hj with hold | ⟨hnew, -⟩
    · exact ⟨j, hold, rfl⟩
    · exact absurd hid hnew

/-- A job that runs at the given time. -/
def delayed (id : Int) (runAt : Time) : Job := { Job.newJob id "email" 1 with status := .scheduled, nextRunAt := runAt }

/-- A job is added and enqueued. -/
def submitAt (id : Int) (runAt : Time) : List QueueAct := [.write (.add (delayed id runAt)), .enqueue id]

/-- Job 1 is deleted while it is the head, and job 2 is the first one behind it. -/
def headDeleted : List QueueAct := submitAt 1 5 ++ submitAt 2 10 ++ [.write (.delete 1)]

theorem peeksLeast_headDeleted :
    ((machine delayComparator).exec (start MemoryStore.new) headDeleted).queue.items = #[1, 2] ∧
      ((machine delayComparator).exec (start MemoryStore.new) headDeleted).PeeksLeast := by
  have hzero : AfterZero MemoryStore.new := fun id j hj => by cases hj
  have hkeyed : Store.Keyed MemoryStore.new := Store.keyed_of_wf LawfulStore.wf_empty
  refine ⟨by decide +kernel, peeksLeast_of_keepsRunOrder MemoryStore.new hzero headDeleted ?_ headDeleted
    (List.prefix_refl _)⟩
  have hone := AddsOrDeletes.keepsRunOrder (s := start MemoryStore.new) hkeyed hzero (w := .add (delayed 1 5))
    ⟨rfl, by decide, by decide⟩
  have htwo := AddsOrDeletes.keepsRunOrder (s := (machine delayComparator).exec (start MemoryStore.new) (submitAt 1 5))
    (Store.keyed_write hkeyed _) hone.1 (w := .add (delayed 2 10)) ⟨rfl, by decide +kernel, by decide⟩
  simp only [headDeleted, submitAt, List.cons_append, List.nil_append, Machine.everyStep_cons,
    Machine.everyStep_nil, and_true]
  refine ⟨hone, keepsRunOrder_enqueue (by decide +kernel) 1, htwo, keepsRunOrder_enqueue (by decide +kernel) 2, ?_⟩
  exact AddsOrDeletes.keepsRunOrder (Store.keyed_write (Store.keyed_write hkeyed _) _) htwo.1 trivial

/-- Job 2 is deleted and stays in the heap below job 1, which runs at 5; job 4 is to run at 3, comes to stand under
job 2 and waits behind job 1. -/
theorem earlier_job_waits :
    let acts := submitAt 1 5 ++ submitAt 2 10 ++ submitAt 3 20 ++ [.write (.delete 2)] ++ submitAt 4 3
    let s := (machine delayComparator).exec (start MemoryStore.new) acts
    s.queue.items = #[1, 2, 3, 4] ∧ s.queue.dropMissing s.store 4 = s.queue ∧ runAt s.store 1 = 5 ∧
      runAt s.store 4 = 3 ∧ ¬ s.PeeksLeast := by
  intro acts s
  have hpeek : (s.queue.dropMissing s.store s.queue.ids.card).peek = some 1 := by decide +kernel
  refine ⟨by decide +kernel, by decide +kernel, by decide +kernel, by decide +kernel, fun h => ?_⟩
  unfold PeeksLeast at h
  rw [hpeek] at h
  obtain ⟨j, hj, hleast⟩ := h
  have hle := hleast 4 (by decide +kernel) (delayed 4 3) (by decide +kernel)
  have hj1 : j = delayed 1 5 := Option.some.inj (hj.symm.trans (by decide +kernel))
  rw [hj1] at hle
  exact absurd hle (by decide)

end QueueState

end Quorum
