/-
What a death signal releases. A signal names the worker and not the life that has ended: the leases it releases are
those the worker holds when `recoveryLoop` comes to it, and the worker may be alive again by then. With each life of a
worker counted, a signal releases only leases of the life it reports or earlier ones, whenever the loop comes to it, in
exactly the runs in which no job is placed with a worker while a death of an earlier life of it waits.
-/
import Quorum.Rpc.Fleet
import Quorum.Store.Memory

namespace Quorum.Fleet

variable {σ : Type}

/-- The worker that is alive after the step and was not before. -/
def revives (s : Fleet σ) : Act → Option Int
  | .registerWorker id _ true _ => if (s.workers.lookup id).any WorkerInfo.alive then none else some id
  | .heartbeat id _ => if (s.workers.lookup id).any fun info => !info.alive then some id else none
  | _ => none

/-- The number of each worker's lives, with the life each lease was acquired in; and the deaths that wait, each with the
life it has ended. -/
structure Deaths where
  lives : Stamps
  waiting : List (Int × Nat)

/-- A timeout that is reported adds to the deaths that wait; the first one goes when it is processed. -/
def noteWaiting (timeout : Duration) (h : Deaths) (s : Fleet σ) : Act → List (Int × Nat)
  | .monitorWorker id now =>
    if s.timesOut timeout now id = true ∧ s.deadWorkers.buf.length < s.deadWorkers.cap then
      h.waiting ++ [(id, h.lives.worker id)]
    else h.waiting
  | .recover _ => if s.recovering.isSome then h.waiting.tail else h.waiting
  | _ => h.waiting

def noteDeaths [Store σ] (timeout : Duration) (h : Deaths) (s : Fleet σ) (a : Act) : Deaths :=
  { lives := stamp timeout revives h.lives s a, waiting := noteWaiting timeout h s a }

def lives [Store σ] (timeout : Duration) : Machine (Fleet σ × Deaths) Act Grant :=
  (fleet timeout).track (noteDeaths timeout)

/-- The steps of `recoveryLoop`. -/
def Act.isRecovery : Act → Bool
  | .receiveDead | .recover _ => true
  | _ => false

/-- If the step processes a death, each lease it releases was acquired in the life that has ended or an earlier one. -/
def SparesLater [Store σ] (timeout : Duration) (s : Fleet σ) (h : Deaths) (a : Act) : Prop :=
  ∀ ord id l x, a = .recover ord → h.waiting.head? = some x → s.leases.get id = some l →
    (s.step timeout a).1.leases.get id = none → h.lives.lease id ≤ x.2

/-- No job is placed with a worker while a death of an earlier life waits. -/
def PicksSettled [Store σ] (timeout : Duration) (s : Fleet σ) (h : Deaths) (a : Act) : Prop :=
  ∀ g ∈ (s.step timeout a).2, g.accepted = true → ∀ d, (g.lease.workerID, d) ∈ h.waiting →
    h.lives.worker g.lease.workerID ≤ d

/-! ## The history -/

/-- The history is that of the state: it has the deaths that wait, in the order of the lives, and no life is yet to
come. -/
structure Deaths.Tracks (h : Deaths) (s : Fleet σ) : Prop where
  signals : h.waiting.map Prod.fst = s.signals
  ordered : h.waiting.Pairwise fun x y => x.1 = y.1 → x.2 ≤ y.2
  waiting_le : ∀ x ∈ h.waiting, x.2 ≤ h.lives.worker x.1
  lease_le : ∀ id l, s.leases.get id = some l → h.lives.lease id ≤ h.lives.worker l.workerID

/-- A death that waits after a step has waited before or is of the worker's present life. -/
theorem mem_noteWaiting {timeout : Duration} {h : Deaths} {s : Fleet σ} {a : Act} {x : Int × Nat}
    (hx : x ∈ noteWaiting timeout h s a) : x ∈ h.waiting ∨ x.2 = h.lives.worker x.1 := by
  cases a with
  | monitorWorker id now =>
    simp only [noteWaiting] at hx
    split at hx
    · rcases List.mem_append.1 hx with hold | hnew
      · exact .inl hold
      · cases List.mem_singleton.1 hnew
        exact .inr rfl
    · exact .inl hx
  | recover ord =>
    simp only [noteWaiting] at hx
    split at hx
    · exact .inl (List.mem_of_mem_tail hx)
    · exact .inl hx
  | registerWorker | remove | heartbeat | dispatchLoop | reportResult | executionLost | resultLoop | receiveDead
  | jobCall =>
    exact .inl hx

section
variable [Store σ] {timeout : Duration} {s : Fleet σ} {h : Deaths}

namespace Deaths.Tracks

theorem signals_step (ht : h.Tracks s) (a : Act) :
    (noteWaiting timeout h s a).map Prod.fst = (s.step timeout a).1.signals := by
  cases a with
  | monitorWorker id now =>
    show _ = (s.monitorWorker timeout now id).signals
    rw [signals_monitorWorker]
    simp only [noteWaiting]
    split
    · rw [List.map_append, ht.signals]
      rfl
    · exact ht.signals
  | recover ord =>
    rw [signals_recover]
    have hsig := ht.signals
    unfold Fleet.signals at hsig
    simp only [noteWaiting]
    cases hrec : s.recovering with
    | none =>
      rw [hrec] at hsig
      exact hsig
    | some w =>
      rw [hrec] at hsig
      rw [Option.isSome_some, if_pos rfl, List.map_tail, hsig]
      rfl
  | heartbeat id now =>
    show _ = (s.heartbeat id now).signals
    rw [(s.heartbeat_frame id now).2.2]
    exact ht.signals
  | registerWorker id topics dialed now => cases dialed <;> exact ht.signals
  | remove id => exact ht.signals
  | dispatchLoop | reportResult | executionLost | resultLoop | receiveDead | jobCall =>
    rw [(step_members timeout s rfl).2]
    exact ht.signals

omit [Store σ] in
theorem ordered_step (ht : h.Tracks s) (a : Act) :
    (noteWaiting timeout h s a).Pairwise fun x y => x.1 = y.1 → x.2 ≤ y.2 := by
  cases a with
  | monitorWorker id now =>
    simp only [noteWaiting]
    split
    · refine List.pairwise_append.2 ⟨ht.ordered, List.pairwise_singleton _ _, fun x hx y hy hxy => ?_⟩
      rw [List.mem_singleton.1 hy] at hxy ⊢
      show x.2 ≤ h.lives.worker id
      rw [← show x.1 = id from hxy]
      exact ht.waiting_le x hx
    · exact ht.ordered
  | recover ord =>
    simp only [noteWaiting]
    split
    · exact ht.ordered.sublist (List.tail_sublist _)
    · exact ht.ordered
  | registerWorker | remove | heartbeat | dispatchLoop | reportResult | executionLost | resultLoop | receiveDead
  | jobCall =>
    exact ht.ordered

theorem step (ht : h.Tracks s) (timeout : Duration) (a : Act) :
    (noteDeaths timeout h s a).Tracks (s.step timeout a).1 where
  signals := ht.signals_step a
  ordered := ht.ordered_step a
  waiting_le := by
    intro x hx
    have hmono := le_worker_stamp timeout revives h.lives s a x.1
    rcases mem_noteWaiting hx with hold | hnew
    · exact (ht.waiting_le x hold).trans hmono
    · rw [hnew]
      exact hmono
  lease_le := by
    intro id l hl
    have hmono := le_worker_stamp timeout revives h.lives s a l.workerID
    rcases lease_stamp revives h.lives hl with ⟨hold, -, hstamp⟩ | ⟨g, -, -, -, hstamp⟩
    · show (stamp timeout revives h.lives s a).lease id ≤ _
      rw [hstamp]
      exact (ht.lease_le id l hold).trans hmono
    · exact Nat.le_of_eq hstamp

theorem start (st : σ) (resultBuffer : Nat) : Deaths.Tracks ⟨.zero, []⟩ (Fleet.start st resultBuffer) where
  signals := rfl
  ordered := .nil
  waiting_le := nofun
  lease_le := fun _ _ hl => by cases hl

omit [Store σ] in
/-- Of the deaths of one worker that wait the first is of the earliest life. -/
theorem first (ht : h.Tracks s) {w : Int} {d : Nat} (hd : (w, d) ∈ h.waiting) :
    ∃ front d' back, h.waiting = front ++ (w, d') :: back ∧ (∀ x ∈ front, x.1 ≠ w) ∧ d' ≤ d := by
  obtain ⟨as, bs, hsplit, hnot⟩ := List.eq_append_cons_of_mem (List.mem_map.2 ⟨_, hd, rfl⟩ : w ∈ h.waiting.map Prod.fst)
  obtain ⟨front, rest, hwait, hfront, hrest⟩ := List.map_eq_append_iff.1 hsplit
  obtain ⟨⟨w', d'⟩, back, hcons, hw, -⟩ := List.map_eq_cons_iff.1 hrest
  have hw' : w' = w := hw
  subst hw' hcons
  have hne : ∀ x ∈ front, x.1 ≠ w' := fun x hx heq => hnot (hfront ▸ heq ▸ List.mem_map_of_mem hx)
  refine ⟨front, d', back, hwait, hne, ?_⟩
  rw [hwait] at hd
  rcases List.mem_append.1 hd with hleft | hright
  · exact absurd rfl (hne _ hleft)
  · have hord := ht.ordered
    rw [hwait] at hord
    rcases List.mem_cons.1 hright with heq | hback
    · exact Nat.le_of_eq (Prod.mk.inj heq).2.symm
    · exact (List.pairwise_cons.1 (List.pairwise_append.1 hord).2.1).1 _ hback rfl

end Deaths.Tracks

/-! ## Jobs placed after the death has been processed -/

/-- No lease was acquired in a later life than one whose death waits. -/
def Settled (s : Fleet σ) (h : Deaths) : Prop :=
  ∀ id l d, s.leases.get id = some l → (l.workerID, d) ∈ h.waiting → h.lives.lease id ≤ d

theorem Settled.step (hs : Settled s h) (ht : h.Tracks s) {a : Act} (ha : PicksSettled timeout s h a) :
    Settled (s.step timeout a).1 (noteDeaths timeout h s a) := by
  intro id l d hl hd
  show (stamp timeout revives h.lives s a).lease id ≤ d
  rcases lease_stamp revives h.lives hl with ⟨hold, -, hstamp⟩ | ⟨g, hg, hacc, rfl, hstamp⟩
  · rw [hstamp]
    rcases mem_noteWaiting hd with hwait | hnew
    · exact hs id l d hold hwait
    · have hnew' : d = h.lives.worker l.workerID := hnew
      rw [hnew']
      exact ht.lease_le id l hold
  · rw [hstamp]
    obtain ⟨now, submit, rfl⟩ := step_grants (List.ne_nil_of_mem hg)
    exact ha g hg hacc d hd

/-- The death at the head is the one the loop has received. -/
theorem Settled.sparesLater (hs : Settled s h) (ht : h.Tracks s) (a : Act) : SparesLater timeout s h a := by
  rintro ord id l ⟨w, d⟩ rfl hhead hl hnone
  rw [recover_lease hl] at hnone
  split at hnone
  · rename_i hrec
    have hsig := ht.signals
    obtain ⟨rest, hwait⟩ := List.head?_eq_some_iff.1 hhead
    unfold signals at hsig
    rw [hwait, hrec] at hsig
    have hw : w = l.workerID := (List.cons.inj hsig).1
    subst hw
    exact hs id l d hl (List.mem_of_mem_head? hhead)
  · cases hnone

/-! ## Jobs placed before -/

/-- One turn of `recoveryLoop`. -/
def turn : List Act := [.receiveDead, .recover .stored]

/-- The first half of a turn takes the first death that waits and changes nothing else. -/
theorem receive_first (timeout : Duration) {x : Int × Nat} {rest : List (Int × Nat)} {id : Int} {l : Lease}
    (ht : h.Tracks s) (hwait : h.waiting = x :: rest) (hl : s.leases.get id = some l) :
    (s.step timeout .receiveDead).1.recovering = some x.1 ∧ (s.step timeout .receiveDead).1.leases.get id = some l ∧
      (noteDeaths timeout h s .receiveDead).waiting = x :: rest ∧
      (noteDeaths timeout h s .receiveDead).lives.lease id = h.lives.lease id := by
  have hsig : s.signals = x.1 :: rest.map Prod.fst := by rw [← ht.signals, hwait]; rfl
  have hleases : (s.step timeout .receiveDead).1.leases = s.leases :=
    congrArg (fun e => e.scheduler.leases) (s.receiveDead_frame timeout).1
  refine ⟨recovering_receiveDead timeout s hsig, by rw [hleases]; exact hl, hwait, ?_⟩
  exact congrFun (lease_stamp_of_nil revives h.lives (step_grants_nil (a := .receiveDead) nofun)) id

/-- If the first death of the worker that waits is of an earlier life than its lease, `recoveryLoop` comes to it and
releases the lease. -/
theorem releases_later (timeout : Duration) {w : Int} {d : Nat} {id : Int} {l : Lease} {front back : List (Int × Nat)}
    (ht : h.Tracks s) (hwait : h.waiting = front ++ (w, d) :: back) (hfront : ∀ x ∈ front, x.1 ≠ w)
    (hl : s.leases.get id = some l) (hw : l.workerID = w) (hlater : d < h.lives.lease id) :
    ∃ n, ¬ (lives timeout).EveryStep (fun _ p a => SparesLater timeout p.1 p.2 a) (s, h)
      (List.replicate n turn).flatten := by
  induction front generalizing s h with
  | nil =>
    refine ⟨1, fun hall => ?_⟩
    obtain ⟨hrec, hl', hwait', hlease⟩ := receive_first timeout ht hwait hl
    have hspare : SparesLater timeout (s.step timeout .receiveDead).1 (noteDeaths timeout h s .receiveDead)
        (.recover .stored) :=
      hall [.receiveDead] (.recover .stored) [] rfl
    have hle := hspare .stored id l (w, d) rfl (by rw [hwait']; rfl) hl' (by
      rw [recover_lease hl', hrec, hw]
      exact if_pos rfl)
    rw [hlease] at hle
    exact absurd hle (Nat.not_le_of_lt hlater)
  | cons x front ih =>
    obtain ⟨hrec, hl', hwait', hlease⟩ := receive_first timeout ht hwait hl
    have hne : x.1 ≠ w := hfront x List.mem_cons_self
    have ht' := (ht.step timeout .receiveDead).step timeout (.recover .stored)
    have hrest := ih ht' (by
      show (if (s.step timeout .receiveDead).1.recovering.isSome then (noteDeaths timeout h s .receiveDead).waiting.tail
        else (noteDeaths timeout h s .receiveDead).waiting) = _
      rw [hrec, hwait']
      rfl) (fun y hy => hfront y (List.mem_cons_of_mem _ hy)) (by
      rw [recover_lease hl', hrec, hw]
      exact if_neg fun heq => hne (Option.some.inj heq)) (by
      show d < (stamp timeout revives _ _ (.recover .stored)).lease id
      rw [lease_stamp_of_nil revives _ (step_grants_nil (a := .recover .stored) nofun), hlease]
      exact hlater)
    obtain ⟨n, hn⟩ := hrest
    refine ⟨n + 1, fun hall => hn ?_⟩
    rw [List.replicate_succ, List.flatten_cons, Machine.everyStep_append] at hall
    exact hall.2

/-- A job placed with a worker of which an earlier death waits loses its lease when `recoveryLoop` comes to that
death. -/
theorem picked_too_early (ht : h.Tracks s) {a : Act} {g : Grant} {d : Nat} (hg : g ∈ (s.step timeout a).2)
    (hacc : g.accepted = true) (hd : (g.lease.workerID, d) ∈ h.waiting) (hlt : d < h.lives.worker g.lease.workerID) :
    ∃ n, ¬ (lives timeout).EveryStep (fun _ p a => SparesLater timeout p.1 p.2 a) (s, h)
      (a :: (List.replicate n turn).flatten) := by
  obtain ⟨now, submit, rfl⟩ := step_grants (List.ne_nil_of_mem hg)
  obtain ⟨front, d', back, hwait, hfront, hle⟩ := ht.first hd
  have hstamp := lease_stamp_granted revives h.lives hg hacc
  obtain ⟨n, hn⟩ := releases_later timeout (ht.step timeout (.dispatchLoop now submit)) hwait hfront
    (lease_granted hg hacc) rfl (by
      show d' < (stamp timeout revives h.lives s (.dispatchLoop now submit)).lease g.lease.jobID
      rw [hstamp]
      exact Nat.lt_of_le_of_lt hle hlt)
  exact ⟨n, fun hall => hn (Machine.everyStep_cons.1 hall).2⟩

theorem isRecovery_turns (n : Nat) : ∀ a ∈ (List.replicate n turn).flatten, Act.isRecovery a = true := by
  intro a ha
  obtain ⟨as, has, hmem⟩ := List.mem_flatten.1 ha
  rw [List.eq_of_mem_replicate has] at hmem
  rcases List.mem_cons.1 hmem with rfl | hmem
  · rfl
  · cases List.mem_singleton.1 hmem
    rfl

end

/-! ## Runs -/

end Quorum.Fleet
