/-
Topic routing (`internal/broker/broker.go`): which worker of the `Available` channel gets a job.
-/
import Quorum.Lib.GoMap
import Quorum.Lib.Chan

namespace Quorum

/-- `unicode.IsSpace`. -/
def isSpace (c : Char) : Bool :=
  let n := c.toNat
  (9 ≤ n && n ≤ 13) || n = 0x20 || n = 0x85 || n = 0xa0 || n = 0x1680 || (0x2000 ≤ n && n ≤ 0x200a) || n = 0x2028 ||
    n = 0x2029 || n = 0x202f || n = 0x205f || n = 0x3000

/-- `strings.TrimSpace`. -/
def trimSpace (s : String) : String :=
  String.ofList ((s.toList.dropWhile isSpace).reverse.dropWhile isSpace).reverse

/-- `worker.WorkerClient`, known by its id; what its `Submit` answers is an input of the dispatch. -/
structure WorkerClient where
  id : Int
  deriving DecidableEq, Repr

/-- `broker.Broker`. -/
structure Broker where
  workerTopics : GoMap Int (GoMap String Unit)
  workerIsAll : GoMap Int Bool

namespace Broker

def new : Broker := ⟨∅, ∅⟩

/-- The loop over the topics of `RegisterWorker`: it stops at the first one that stands for all of them. -/
def readTopics : List String → GoMap String Unit → GoMap String Unit × Bool
  | [], topicSet => (topicSet, false)
  | t :: topics, topicSet =>
    let trimmed := trimSpace t
    if trimmed = "*" ∨ trimmed = "all" ∨ trimmed = "" then (topicSet, true)
    else readTopics topics (topicSet.insert trimmed ())

def registerWorker (b : Broker) (workerID : Int) (topics : List String) : Broker :=
  let (topicSet, isAll) := readTopics topics ∅
  { workerTopics := b.workerTopics.insert workerID topicSet
    workerIsAll := b.workerIsAll.insert workerID (topics.isEmpty || isAll) }

def unregisterWorker (b : Broker) (workerID : Int) : Broker :=
  { workerTopics := b.workerTopics.erase workerID, workerIsAll := b.workerIsAll.erase workerID }

/-- A worker the broker does not know handles everything. -/
def canHandle (b : Broker) (workerID : Int) (jobType : String) : Bool :=
  if (b.workerIsAll.lookup workerID).getD false then true
  else
    match b.workerTopics.lookup workerID with
    | none => true
    | some topics => (topics.lookup jobType).isSome

/-- The workers that did not match go back to the end of the channel. -/
def putBack (skipped : List WorkerClient) (ch : Chan WorkerClient) : Chan WorkerClient :=
  skipped.foldl Chan.trySend ch

/-- The loop of `SelectWorker`; the first argument is the number of rounds left. -/
def selectLoop (b : Broker) (jobType : String) :
    Nat → List WorkerClient → Chan WorkerClient → Option WorkerClient × Chan WorkerClient
  | 0, skipped, ch => (none, putBack skipped ch)
  | n + 1, skipped, ch =>
    match ch.tryRecv with
    | none => (none, putBack skipped ch)
    | some (w, ch) =>
      if b.canHandle w.id jobType then (some w, putBack skipped ch)
      else selectLoop b jobType n (skipped ++ [w]) ch

def selectWorker (b : Broker) (jobType : String) (ch : Chan WorkerClient) :
    Option WorkerClient × Chan WorkerClient :=
  if ch.buf.length = 0 then (none, ch) else b.selectLoop jobType ch.buf.length [] ch

end Broker

/-! ## What a selection does -/

/-- What picking a worker from the waiting ones answers and leaves: one that can take the job, or none if there is no
such worker. The others stay, in some order. -/
inductive Selects (can : WorkerClient → Bool) (ws : List WorkerClient) : Option WorkerClient → List WorkerClient → Prop
  | none {ws' : List WorkerClient} (hcan : ∀ w ∈ ws, can w = false) (hperm : ws'.Perm ws) : Selects can ws .none ws'
  | some {w : WorkerClient} {ws' : List WorkerClient} (hcan : can w = true) (hperm : ws.Perm (w :: ws')) :
    Selects can ws (.some w) ws'

/-- The search through the waiting workers with those in hand that were passed: they end up behind the others. -/
def pick (can : WorkerClient → Bool) : List WorkerClient → List WorkerClient → Option WorkerClient × List WorkerClient
  | skipped, [] => (none, skipped)
  | skipped, w :: ws => if can w then (some w, ws ++ skipped) else pick can (skipped ++ [w]) ws

section
variable {can : WorkerClient → Bool}

theorem pick_none {ws : List WorkerClient} (h : ∀ w ∈ ws, can w = false) (skipped : List WorkerClient) :
    pick can skipped ws = (none, skipped ++ ws) := by
  induction ws generalizing skipped with
  | nil => rw [pick, List.append_nil]
  | cons w ws ih =>
    rw [pick, h w List.mem_cons_self, if_neg Bool.false_ne_true, ih fun x hx => h x (List.mem_cons_of_mem w hx)]
    simp

theorem pick_first {pre : List WorkerClient} (h : ∀ w ∈ pre, can w = false) {w : WorkerClient} (hw : can w = true)
    (post skipped : List WorkerClient) : pick can skipped (pre ++ w :: post) = (some w, post ++ (skipped ++ pre)) := by
  induction pre generalizing skipped with
  | nil => rw [List.nil_append, pick, if_pos hw, List.append_nil]
  | cons x pre ih =>
    rw [List.cons_append, pick, h x List.mem_cons_self, if_neg Bool.false_ne_true,
      ih fun y hy => h y (List.mem_cons_of_mem x hy)]
    simp

theorem pick_fst (skipped ws : List WorkerClient) : (pick can skipped ws).1 = ws.find? can := by
  induction ws generalizing skipped with
  | nil => rfl
  | cons w ws ih =>
    rw [pick, List.find?_cons]
    cases hw : can w with
    | true => rfl
    | false => exact ih (skipped ++ [w])

theorem pick_selects (skipped ws : List WorkerClient) (hskip : ∀ w ∈ skipped, can w = false) :
    Selects can (skipped ++ ws) (pick can skipped ws).1 (pick can skipped ws).2 := by
  induction ws generalizing skipped with
  | nil =>
    rw [List.append_nil]
    exact .none hskip (List.Perm.refl _)
  | cons w ws ih =>
    rw [pick]
    split
    · rename_i hw
      exact .some hw (List.perm_middle.trans (List.perm_append_comm.cons w))
    · rename_i hw
      rw [List.append_cons skipped w ws]
      refine ih (skipped ++ [w]) fun x hx => ?_
      rcases List.mem_append.1 hx with hx | hx
      · exact hskip x hx
      · rw [List.mem_singleton.1 hx]
        exact Bool.eq_false_iff.2 hw

end

namespace Broker

/-- With room for all of them every skipped worker gets back in. -/
theorem putBack_buf {skipped : List WorkerClient} {ch : Chan WorkerClient}
    (h : ch.buf.length + skipped.length ≤ ch.cap) :
    (putBack skipped ch).buf = ch.buf ++ skipped := by
  induction skipped generalizing ch with
  | nil => simp [putBack]
  | cons w skipped ih =>
    rw [List.length_cons] at h
    have hroom : ch.buf.length < ch.cap := by omega
    have hsend : ch.trySend w = ⟨ch.cap, ch.buf ++ [w], Chan.length_snoc_le hroom w⟩ := dif_pos hroom
    show (putBack skipped (ch.trySend w)).buf = _
    rw [hsend, ih (by simp; omega)]
    simp

theorem putBack_cap (skipped : List WorkerClient) (ch : Chan WorkerClient) : (putBack skipped ch).cap = ch.cap := by
  induction skipped generalizing ch with
  | nil => rfl
  | cons w skipped ih =>
    refine (ih (ch.trySend w)).trans ?_
    unfold Chan.trySend
    split <;> rfl

/-- As many rounds as there are waiting workers look at all of them, and what was taken out fits in again. -/
theorem selectLoop_eq_pick (b : Broker) (jobType : String) {n : Nat} {skipped : List WorkerClient}
    {ch : Chan WorkerClient} (hn : ch.buf.length ≤ n) (hroom : ch.buf.length + skipped.length ≤ ch.cap) :
    (b.selectLoop jobType n skipped ch).1 = (pick (fun w => b.canHandle w.id jobType) skipped ch.buf).1 ∧
      (b.selectLoop jobType n skipped ch).2.buf = (pick (fun w => b.canHandle w.id jobType) skipped ch.buf).2 ∧
      (b.selectLoop jobType n skipped ch).2.cap = ch.cap := by
  induction n generalizing skipped ch with
  | zero =>
    have hbuf := List.eq_nil_of_length_eq_zero (Nat.le_zero.1 hn)
    rw [selectLoop, putBack_buf hroom, putBack_cap, hbuf]
    exact ⟨rfl, rfl, rfl⟩
  | succ n ih =>
    unfold selectLoop
    cases hrecv : ch.tryRecv with
    | none =>
      dsimp only
      rw [putBack_buf hroom, putBack_cap, Chan.tryRecv_eq_none.1 hrecv]
      exact ⟨rfl, rfl, rfl⟩
    | some p =>
      obtain ⟨w, rest⟩ := p
      have hbuf : ch.buf = w :: rest.buf := Chan.tryRecv_eq_some hrecv
      have hcap : rest.cap = ch.cap := Chan.tryRecv_cap hrecv
      rw [hbuf, List.length_cons] at hroom hn
      rw [hbuf, pick, ← hcap]
      dsimp only
      split
      · rw [putBack_buf (by omega), putBack_cap]
        exact ⟨rfl, rfl, rfl⟩
      · exact ih (by omega) (by simp; omega)

theorem selectWorker_eq_pick (b : Broker) (jobType : String) (ch : Chan WorkerClient) :
    (b.selectWorker jobType ch).1 = (pick (fun w => b.canHandle w.id jobType) [] ch.buf).1 ∧
      (b.selectWorker jobType ch).2.buf = (pick (fun w => b.canHandle w.id jobType) [] ch.buf).2 ∧
      (b.selectWorker jobType ch).2.cap = ch.cap := by
  unfold selectWorker
  split
  · rename_i hlen
    rw [List.eq_nil_of_length_eq_zero hlen]
    exact ⟨rfl, rfl, rfl⟩
  · exact selectLoop_eq_pick b jobType (Nat.le_refl _) ch.le_cap

theorem selectWorker_selects (b : Broker) (jobType : String) (ch : Chan WorkerClient) :
    Selects (fun w => b.canHandle w.id jobType) ch.buf (b.selectWorker jobType ch).1
      (b.selectWorker jobType ch).2.buf := by
  obtain ⟨hresult, hbuf, -⟩ := b.selectWorker_eq_pick jobType ch
  rw [hresult, hbuf]
  exact pick_selects [] ch.buf fun w hw => absurd hw List.not_mem_nil

/-- `SelectWorker` with no other sender. If no waiting worker can take the job, none is returned and the channel is as
it was; otherwise the first one that can is returned, and those before it stand behind those after it. -/
theorem selectWorker_takes_first (b : Broker) (jobType : String) (ch : Chan WorkerClient) :
    ((∀ w ∈ ch.buf, b.canHandle w.id jobType = false) →
        (b.selectWorker jobType ch).1 = none ∧ (b.selectWorker jobType ch).2 = ch) ∧
      ∀ (k : Nat) (hk : k < ch.buf.length), b.canHandle ch.buf[k].id jobType = true →
        (∀ i (hi : i < k), b.canHandle ch.buf[i].id jobType = false) →
        (b.selectWorker jobType ch).1 = some ch.buf[k] ∧
          (b.selectWorker jobType ch).2.buf = ch.buf.drop (k + 1) ++ ch.buf.take k ∧
            (b.selectWorker jobType ch).2.cap = ch.cap := by
  obtain ⟨hresult, hbuf, hcap⟩ := b.selectWorker_eq_pick jobType ch
  constructor
  · intro hnone
    rw [pick_none hnone] at hresult hbuf
    refine ⟨hresult, ?_⟩
    generalize (b.selectWorker jobType ch).2 = ch' at hbuf hcap
    obtain ⟨cap, buf, hle⟩ := ch
    obtain ⟨cap', buf', hle'⟩ := ch'
    cases hbuf
    cases hcap
    rfl
  · intro k hk hcan hbefore
    have hsplit : ch.buf = ch.buf.take k ++ ch.buf[k] :: ch.buf.drop (k + 1) := by
      rw [← List.drop_eq_getElem_cons hk, List.take_append_drop]
    have hskip : ∀ w ∈ ch.buf.take k, b.canHandle w.id jobType = false := by
      intro w hw
      obtain ⟨i, hi, rfl⟩ := List.getElem_of_mem hw
      rw [List.length_take] at hi
      rw [List.getElem_take]
      exact hbefore i (by omega)
    rw [hsplit, pick_first hskip hcan] at hresult hbuf
    exact ⟨hresult, hbuf, hcap⟩

end Broker

/-! ## Which types a registration covers -/

/-- The topic stands for all of them. -/
def IsWildcard (topic : String) : Prop := trimSpace topic = "*" ∨ trimSpace topic = "all" ∨ trimSpace topic = ""

/-- The topics a worker registered with include the type, or are a wildcard. -/
def Handles (topics : List String) (jobType : String) : Prop :=
  topics = [] ∨ (∃ t ∈ topics, IsWildcard t) ∨ ∃ t ∈ topics, trimSpace t = jobType

namespace Broker

theorem readTopics_wildcard {t : String} (h : IsWildcard t) (topics : List String) (set : GoMap String Unit) :
    readTopics (t :: topics) set = (set, true) := if_pos h

theorem readTopics_topic {t : String} (h : ¬ IsWildcard t) (topics : List String) (set : GoMap String Unit) :
    readTopics (t :: topics) set = readTopics topics (set.insert (trimSpace t) ()) := if_neg h

theorem readTopics_all : ∀ (topics : List String) (set : GoMap String Unit),
    (readTopics topics set).2 = true ↔ ∃ t ∈ topics, IsWildcard t
  | [], set => by simp [readTopics]
  | t :: topics, set => by
    by_cases hw : IsWildcard t
    · rw [readTopics_wildcard hw]
      exact iff_of_true rfl ⟨t, List.mem_cons_self, hw⟩
    · rw [readTopics_topic hw, readTopics_all topics]
      simp [hw]

/-- Without a wildcard the set holds the trimmed topics. -/
theorem readTopics_set : ∀ (topics : List String) (set : GoMap String Unit), (∀ t ∈ topics, ¬ IsWildcard t) → ∀ k,
    ((readTopics topics set).1.lookup k).isSome = true ↔ (set.lookup k).isSome = true ∨ ∃ t ∈ topics, trimSpace t = k
  | [], set, _, k => by simp [readTopics]
  | t :: topics, set, hno, k => by
    rw [readTopics_topic (hno t List.mem_cons_self),
      readTopics_set topics _ (fun t' ht => hno t' (List.mem_cons_of_mem _ ht)) k, GoMap.lookup_insert_ite]
    by_cases hk : k = trimSpace t
    · simp [hk]
    · simp [hk, Ne.symm hk]

theorem canHandle_registerWorker (b : Broker) (id : Int) (topics : List String) (jobType : String) :
    (b.registerWorker id topics).canHandle id jobType = true ↔ Handles topics jobType := by
  have hall : ((b.registerWorker id topics).workerIsAll.lookup id).getD false =
      (topics.isEmpty || (readTopics topics ∅).2) := by
    simp only [registerWorker]
    rw [AList.lookup_insert, Option.getD_some]
  have hset : (b.registerWorker id topics).workerTopics.lookup id = some (readTopics topics ∅).1 :=
    AList.lookup_insert _
  unfold canHandle Handles
  rw [hall, hset, ← readTopics_all topics ∅]
  cases hempty : topics.isEmpty with
  | true => exact iff_of_true rfl (.inl (List.isEmpty_iff.1 hempty))
  | false =>
    have hne : topics ≠ [] := fun h => by rw [h] at hempty; cases hempty
    cases hw : (readTopics topics ∅).2 with
    | true => exact iff_of_true rfl (.inr (.inl rfl))
    | false =>
      have hno : ∀ t ∈ topics, ¬ IsWildcard t := fun t ht hwild => by
        rw [(readTopics_all topics ∅).2 ⟨t, ht, hwild⟩] at hw; cases hw
      simp only [Bool.or_self, Bool.false_eq_true, if_false]
      rw [readTopics_set topics ∅ hno]
      simp [hne]

theorem canHandle_registerWorker_ne (b : Broker) {id k : Int} (hk : k ≠ id) (topics : List String) (jobType : String) :
    (b.registerWorker id topics).canHandle k jobType = b.canHandle k jobType := by
  simp only [canHandle, registerWorker, AList.lookup_insert_ne hk]

theorem canHandle_unregisterWorker_ne (b : Broker) {id k : Int} (hk : k ≠ id) (jobType : String) :
    (b.unregisterWorker id).canHandle k jobType = b.canHandle k jobType := by
  simp only [canHandle, unregisterWorker, AList.lookup_erase_ne hk]

/-- A worker that was unregistered is taken for one that handles everything. -/
theorem canHandle_unregisterWorker (b : Broker) (id : Int) (jobType : String) :
    (b.unregisterWorker id).canHandle id jobType = true := by
  simp [canHandle, unregisterWorker, AList.lookup_erase]

end Broker

end Quorum
