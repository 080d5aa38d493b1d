/-
`BoltStore` down to its file (`internal/store/bolt_store.go`). A bucket maps texts to bytes: an id is written in
decimal, a job or a cron as JSON, and the bucket of the idempotency keys has the decimal id of a job. A walk over a
bucket sees the keys in their order as texts, so that job 10 comes before job 2. The file of a store is its image
under these encodings. Every call does to the image what it does to the store, with the same result and the same
error, and every read of the file gives what the store has.
-/
import Mathlib.Data.String.Basic
import Quorum.Lib.EncodedMap
import Quorum.Store.Methods
import Quorum.Store.Tables
import Quorum.Cron.Scheduler

namespace Quorum

/-- The buckets, by their names. -/
inductive BucketName where
  | jobs
  | cronJobs
  | dlq
  | idempotencyKeys
  | statusPending
  | statusScheduled
  | statusCompleted
  | statusFailed
  | statusCancelled
  deriving DecidableEq

/-- The buckets of a file. -/
def BoltFile (β : Type) := BucketName → GoMap String β

namespace BoltFile

/-- The bytes in a file: texts, and what `encoding/json` writes for a job and a cron. -/
structure Format (β : Type) where
  text : String → β
  string : β → String
  marshalJob : Job → β
  unmarshalJob : β → Except String Job
  marshalCron : CronJob → β
  unmarshalCron : β → Except String CronJob
  string_text : ∀ s, string (text s) = s
  unmarshalJob_marshalJob : ∀ j, unmarshalJob (marshalJob j) = .ok j
  unmarshalCron_marshalCron : ∀ c, unmarshalCron (marshalCron c) = .ok c

/-! ## Ids in decimal -/

/-- The values of the Go type `int`. -/
def IsInt (n : Int) : Prop := -((1 <<< 63 : Nat) : Int) ≤ n ∧ n < ((1 <<< 63 : Nat) : Int)

instance (n : Int) : Decidable (IsInt n) := inferInstanceAs (Decidable (_ ∧ _))

/-- `key`: `strconv.Itoa`. -/
def key (id : Int) : String := toString id

theorem toList_key (id : Int) :
    (key id).toList = if 0 ≤ id then Nat.toDigits 10 id.toNat else '-' :: Nat.toDigits 10 (-id).toNat := by
  rw [key, Int.toString_eq_repr, Int.repr_eq_if]
  split
  · exact Nat.toList_repr
  · rw [String.toList_append, Nat.toList_repr]
    rfl

theorem isDigit_toDigits {n : Nat} {c : Char} (hc : c ∈ Nat.toDigits 10 n) : c.isDigit = true :=
  Nat.isDigit_of_mem_toDigits (by decide) (by decide) hc

theorem foldl_digits {cs : List Char} (hcs : ∀ c ∈ cs, c.isDigit = true) (m : Nat) :
    cs.foldl (fun (n : Int) c => 10 * n + (c.toNat - '0'.toNat : Int)) m = Nat.ofDigitChars 10 cs m := by
  induction cs generalizing m with
  | nil => rfl
  | cons c cs ih =>
    obtain ⟨hc, hrest⟩ := List.forall_mem_cons.1 hcs
    have hle := (Char.isDigit_iff_toNat.1 hc).1
    rw [Nat.ofDigitChars_cons, ← ih hrest, List.foldl_cons]
    congr 1
    omega

theorem digits_toDigits (n : Nat) : Cron.digits (Nat.toDigits 10 n) = some (n : Int) := by
  have hdigit : ∀ c ∈ Nat.toDigits 10 n, c.isDigit = true := fun c => isDigit_toDigits
  unfold Cron.digits
  rw [if_pos ⟨Nat.toDigits_ne_nil, List.all_eq_true.2 hdigit⟩]
  exact congrArg some ((foldl_digits hdigit 0).trans (congrArg Nat.cast Nat.ofDigitChars_ten_toDigits))

/-- What `Atoi` reads before it looks at the range. -/
def signed (cs : List Char) : Option Int :=
  match cs with
  | '-' :: cs => (Cron.digits cs).map fun n => -n
  | '+' :: cs => Cron.digits cs
  | cs => Cron.digits cs

theorem signed_key (id : Int) : signed (key id).toList = some id := by
  rw [toList_key]
  split
  · rename_i hnonneg
    have hdigits := digits_toDigits id.toNat
    rw [Int.toNat_of_nonneg hnonneg] at hdigits
    -- the text of a natural number has no sign
    have hsign : ∀ c ∈ Nat.toDigits 10 id.toNat, c.isDigit = true := fun c => isDigit_toDigits
    generalize Nat.toDigits 10 id.toNat = cs at hdigits hsign
    unfold signed
    split
    · exact absurd (hsign '-' List.mem_cons_self) (by decide)
    · exact absurd (hsign '+' List.mem_cons_self) (by decide)
    · exact hdigits
  · rename_i hneg
    show (Cron.digits (Nat.toDigits 10 (-id).toNat)).map (fun n => -n) = some id
    rw [digits_toDigits, Int.toNat_of_nonneg (by omega), Option.map_some, Int.neg_neg]

/-- `Atoi` reads what `Itoa` has written. -/
theorem atoi_key {id : Int} (h : IsInt id) : Cron.atoi (key id).toList = some id := by
  have hfilter : Cron.atoi (key id).toList = (signed (key id).toList).filter _ := rfl
  rw [hfilter, signed_key, Option.filter_some, if_pos]
  rw [Bool.and_eq_true, decide_eq_true_eq, decide_eq_true_eq]
  exact h

theorem key_injective : Function.Injective key := by
  intro a b h
  have hsome := signed_key a
  rw [h, signed_key] at hsome
  exact (Option.some.inj hsome).symm

theorem utf8Len_ascii {cs : List Char} (h : ∀ c ∈ cs, c.val ≤ 127) : String.utf8Len cs = cs.length := by
  induction cs with
  | nil => rfl
  | cons c cs ih =>
    obtain ⟨hc, hcs⟩ := List.forall_mem_cons.1 h
    rw [String.utf8Len_cons, ih hcs, Char.utf8Size_eq_one_iff.2 hc, List.length_cons]

/-- bbolt takes the text of an id as a key. -/
theorem checkKey_key {id : Int} (h : IsInt id) : BoltStore.checkKey (key id) = .ok () := by
  have hdigits : ∀ {n : Nat}, n ≤ 1 <<< 63 → (∀ c ∈ Nat.toDigits 10 n, c.val ≤ 127) ∧
      (Nat.toDigits 10 n).length ≤ 19 := by
    intro n hn
    refine ⟨fun c hc => ?_, (Nat.length_toDigits_le_iff (by decide) (by decide)).2 (by omega)⟩
    have hle := (Char.isDigit_iff_toNat.1 (isDigit_toDigits hc)).2
    exact UInt32.le_iff_toNat_le.2 (hle.trans (by decide))
  obtain ⟨hlow, hhigh⟩ := h
  have hsize : (∀ c ∈ (key id).toList, c.val ≤ 127) ∧ (key id).toList.length ≤ 20 := by
    rw [toList_key]
    split
    · obtain ⟨hascii, hlen⟩ := hdigits (n := id.toNat) (by omega)
      exact ⟨hascii, by omega⟩
    · obtain ⟨hascii, hlen⟩ := hdigits (n := (-id).toNat) (by omega)
      exact ⟨List.forall_mem_cons.2 ⟨by decide, hascii⟩, Nat.succ_le_succ hlen⟩
  have hbytes : (key id).utf8ByteSize = (key id).toList.length := by
    rw [← utf8Len_ascii hsize.1, ← String.utf8ByteSize_ofList, String.ofList_toList]
  have hne : key id ≠ "" := by
    intro hempty
    have hsome := signed_key id
    rw [hempty] at hsome
    exact absurd hsome (by simp [signed, Cron.digits])
  unfold BoltStore.checkKey
  rw [if_neg hne, if_neg (by omega)]

/-! ## The calls that write -/

section
variable {β : Type}

/-- `NewBoltStore` on a new file. -/
def new : BoltFile β := fun _ => ∅

/-- The file with another content of a bucket. -/
def set (f : BoltFile β) (b : BucketName) (m : GoMap String β) : BoltFile β := fun b' => if b' = b then m else f b'

/-- `Bucket.Put` of bbolt. -/
def put (b : BucketName) (k : String) (v : β) : Method (BoltFile β) Unit :=
  match BoltStore.checkKey k with
  | .error err => throw err
  | .ok _ => modify fun f => f.set b ((f b).insert k v)

/-- `Bucket.Delete` of bbolt, which takes keys that are not there. -/
def erase (b : BucketName) (k : String) : Method (BoltFile β) Unit :=
  modify fun f => f.set b ((f b).erase k)

def getStatusBucket : Status → Option BucketName
  | .pending => some .statusPending
  | .scheduled => some .statusScheduled
  | .completed => some .statusCompleted
  | .failed => some .statusFailed
  | .cancelled => some .statusCancelled
  | .other _ _ => none

def removeFromStatusBucket (status : Status) (id : Int) : Method (BoltFile β) Unit :=
  match getStatusBucket status with
  | none => pure ()
  | some b => erase b (key id)

variable (fmt : Format β)

def addToStatusBucket (status : Status) (id : Int) : Method (BoltFile β) Unit :=
  match getStatusBucket status with
  | none => pure ()
  | some b => put b (key id) (fmt.text "")

def putJob (j : Job) : Method (BoltFile β) Unit := put .jobs (key j.id) (fmt.marshalJob j)

def add (j : Job) : Method (BoltFile β) Unit := Method.transaction do
  putJob fmt j
  if j.idempotencyKey ≠ "" then
    try put .idempotencyKeys j.idempotencyKey (fmt.text (key j.id))
    catch err => throw s!"write idempotency key: {err}"
  addToStatusBucket fmt j.status j.id

def update (j : Job) : Method (BoltFile β) Unit := Method.transaction do
  match ((← getThe (BoltFile β)) .jobs).lookup (key j.id) with
  | none => throw s!"job {j.id} not found for update"
  | some v =>
    match fmt.unmarshalJob v with
    | .error err => throw s!"unmarshal job {j.id}: {err}"
    | .ok existing =>
      if isValidTransition existing.status j.status = false then
        throw s!"invalid status transition from {existing.status} to {j.status} for job {j.id}"
      removeFromStatusBucket existing.status j.id
      putJob fmt j
      addToStatusBucket fmt j.status j.id

/-- `Delete` also takes a job out that does not decode, but leaves its status and its key behind. -/
def delete (id : Int) : Method (BoltFile β) Bool := Method.transaction do
  match ((← getThe (BoltFile β)) .jobs).lookup (key id) with
  | none => return false
  | some v =>
    if let .ok j := fmt.unmarshalJob v then
      removeFromStatusBucket j.status id
      if j.idempotencyKey ≠ "" then erase .idempotencyKeys j.idempotencyKey
    erase .jobs (key id)
    return true

def cancel (id : Int) : Method (BoltFile β) Unit := Method.transaction do
  match ((← getThe (BoltFile β)) .jobs).lookup (key id) with
  | none => throw "job not found"
  | some v =>
    match fmt.unmarshalJob v with
    | .error err => throw s!"unmarshal job: {err}"
    | .ok j =>
      if j.status.isTerminal then throw s!"job already in terminal status {j.status}"
      removeFromStatusBucket j.status id
      putJob fmt { j with status := .cancelled }
      addToStatusBucket fmt .cancelled id

def addCron (c : CronJob) : Method (BoltFile β) Unit := Method.transaction (put .cronJobs c.id (fmt.marshalCron c))

def deleteCron (id : String) : Method (BoltFile β) Bool := Method.transaction do
  match ((← getThe (BoltFile β)) .cronJobs).lookup id with
  | none => return false
  | some _ =>
    erase .cronJobs id
    return true

def addDLQ (j : Job) : Method (BoltFile β) Unit := Method.transaction (put .dlq (key j.id) (fmt.marshalJob j))

/-- A call, with the boolean of `Delete` and `DeleteCron`. -/
def write : Write → Method (BoltFile β) Bool
  | .add j => do add fmt j; return true
  | .update j => do update fmt j; return true
  | .delete id => delete fmt id
  | .cancel id => do cancel fmt id; return true
  | .addCron c => do addCron fmt c; return true
  | .deleteCron id => deleteCron id
  | .addDLQ j => do addDLQ fmt j; return true

/-- A file under a sequence of calls. -/
def writes : Machine (BoltFile β) Write (Except String Bool) :=
  ⟨fun f w => (((write fmt w).call f).2, [((write fmt w).call f).1])⟩

/-! ## The calls that read -/

/-- The order in which bbolt has the keys of a bucket: that of their bytes, which for UTF-8 is that of the
characters. -/
def byteOrder : RangeOrder String := .sorted (· ≤ ·)

/-- A walk that decodes what it sees and ends with the first error. -/
def decodeAll {α : Type} (unmarshal : β → Except String α) : List β → List α × Option String
  | [] => ([], none)
  | v :: vs =>
    match unmarshal v with
    | .error err => ([], some err)
    | .ok a => (a :: (decodeAll unmarshal vs).1, (decodeAll unmarshal vs).2)

def get (f : BoltFile β) (id : Int) : Option Job :=
  ((f .jobs).lookup (key id)).bind fun v => (fmt.unmarshalJob v).toOption

/-- `List` drops the error of its walk. -/
def list (f : BoltFile β) : List Job := (decodeAll fmt.unmarshalJob ((f .jobs).values byteOrder)).1

def listByStatus (f : BoltFile β) (status : Status) : List Job × Option String :=
  match getStatusBucket status with
  | none => ([], none)
  | some b => decodeAll fmt.unmarshalJob ((byteOrder.order (f b).keys).filterMap (f .jobs).lookup)

def listCrons (f : BoltFile β) : List CronJob × Option String :=
  decodeAll fmt.unmarshalCron ((f .cronJobs).values byteOrder)

def listDLQ (f : BoltFile β) : List Job × Option String := decodeAll fmt.unmarshalJob ((f .dlq).values byteOrder)

def findByIdempotencyKey (f : BoltFile β) (ikey : String) : Option Job :=
  if ikey = "" then none
  else do
    let idBytes ← (f .idempotencyKeys).lookup ikey
    let id ← Cron.atoi (fmt.string idBytes).toList
    let v ← (f .jobs).lookup (key id)
    (fmt.unmarshalJob v).toOption

/-! ## The file of a store -/

def keyEmbedding : Int ↪ String := ⟨key, key_injective⟩

def ofStore (s : BoltStore) : BoltFile β
  | .jobs => s.jobs.encode keyEmbedding fmt.marshalJob
  | .cronJobs => s.cronJobs.encode (.refl String) fmt.marshalCron
  | .dlq => s.dlq.encode keyEmbedding fmt.marshalJob
  | .idempotencyKeys => s.idempotencyKeys.encode (.refl String) fun id => fmt.text (key id)
  | .statusPending => s.statusPending.encode keyEmbedding fun _ => fmt.text ""
  | .statusScheduled => s.statusScheduled.encode keyEmbedding fun _ => fmt.text ""
  | .statusCompleted => s.statusCompleted.encode keyEmbedding fun _ => fmt.text ""
  | .statusFailed => s.statusFailed.encode keyEmbedding fun _ => fmt.text ""
  | .statusCancelled => s.statusCancelled.encode keyEmbedding fun _ => fmt.text ""

theorem ofStore_new : ofStore fmt .new = new := by
  funext b
  cases b <;> rfl

theorem lookup_jobs (s : BoltStore) (id : Int) :
    (ofStore fmt s .jobs).lookup (key id) = (s.jobs.lookup id).map fmt.marshalJob :=
  GoMap.lookup_encode keyEmbedding fmt.marshalJob s.jobs id

/-- Two stores that differ in one bucket. -/
theorem set_bucket (s s' : BoltStore) {b : BucketName} {m : GoMap String β} (hm : m = ofStore fmt s' b)
    (h : ∀ b', b' ≠ b → ofStore fmt s b' = ofStore fmt s' b') : (ofStore fmt s).set b m = ofStore fmt s' := by
  funext b'
  unfold set
  split
  · rename_i heq
    rw [heq, hm]
  · rename_i hne
    exact h b' hne

section
variable {fmt} {s s' : BoltStore} {b : BucketName} {κ ν : Type} [DecidableEq κ] {f : κ ↪ String} {g : ν → β}
  {m : GoMap κ ν}

theorem call_put {k : κ} {v : ν} (hk : BoltStore.checkKey (f k) = .ok ()) (hb : ofStore fmt s b = GoMap.encode f g m)
    (hb' : ofStore fmt s' b = GoMap.encode f g (m.insert k v))
    (h : ∀ b', b' ≠ b → ofStore fmt s b' = ofStore fmt s' b') :
    (put b (f k) (g v)).call (ofStore fmt s) = (.ok (), ofStore fmt s') := by
  unfold put
  rw [hk]
  refine congrArg (Prod.mk _) (set_bucket fmt s s' ?_ h)
  rw [hb, hb', GoMap.insert_encode]

theorem call_erase {k : κ} (hb : ofStore fmt s b = GoMap.encode f g m)
    (hb' : ofStore fmt s' b = GoMap.encode f g (m.erase k)) (h : ∀ b', b' ≠ b → ofStore fmt s b' = ofStore fmt s' b') :
    (erase b (f k)).call (ofStore fmt s) = (.ok (), ofStore fmt s') := by
  refine congrArg (Prod.mk _) (set_bucket fmt s s' ?_ h)
  rw [hb, hb', GoMap.erase_encode]

end

theorem call_putJob (s : BoltStore) {j : Job} (hj : IsInt j.id) :
    (putJob fmt j).call (ofStore fmt s) = (.ok (), ofStore fmt (s.putJob j)) := by
  refine call_put (f := keyEmbedding) (g := fmt.marshalJob) (checkKey_key hj) rfl rfl fun b hb => ?_
  cases b <;> first | rfl | exact absurd rfl hb

theorem call_eraseJob (s : BoltStore) (id : Int) :
    (erase .jobs (key id)).call (ofStore fmt s) = (.ok (), ofStore fmt { s with jobs := s.jobs.erase id }) := by
  refine call_erase (f := keyEmbedding) (g := fmt.marshalJob) rfl rfl fun b hb => ?_
  cases b <;> first | rfl | exact absurd rfl hb

theorem call_putKey (s : BoltStore) {k : String} (hk : BoltStore.checkKey k = .ok ()) (id : Int) :
    (put .idempotencyKeys k (fmt.text (key id))).call (ofStore fmt s) =
      (.ok (), ofStore fmt { s with idempotencyKeys := s.idempotencyKeys.insert k id }) := by
  refine call_put (f := .refl String) (g := fun id => fmt.text (key id)) hk rfl rfl fun b hb => ?_
  cases b <;> first | rfl | exact absurd rfl hb

theorem call_eraseKey (s : BoltStore) (k : String) :
    (erase .idempotencyKeys k).call (ofStore fmt s) =
      (.ok (), ofStore fmt { s with idempotencyKeys := s.idempotencyKeys.erase k }) := by
  refine call_erase (f := .refl String) (g := fun id => fmt.text (key id)) rfl rfl fun b hb => ?_
  cases b <;> first | rfl | exact absurd rfl hb

/-- What a write to the bucket of a status is in the file. -/
theorem status_bucket (s : BoltStore) {status : Status} {b : BucketName} (hb : getStatusBucket status = some b) :
    ∃ m, ofStore fmt s b = GoMap.encode keyEmbedding (fun _ => fmt.text "") m ∧
      ∀ g, ofStore fmt (s.onStatusBucket g status) b = GoMap.encode keyEmbedding (fun _ => fmt.text "") (g m) ∧
        ∀ b', b' ≠ b → ofStore fmt s b' = ofStore fmt (s.onStatusBucket g status) b' := by
  cases status with
  | other name hn => cases hb
  | pending | scheduled | completed | failed | cancelled =>
    cases hb
    refine ⟨_, rfl, fun g => ⟨rfl, fun b hb => ?_⟩⟩
    cases b <;> first | rfl | exact absurd rfl hb

/-- A status without a bucket. -/
theorem onStatusBucket_none (s : BoltStore) {status : Status} (hb : getStatusBucket status = none)
    (g : GoMap Int Unit → GoMap Int Unit) :
    s.onStatusBucket g status = s := by
  cases status with
  | other name hn => rfl
  | pending | scheduled | completed | failed | cancelled => cases hb

theorem call_addToStatusBucket (s : BoltStore) (status : Status) {id : Int} (hid : IsInt id) :
    (addToStatusBucket fmt status id).call (ofStore fmt s) = (.ok (), ofStore fmt (s.addToStatusBucket status id)) := by
  unfold addToStatusBucket BoltStore.addToStatusBucket
  cases hb : getStatusBucket status with
  | none =>
    rw [onStatusBucket_none s hb]
    rfl
  | some b =>
    obtain ⟨m, hm, hset⟩ := status_bucket fmt s hb
    obtain ⟨hm', hother⟩ := hset fun m => m.insert id ()
    exact call_put (f := keyEmbedding) (g := fun _ => fmt.text "") (checkKey_key hid) hm hm' hother

theorem call_removeFromStatusBucket (s : BoltStore) (status : Status) (id : Int) :
    (removeFromStatusBucket status id).call (ofStore fmt s) =
      (.ok (), ofStore fmt (s.removeFromStatusBucket status id)) := by
  unfold removeFromStatusBucket BoltStore.removeFromStatusBucket
  cases hb : getStatusBucket status with
  | none =>
    rw [onStatusBucket_none s hb]
    rfl
  | some b =>
    obtain ⟨m, hm, hset⟩ := status_bucket fmt s hb
    obtain ⟨hm', hother⟩ := hset fun m => m.erase id
    exact call_erase (f := keyEmbedding) hm hm' hother

/-! ## What each call does -/

/-- The outcome of a call on a store, with its file. -/
def lift {α : Type} (r : Except String α × BoltStore) : Except String α × BoltFile β := (r.1, ofStore fmt r.2)

theorem call_add (s : BoltStore) {j : Job} (hj : IsInt j.id) :
    (add fmt j).call (ofStore fmt s) = lift fmt (outcome s (s.add j)) := by
  unfold add BoltStore.add
  rw [Method.call_transaction, Method.call_bind, call_putJob fmt s hj]
  dsimp only
  by_cases hk : j.idempotencyKey = ""
  · rw [if_neg (not_not.2 hk), if_neg (not_not.2 hk)]
    rw [call_addToStatusBucket fmt _ _ hj]
    rfl
  · rw [if_pos hk, if_pos hk, Method.call_bind, Method.call_tryCatch]
    -- the job is written by now, and rolled back if the key is refused
    cases hcheck : BoltStore.checkKey j.idempotencyKey with
    | error err =>
      unfold put
      rw [hcheck]
      rfl
    | ok =>
      rw [call_putKey fmt _ hcheck]
      dsimp only
      rw [call_addToStatusBucket fmt _ _ hj]
      rfl

theorem call_update (s : BoltStore) {j : Job} (hj : IsInt j.id) :
    (update fmt j).call (ofStore fmt s) = lift fmt (outcome s (s.update j)) := by
  unfold update BoltStore.update
  rw [Method.call_transaction, Method.call_get_bind, lookup_jobs]
  cases s.jobs.lookup j.id with
  | none => rfl
  | some existing =>
    simp only [Option.map_some, fmt.unmarshalJob_marshalJob]
    by_cases hv : isValidTransition existing.status j.status = false
    · rw [if_pos hv, if_pos hv]
      rfl
    · rw [if_neg hv, if_neg hv]
      simp only [Method.call_bind, call_removeFromStatusBucket, call_putJob fmt _ hj, call_addToStatusBucket fmt _ _ hj]
      rfl

theorem call_delete (s : BoltStore) (id : Int) :
    (delete fmt id).call (ofStore fmt s) = lift fmt (.ok (s.delete id).1, (s.delete id).2) := by
  unfold delete BoltStore.delete
  rw [Method.call_transaction, Method.call_get_bind, lookup_jobs]
  cases s.jobs.lookup id with
  | none => rfl
  | some j =>
    simp only [Option.map_some, fmt.unmarshalJob_marshalJob]
    by_cases hk : j.idempotencyKey = ""
    · rw [if_neg (not_not.2 hk), if_neg (not_not.2 hk)]
      simp only [Method.call_bind, call_removeFromStatusBucket, call_eraseJob]
      rfl
    · rw [if_pos hk, if_pos hk]
      simp only [Method.call_bind, call_removeFromStatusBucket, call_eraseKey, call_eraseJob]
      rfl

theorem call_cancel (s : BoltStore) {id : Int} (hid : IsInt id) (hs : ∀ j, s.jobs.lookup id = some j → IsInt j.id) :
    (cancel fmt id).call (ofStore fmt s) = lift fmt (outcome s (s.cancel id)) := by
  unfold cancel BoltStore.cancel
  rw [Method.call_transaction, Method.call_get_bind, lookup_jobs]
  cases hj : s.jobs.lookup id with
  | none => rfl
  | some j =>
    simp only [Option.map_some, fmt.unmarshalJob_marshalJob]
    by_cases ht : j.status.isTerminal = true
    · rw [if_pos ht, if_pos ht]
      rfl
    · rw [if_neg ht, if_neg ht]
      have hput : IsInt ({ j with status := .cancelled } : Job).id := hs j hj
      simp only [Method.call_bind, call_removeFromStatusBucket, call_putJob fmt _ hput,
        call_addToStatusBucket fmt _ _ hid]
      rfl

theorem call_addCron (s : BoltStore) (c : CronJob) :
    (addCron fmt c).call (ofStore fmt s) = lift fmt (outcome s (s.addCron c)) := by
  unfold addCron BoltStore.addCron
  rw [Method.call_transaction]
  cases hk : BoltStore.checkKey c.id with
  | error err =>
    unfold put
    rw [hk]
    rfl
  | ok =>
    have hput : (put .cronJobs c.id (fmt.marshalCron c)).call (ofStore fmt s) =
        (.ok (), ofStore fmt { s with cronJobs := s.cronJobs.insert c.id c }) := by
      refine call_put (f := .refl String) (g := fmt.marshalCron) hk rfl rfl fun b hb => ?_
      cases b <;> first | rfl | exact absurd rfl hb
    rw [hput]
    rfl

theorem call_deleteCron (s : BoltStore) (id : String) :
    (deleteCron id).call (ofStore fmt s) = lift fmt (.ok (s.deleteCron id).1, (s.deleteCron id).2) := by
  have hlookup : (ofStore fmt s .cronJobs).lookup id = (s.cronJobs.lookup id).map fmt.marshalCron :=
    GoMap.lookup_encode (.refl String) fmt.marshalCron s.cronJobs id
  unfold deleteCron BoltStore.deleteCron
  rw [Method.call_transaction, Method.call_get_bind, hlookup]
  cases s.cronJobs.lookup id with
  | none => rfl
  | some c =>
    have herase : (erase .cronJobs id).call (ofStore fmt s) =
        (.ok (), ofStore fmt { s with cronJobs := s.cronJobs.erase id }) := by
      refine call_erase (f := .refl String) (g := fmt.marshalCron) rfl rfl fun b hb => ?_
      cases b <;> first | rfl | exact absurd rfl hb
    simp only [Option.map_some, Method.call_bind, herase]
    rfl

theorem call_addDLQ (s : BoltStore) {j : Job} (hj : IsInt j.id) :
    (addDLQ fmt j).call (ofStore fmt s) = (.ok (), ofStore fmt (s.addDLQ j)) := by
  have hput : (put .dlq (key j.id) (fmt.marshalJob j)).call (ofStore fmt s) = (.ok (), ofStore fmt (s.addDLQ j)) := by
    refine call_put (f := keyEmbedding) (g := fmt.marshalJob) (checkKey_key hj) rfl rfl fun b hb => ?_
    cases b <;> first | rfl | exact absurd rfl hb
  unfold addDLQ
  rw [Method.call_transaction, hput]

/-! ## Sequences of calls -/

/-- The ids of a call are values of `int`. -/
def Ints : Write → Prop
  | .add j => IsInt j.id
  | .update j => IsInt j.id
  | .delete id => IsInt id
  | .cancel id => IsInt id
  | .addCron _ => True
  | .deleteCron _ => True
  | .addDLQ j => IsInt j.id

instance : (w : Write) → Decidable (Ints w)
  | .add j => inferInstanceAs (Decidable (IsInt j.id))
  | .update j => inferInstanceAs (Decidable (IsInt j.id))
  | .delete id => inferInstanceAs (Decidable (IsInt id))
  | .cancel id => inferInstanceAs (Decidable (IsInt id))
  | .addCron _ => inferInstanceAs (Decidable True)
  | .deleteCron _ => inferInstanceAs (Decidable True)
  | .addDLQ j => inferInstanceAs (Decidable (IsInt j.id))

/-- The ids in the tables are values of `int`. -/
structure IntTables (t : Tables) : Prop where
  job : ∀ id j, t.job id = some j → IsInt j.id
  key : ∀ k id, t.key k = some id → IsInt id

theorem IntTables.write {t : Tables} (h : IntTables t) (L : Limits) {w : Write} (hw : Ints w) :
    IntTables (t.write L w).1 := by
  constructor
  · intro id x hx
    have hch := Tables.write_job L t w id
    rw [hx] at hch
    generalize hy : some x = y at hch
    cases hch with
    | same => exact h.job id x hy.symm
    | added _ | updated _ _ =>
      cases hy
      exact hw
    | deleted => cases hy
    | @cancelled i j hj _ =>
      cases hy
      exact h.job i j hj
  · intro k id hk
    cases w with
    | add j =>
      simp only [Tables.write] at hk
      split at hk
      · dsimp only at hk
        split at hk
        · cases hk; exact hw
        · exact h.key k id hk
      · exact h.key k id hk
    | update j =>
      simp only [Tables.write] at hk
      split at hk <;> exact h.key k id hk
    | delete i =>
      simp only [Tables.write] at hk
      split at hk
      · cases hk
      · exact h.key k id hk
    | cancel i =>
      simp only [Tables.write] at hk
      split at hk <;> exact h.key k id hk
    | addCron c =>
      simp only [Tables.write] at hk
      split at hk <;> exact h.key k id hk
    | deleteCron _ | addDLQ _ => exact h.key k id hk

/-- A method that returns no more than an error, as a call. -/
theorem call_settle {m : Method (BoltFile β) Unit} {s : BoltStore} {r : Except String BoltStore}
    (h : m.call (ofStore fmt s) = lift fmt (outcome s r)) :
    (do m; return true : Method (BoltFile β) Bool).call (ofStore fmt s) =
      ((Store.settle s r).2, ofStore fmt (Store.settle s r).1) := by
  rw [Method.call_bind, h]
  cases r <;> rfl

theorem call_write {s : BoltStore} (hs : IntTables (Store.tables s)) {w : Write} (hw : Ints w) :
    (write fmt w).call (ofStore fmt s) = ((Store.write s w).2, ofStore fmt (Store.write s w).1) := by
  cases w with
  | add j => exact call_settle fmt (call_add fmt s hw)
  | update j => exact call_settle fmt (call_update fmt s hw)
  | delete id => exact call_delete fmt s id
  | cancel id => exact call_settle fmt (call_cancel fmt s hw (hs.job id))
  | addCron c => exact call_settle fmt (call_addCron fmt s c)
  | deleteCron id => exact call_deleteCron fmt s id
  | addDLQ j =>
    unfold write
    rw [Method.call_bind, call_addDLQ fmt s hw]
    rfl

/-- The file under a sequence of calls is the file of the store, and each call returns the same. -/
theorem exec_ofStore {s : BoltStore} (hk : Store.Keyed s) (hs : IntTables (Store.tables s)) {ws : List Write}
    (hws : ∀ w ∈ ws, Ints w) :
    (writes fmt).exec (ofStore fmt s) ws = ofStore fmt (Store.writes.exec s ws) ∧
      (writes fmt).trace (ofStore fmt s) ws = Store.writes.trace s ws ∧
      IntTables (Store.tables (Store.writes.exec s ws)) := by
  induction ws generalizing s with
  | nil => exact ⟨rfl, rfl, hs⟩
  | cons w ws ih =>
    obtain ⟨hw, hrest⟩ := List.forall_mem_cons.1 hws
    have hcall := call_write fmt hs hw
    have hints := hs.write (Store.limits BoltStore) hw
    rw [← Store.write_tables hk w] at hints
    obtain ⟨hexec, htrace, hfinal⟩ := ih (Store.keyed_write hk w) hints hrest
    have hstep : (writes fmt).step (ofStore fmt s) w = (ofStore fmt (Store.write s w).1, [(Store.write s w).2]) := by
      unfold writes
      dsimp only
      rw [hcall]
    refine ⟨?_, ?_, hfinal⟩
    · rw [Machine.exec_cons, hstep]
      exact hexec
    · rw [Machine.trace_cons, hstep, htrace]
      rfl

/-! ## The reads -/

/-- The order of the decimal texts of ids. -/
def decimal : RangeOrder Int := .sortedBy (· ≤ ·) key

theorem decodeAll_map {α : Type} {marshal : α → β} {unmarshal : β → Except String α}
    (h : ∀ a, unmarshal (marshal a) = .ok a) (as : List α) : decodeAll unmarshal (as.map marshal) = (as, none) := by
  induction as with
  | nil => rfl
  | cons a as ih => rw [List.map_cons, decodeAll, h, ih]

theorem get_ofStore (s : BoltStore) (id : Int) : get fmt (ofStore fmt s) id = s.get id := by
  unfold get BoltStore.get
  rw [lookup_jobs]
  cases s.jobs.lookup id with
  | none => rfl
  | some j =>
    rw [Option.map_some, Option.bind_some, fmt.unmarshalJob_marshalJob]
    rfl

theorem list_ofStore (s : BoltStore) : list fmt (ofStore fmt s) = s.list decimal := by
  have hvalues : (ofStore fmt s .jobs).values byteOrder = (s.jobs.values decimal).map fmt.marshalJob :=
    GoMap.values_encode keyEmbedding fmt.marshalJob (· ≤ ·) s.jobs
  unfold list
  rw [hvalues, decodeAll_map fmt.unmarshalJob_marshalJob]
  rfl

/-- The walk of `ListByStatus` over the bucket of a status. -/
theorem walk_ofStore (s : BoltStore) (ids : GoMap Int Unit) (g : Unit → β) :
    decodeAll fmt.unmarshalJob
      ((byteOrder.order (GoMap.encode keyEmbedding g ids).keys).filterMap (ofStore fmt s .jobs).lookup) =
      ((decimal.order ids.keys).filterMap s.jobs.lookup, none) := by
  have hwalk := GoMap.walk_encode keyEmbedding g (· ≤ ·) ids (ofStore fmt s .jobs).lookup
  have hjobs : (fun id => (ofStore fmt s .jobs).lookup (keyEmbedding id)) = fun id =>
      (s.jobs.lookup id).map fmt.marshalJob :=
    funext (lookup_jobs fmt s)
  rw [hjobs, ← List.map_filterMap] at hwalk
  exact (congrArg (decodeAll fmt.unmarshalJob) hwalk).trans (decodeAll_map fmt.unmarshalJob_marshalJob _)

theorem listByStatus_ofStore (s : BoltStore) (status : Status) :
    ∃ jobs, s.listByStatus decimal status = .ok jobs ∧ listByStatus fmt (ofStore fmt s) status = (jobs, none) := by
  cases status with
  | other name hn => exact ⟨[], rfl, rfl⟩
  | pending | scheduled | completed | failed | cancelled => exact ⟨_, rfl, walk_ofStore fmt s _ _⟩

theorem listCrons_ofStore (s : BoltStore) : listCrons fmt (ofStore fmt s) = (s.listCrons byteOrder, none) := by
  have hvalues : (ofStore fmt s .cronJobs).values byteOrder = (s.cronJobs.values byteOrder).map fmt.marshalCron :=
    GoMap.values_encode (.refl String) fmt.marshalCron (· ≤ ·) s.cronJobs
  unfold listCrons
  rw [hvalues, decodeAll_map fmt.unmarshalCron_marshalCron]
  rfl

theorem listDLQ_ofStore (s : BoltStore) : listDLQ fmt (ofStore fmt s) = (s.listDLQ decimal, none) := by
  have hvalues : (ofStore fmt s .dlq).values byteOrder = (s.dlq.values decimal).map fmt.marshalJob :=
    GoMap.values_encode keyEmbedding fmt.marshalJob (· ≤ ·) s.dlq
  unfold listDLQ
  rw [hvalues, decodeAll_map fmt.unmarshalJob_marshalJob]
  rfl

theorem find_ofStore {s : BoltStore} (hs : IntTables (Store.tables s)) (ikey : String) :
    findByIdempotencyKey fmt (ofStore fmt s) ikey = s.findByIdempotencyKey ikey := by
  unfold findByIdempotencyKey BoltStore.findByIdempotencyKey
  by_cases hkey : ikey = ""
  · rw [if_pos hkey, if_pos hkey]
  · rw [if_neg hkey, if_neg hkey]
    have hlookup : (ofStore fmt s .idempotencyKeys).lookup ikey =
        (s.idempotencyKeys.lookup ikey).map fun id => fmt.text (key id) :=
      GoMap.lookup_encode (.refl String) (fun id => fmt.text (key id)) s.idempotencyKeys ikey
    rw [hlookup]
    cases hid : s.idempotencyKeys.lookup ikey with
    | none => rfl
    | some id =>
      have hint : IsInt id := by
        refine hs.key ikey id ?_
        show lookupKey s.idempotencyKeys ikey = some id
        rw [lookupKey, if_neg hkey, hid]
      simp only [Option.map_some, Option.bind_eq_bind, Option.bind_some, fmt.string_text, atoi_key hint]
      exact get_ofStore fmt s id

/-- Every read of the file gives what the store has, lists in the order of the bytes of the keys. -/
structure Shows (f : BoltFile β) (s : BoltStore) : Prop where
  get : ∀ id, get fmt f id = s.get id
  list : list fmt f = s.list decimal
  listByStatus : ∀ status, ∃ jobs, s.listByStatus decimal status = .ok jobs ∧ listByStatus fmt f status = (jobs, none)
  listCrons : listCrons fmt f = (s.listCrons byteOrder, none)
  listDLQ : listDLQ fmt f = (s.listDLQ decimal, none)
  find : ∀ ikey, findByIdempotencyKey fmt f ikey = s.findByIdempotencyKey ikey

/-- A file behaves as the store under every sequence of calls: each call returns the same, errors with their texts,
and afterwards every read of the file shows the store. -/
theorem file_shows_store {ws : List Write} (hws : ∀ w ∈ ws, Ints w) :
    (writes fmt).trace new ws = Store.writes.trace BoltStore.new ws ∧
      Shows fmt ((writes fmt).exec new ws) (Store.writes.exec BoltStore.new ws) := by
  have hnew : IntTables (Store.tables BoltStore.new) := by
    rw [show Store.tables BoltStore.new = .empty from Store.tables_empty]
    constructor
    · intro id j hj
      cases hj
    · intro k id hk
      cases hk
  have hkeyed : Store.Keyed BoltStore.new := Store.keyed_of_wf LawfulStore.wf_empty
  obtain ⟨hexec, htrace, hints⟩ := exec_ofStore fmt hkeyed hnew hws
  rw [ofStore_new] at hexec htrace
  rw [hexec]
  exact ⟨htrace, get_ofStore fmt _, list_ofStore fmt _, listByStatus_ofStore fmt _, listCrons_ofStore fmt _,
    listDLQ_ofStore fmt _, find_ofStore fmt hints⟩

end

/-- What is written, as it is. -/
inductive Plain where
  | text (s : String)
  | job (j : Job)
  | cron (c : CronJob)

def plain : Format Plain where
  text := .text
  string
    | .text s => s
    | _ => ""
  marshalJob := .job
  unmarshalJob
    | .job j => .ok j
    | _ => .error "no job"
  marshalCron := .cron
  unmarshalCron
    | .cron c => .ok c
    | _ => .error "no cron"
  string_text _ := rfl
  unmarshalJob_marshalJob _ := rfl
  unmarshalCron_marshalCron _ := rfl

/-- Job 10 is listed before job 2; an update of a job that has finished is refused. -/
theorem file_shows_tenth_job :
    let ws : List Write :=
      [.add (.newJob 2 "email" 1), .add { Job.newJob 10 "sms" 1 with idempotencyKey := "k" }, .cancel 2,
        .update { Job.newJob 2 "email" 1 with status := .completed }, .delete 3]
    (list plain ((writes plain).exec new ws)).map Job.id = [10, 2] ∧
      ((writes plain).trace new ws).map Except.toOption = [some true, some true, some true, none, some false] ∧
      Shows plain ((writes plain).exec new ws) (Store.writes.exec BoltStore.new ws) := by
  intro ws
  have hints : ∀ w ∈ ws, Ints w := by decide
  obtain ⟨htrace, hshows⟩ := file_shows_store plain hints
  refine ⟨?_, ?_, hshows⟩
  · rw [hshows.list]
    decide +kernel
  · rw [htrace]
    decide +kernel

end BoltFile

end Quorum
