/-
The write-ahead log (`internal/storage/wal.go`): one JSON record per line, appended to a file, and read back line by
line up to the first one that does not decode. A crash leaves a file that may end within a record. `Replay` of such a
file returns the jobs that the records before the tear leave pending; but records that are written after it are glued
to the torn one, and lost. Without a crash everything is read back, unless a record is too long for the scanner, and
then nothing is.
-/
import Quorum.Job.Basic
import Quorum.Lib.GoMap
import Quorum.Lib.Lines
import Quorum.Lib.Machine

namespace Quorum

namespace Wal

/-- `storage.EventType`, a string type. -/
inductive EventType where
  | submit
  | retry
  | failed
  | complete
  | cancel
  | other (name : String)
  deriving DecidableEq

/-- `storage.record`. -/
structure Record where
  kind : EventType
  job : Option Job
  jobID : Int
  deriving DecidableEq

/-- What `encoding/json` does with the two types: the text it writes, and the value it reads if it accepts a line. -/
structure Json where
  marshal : Record → List UInt8
  unmarshalRecord : List UInt8 → Option Record
  unmarshalJob : List UInt8 → Option Job

section
variable (json : Json)

/-- The file is opened with `O_APPEND`: whatever `Replay` has read, a write goes to its end. -/
def appendRecord (file : List UInt8) (r : Record) : List UInt8 := file ++ (json.marshal r ++ [newline])

def append (file : List UInt8) (j : Job) : List UInt8 := appendRecord json file ⟨.submit, some j, 0⟩

def appendRetry (file : List UInt8) (j : Job) : List UInt8 := appendRecord json file ⟨.retry, some j, 0⟩

def appendFailure (file : List UInt8) (j : Job) : List UInt8 := appendRecord json file ⟨.failed, some j, 0⟩

def appendCompletion (file : List UInt8) (jobID : Int) : List UInt8 := appendRecord json file ⟨.complete, none, jobID⟩

def appendCancel (file : List UInt8) (jobID : Int) : List UInt8 := appendRecord json file ⟨.cancel, none, jobID⟩

/-- The `switch` of `Replay`. -/
def replayRecord (pending : GoMap Int Job) (r : Record) : GoMap Int Job :=
  match r.kind with
  | .submit | .retry =>
    match r.job with
    | some j => pending.insert j.id j
    | none => pending
  | .failed =>
    match r.job with
    | some j => pending.erase j.id
    | none => pending
  | .cancel | .complete => pending.erase r.jobID
  | .other _ => pending

/-- The loop of `Replay` over the lines of the file. -/
def replayLoop (pending : GoMap Int Job) : List (List UInt8) → Except String (GoMap Int Job)
  | [] => .ok pending
  | raw :: rest =>
    if maxScanTokenSize ≤ raw.length then .error "bufio.Scanner: token too long"
    else
      let line := dropCR raw
      match (json.unmarshalRecord line).filter fun r => r.kind ≠ .other "" with
      | some r => replayLoop (replayRecord pending r) rest
      | none =>
        match json.unmarshalJob line with
        -- corrupted or truncated: the rest of the file is not read
        | none => .ok pending
        | some legacyJob => replayLoop (pending.insert legacyJob.id legacyJob) rest

def replay (ord : RangeOrder Int) (file : List UInt8) : Except String (List Job) :=
  (replayLoop json ∅ (lines file)).map fun pending => pending.values ord

end

/-! ## What a log says -/

/-- A call of one of the five methods. -/
inductive Entry where
  | submit (j : Job)
  | retry (j : Job)
  | failure (j : Job)
  | completion (jobID : Int)
  | cancel (jobID : Int)
  deriving DecidableEq

def Entry.record : Entry → Record
  | .submit j => ⟨.submit, some j, 0⟩
  | .retry j => ⟨.retry, some j, 0⟩
  | .failure j => ⟨.failed, some j, 0⟩
  | .completion jobID => ⟨.complete, none, jobID⟩
  | .cancel jobID => ⟨.cancel, none, jobID⟩

/-- The file after the call. -/
def write (json : Json) (file : List UInt8) : Entry → List UInt8
  | .submit j => append json file j
  | .retry j => appendRetry json file j
  | .failure j => appendFailure json file j
  | .completion jobID => appendCompletion json file jobID
  | .cancel jobID => appendCancel json file jobID

/-- The jobs that are pending, by id: submit and retry set the job, the others remove it. -/
def effect (m : Int → Option Job) : Entry → Int → Option Job
  | .submit j | .retry j => fun k => if k = j.id then some j else m k
  | .failure j => fun k => if k = j.id then none else m k
  | .completion jobID | .cancel jobID => fun k => if k = jobID then none else m k

/-- The jobs that a list of calls leaves pending. -/
def jobsAfter (entries : List Entry) : Int → Option Job := entries.foldl effect fun _ => none

/-- The call of `Replay` returned exactly these jobs, each once. -/
def Returns (r : Except String (List Job)) (m : Int → Option Job) : Prop :=
  ∃ jobs, r = .ok jobs ∧ (jobs.map Job.id).Nodup ∧ ∀ j, j ∈ jobs ↔ m j.id = some j

/-- The records whose text lies within the first `n` bytes of the file. -/
def complete (json : Json) : List Entry → Nat → List Entry
  | [], _ => []
  | e :: entries, n =>
    if (json.marshal e.record).length ≤ n then e :: complete json entries (n - ((json.marshal e.record).length + 1))
    else []

/-- What `encoding/json` is assumed to do with a record: it writes an object on one line, reads back what it wrote, and
accepts no proper non-empty beginning of it. -/
structure Json.Sound (json : Json) (r : Record) : Prop where
  nonempty : json.marshal r ≠ []
  oneLine : newline ∉ json.marshal r ∧ 13 ∉ json.marshal r
  readBack : json.unmarshalRecord (json.marshal r) = some r
  noBeginning : ∀ p, p <+: json.marshal r → p ≠ [] → p ≠ json.marshal r →
    json.unmarshalRecord p = none ∧ json.unmarshalJob p = none

/-- The assumptions about a record that is written whole: it stands on one line, as the scanner sees lines, and is
read back. -/
structure Json.RoundTrips (json : Json) (r : Record) : Prop where
  oneLine : newline ∉ json.marshal r
  keepsEnd : dropCR (json.marshal r) = json.marshal r
  readBack : json.unmarshalRecord (json.marshal r) = some r

/-- Two objects on one line, the first of them whole or torn, are not accepted. -/
def Json.Separates (json : Json) (r r' : Record) : Prop :=
  ∀ p, p <+: json.marshal r → p ≠ [] →
    json.unmarshalRecord (p ++ json.marshal r') = none ∧ json.unmarshalJob (p ++ json.marshal r') = none

/-- The record can be written and read: the codec is sound for it, and its line fits into the scanner's buffer. -/
structure Fits (json : Json) (e : Entry) : Prop where
  sound : json.Sound e.record
  short : (json.marshal e.record).length < maxScanTokenSize

theorem Json.Sound.roundTrips {json : Json} {r : Record} (h : json.Sound r) : json.RoundTrips r :=
  ⟨h.oneLine.1, dropCR_of_not_mem h.oneLine.2, h.readBack⟩

section
variable {json : Json}

/-- The bytes of a call. -/
def line (json : Json) (e : Entry) : List UInt8 := json.marshal e.record ++ [newline]

/-- The file of a list of calls. -/
def written (json : Json) (entries : List Entry) : List UInt8 := entries.foldl (write json) []

theorem write_eq (file : List UInt8) (e : Entry) : write json file e = file ++ line json e := by
  cases e <;> rfl

theorem foldl_write (file : List UInt8) (entries : List Entry) :
    entries.foldl (write json) file = file ++ written json entries := by
  unfold written
  induction entries generalizing file with
  | nil => simp
  | cons e entries ih => rw [List.foldl_cons, List.foldl_cons, ih, ih (write json [] e), write_eq, write_eq]; simp

theorem written_cons (e : Entry) (entries : List Entry) :
    written json (e :: entries) = json.marshal e.record ++ newline :: written json entries := by
  have hfold : entries.foldl (write json) (write json [] e) = write json [] e ++ written json entries :=
    foldl_write _ entries
  rw [written, List.foldl_cons, hfold, write_eq]
  simp [line]

theorem written_append (entries more : List Entry) :
    written json (entries ++ more) = written json entries ++ written json more := by
  rw [written, List.foldl_append, foldl_write]
  rfl

/-! ## The pending jobs -/

/-- The map of the loop holds the jobs by id. -/
def Holds (pending : GoMap Int Job) (m : Int → Option Job) : Prop := ∀ k, pending.lookup k = m k

theorem Holds.replayRecord {pending : GoMap Int Job} {m : Int → Option Job} (h : Holds pending m) (e : Entry) :
    Holds (Wal.replayRecord pending e.record) (effect m e) := by
  intro k
  cases e with
  | submit j | retry j =>
    show (pending.insert j.id j).lookup k = if k = j.id then some j else m k
    rw [GoMap.lookup_insert_ite, h k]
  | failure j =>
    show (pending.erase j.id).lookup k = if k = j.id then none else m k
    rw [GoMap.lookup_erase_ite, h k]
  | completion id | cancel id =>
    show (pending.erase id).lookup k = if k = id then none else m k
    rw [GoMap.lookup_erase_ite, h k]

theorem Holds.foldl {pending : GoMap Int Job} {m : Int → Option Job} (h : Holds pending m) (entries : List Entry) :
    Holds (entries.foldl (fun p e => Wal.replayRecord p e.record) pending) (entries.foldl effect m) := by
  induction entries generalizing pending m with
  | nil => exact h
  | cons e entries ih => exact ih (h.replayRecord e)

theorem holds_replayed (entries : List Entry) :
    Holds (entries.foldl (fun p e => Wal.replayRecord p e.record) ∅) (jobsAfter entries) := by
  have hempty : Holds ∅ fun _ => none := fun k => rfl
  exact hempty.foldl entries

theorem jobsAfter_id {entries : List Entry} {k : Int} {j : Job} (h : jobsAfter entries k = some j) : j.id = k := by
  unfold jobsAfter at h
  induction entries using List.reverseRecOn generalizing k j with
  | nil => cases h
  | append_singleton entries e ih =>
    rw [List.foldl_append] at h
    cases e with
    | submit j' | retry j' =>
      simp only [List.foldl_cons, List.foldl_nil, effect] at h
      split at h
      · rename_i hk
        cases h
        exact hk.symm
      · exact ih h
    | failure | completion | cancel =>
      simp only [List.foldl_cons, List.foldl_nil, effect] at h
      split at h
      · cases h
      · exact ih h

theorem returns_of_holds {ord : RangeOrder Int} {file : List UInt8} {pending : GoMap Int Job} {entries : List Entry}
    (hloop : replayLoop json ∅ (lines file) = .ok pending) (h : Holds pending (jobsAfter entries)) :
    Returns (replay json ord file) (jobsAfter entries) := by
  have hkey : ∀ k j, pending.lookup k = some j → j.id = k := fun k j hk => jobsAfter_id ((h k).symm.trans hk)
  refine ⟨pending.values ord, ?_, GoMap.nodup_map_values ord hkey, fun j => ?_⟩
  · unfold replay
    rw [hloop]
    rfl
  · rw [GoMap.mem_values, ← h j.id]
    constructor
    · rintro ⟨k, hk⟩
      rw [hkey k j hk]
      exact hk
    · intro hj
      exact ⟨j.id, hj⟩

/-- What a call returned determines the jobs by id. -/
theorem returns_unique {r : Except String (List Job)} {entries more : List Entry} (h : Returns r (jobsAfter entries))
    (h' : Returns r (jobsAfter more)) : jobsAfter entries = jobsAfter more := by
  obtain ⟨jobs, hr, -, hmem⟩ := h
  obtain ⟨jobs', hr', -, hmem'⟩ := h'
  rw [hr] at hr'
  cases hr'
  have hsame : ∀ j, jobsAfter entries j.id = some j ↔ jobsAfter more j.id = some j :=
    fun j => (hmem j).symm.trans (hmem' j)
  funext k
  refine Option.ext fun j => ?_
  constructor
  · intro hj
    have hid := jobsAfter_id hj
    subst hid
    exact (hsame j).1 hj
  · intro hj
    have hid := jobsAfter_id hj
    subst hid
    exact (hsame j).2 hj

/-! ## The lines of the file -/

theorem replayLoop_record (pending : GoMap Int Job) {e : Entry} (h : json.RoundTrips e.record)
    (hshort : (json.marshal e.record).length < maxScanTokenSize) (rest : List (List UInt8)) :
    replayLoop json pending (json.marshal e.record :: rest) = replayLoop json (replayRecord pending e.record) rest := by
  have hkind : e.record.kind ≠ .other "" := by cases e <;> exact nofun
  have hread : (json.unmarshalRecord (json.marshal e.record)).filter (fun r => r.kind ≠ .other "") = some e.record := by
    rw [h.readBack]
    simpa using hkind
  rw [replayLoop, if_neg (not_le.2 hshort)]
  dsimp only
  rw [h.keepsEnd, hread]

/-- A line that does not fit into the buffer ends the loop with an error, whatever it has read until then. -/
theorem replayLoop_long (pending : GoMap Int Job) {raw : List UInt8} (hlong : maxScanTokenSize ≤ raw.length)
    (rest : List (List UInt8)) : replayLoop json pending (raw :: rest) = .error "bufio.Scanner: token too long" := by
  rw [replayLoop, if_pos hlong]

/-- A line that does not decode ends the loop. -/
theorem replayLoop_rejected (pending : GoMap Int Job) {raw : List UInt8} (hshort : raw.length < maxScanTokenSize)
    (hcr : 13 ∉ raw) (hrecord : json.unmarshalRecord raw = none) (hjob : json.unmarshalJob raw = none)
    (rest : List (List UInt8)) :
    replayLoop json pending (raw :: rest) = .ok pending := by
  rw [replayLoop, if_neg (not_le.2 hshort)]
  dsimp only
  rw [dropCR_of_not_mem hcr, hrecord, Option.filter_none]
  dsimp only
  rw [hjob]

/-- The whole records at the start of a file are replayed one after the other. -/
theorem replayLoop_written {entries : List Entry} (h : ∀ e ∈ entries, json.RoundTrips e.record)
    (hshort : ∀ e ∈ entries, (json.marshal e.record).length < maxScanTokenSize) (pending : GoMap Int Job)
    (tail : List UInt8) :
    replayLoop json pending (lines (written json entries ++ tail)) =
      replayLoop json (entries.foldl (fun p e => replayRecord p e.record) pending) (lines tail) := by
  induction entries generalizing pending with
  | nil => rfl
  | cons e entries ih =>
    have he := h e List.mem_cons_self
    rw [written_cons, List.append_assoc, List.cons_append, lines_terminated he.oneLine,
      replayLoop_record pending he (hshort e List.mem_cons_self)]
    exact ih (fun e' he' => h e' (List.mem_cons_of_mem e he')) (fun e' he' => hshort e' (List.mem_cons_of_mem e he')) _

/-- Up to the first record that is too long the loop goes on, and there it ends with an error. -/
theorem replayLoop_written_long {entries : List Entry} (h : ∀ e ∈ entries, json.RoundTrips e.record) {e : Entry}
    (he : e ∈ entries) (hlong : maxScanTokenSize ≤ (json.marshal e.record).length) (pending : GoMap Int Job)
    (tail : List UInt8) :
    replayLoop json pending (lines (written json entries ++ tail)) = .error "bufio.Scanner: token too long" := by
  induction entries generalizing pending with
  | nil => cases he
  | cons first rest ih =>
    have hfirst := h first List.mem_cons_self
    rw [written_cons, List.append_assoc, List.cons_append, lines_terminated hfirst.oneLine]
    by_cases hshort : (json.marshal first.record).length < maxScanTokenSize
    · rw [replayLoop_record pending hfirst hshort]
      rcases List.mem_cons.1 he with rfl | he
      · omega
      · exact ih (fun e' he' => h e' (List.mem_cons_of_mem first he')) he _
    · exact replayLoop_long pending (not_lt.1 hshort) _

/-- A file whose loop ends with an error returns no jobs. -/
theorem not_returns {ord : RangeOrder Int} {file : List UInt8} {err : String} {m : Int → Option Job}
    (hloop : replayLoop json ∅ (lines file) = .error err) : ¬ Returns (replay json ord file) m := by
  rintro ⟨jobs, hjobs, -⟩
  unfold replay at hjobs
  rw [hloop] at hjobs
  cases hjobs

theorem replay_written {entries : List Entry} (h : ∀ e ∈ entries, json.RoundTrips e.record)
    (hshort : ∀ e ∈ entries, (json.marshal e.record).length < maxScanTokenSize) (ord : RangeOrder Int) :
    Returns (replay json ord (written json entries)) (jobsAfter entries) := by
  have hloop := replayLoop_written h hshort ∅ []
  rw [List.append_nil] at hloop
  exact returns_of_holds hloop (holds_replayed entries)

/-- One record that is too long makes the whole file unreadable. -/
theorem replay_written_long {entries : List Entry} (h : ∀ e ∈ entries, json.RoundTrips e.record) {e : Entry}
    (he : e ∈ entries) (hlong : maxScanTokenSize ≤ (json.marshal e.record).length) (ord : RangeOrder Int) :
    replay json ord (written json entries) = .error "bufio.Scanner: token too long" := by
  have hloop := replayLoop_written_long h he hlong ∅ []
  rw [List.append_nil] at hloop
  unfold replay
  rw [hloop]
  rfl

theorem short_of_returns {entries : List Entry} (h : ∀ e ∈ entries, json.RoundTrips e.record) {ord : RangeOrder Int}
    {m : Int → Option Job} (hreturns : Returns (replay json ord (written json entries)) m) :
    ∀ e ∈ entries, (json.marshal e.record).length < maxScanTokenSize := by
  intro e he
  by_contra hlong
  obtain ⟨jobs, hjobs, -⟩ := hreturns
  rw [replay_written_long h he (not_lt.1 hlong)] at hjobs
  cases hjobs

theorem Fits.all_roundTrips {entries : List Entry} (h : ∀ e ∈ entries, Fits json e) :
    ∀ e ∈ entries, json.RoundTrips e.record :=
  fun e he => (h e he).sound.roundTrips

theorem Fits.all_short {entries : List Entry} (h : ∀ e ∈ entries, Fits json e) :
    ∀ e ∈ entries, (json.marshal e.record).length < maxScanTokenSize :=
  fun e he => (h e he).short

theorem not_mem_of_beginning {p l : List UInt8} (hp : p <+: l) {b : UInt8} (h : b ∉ l) : b ∉ p :=
  fun hb => h (hp.subset hb)

/-- What is left of a record at the end of the file counts if its text is whole. -/
theorem replayLoop_torn (pending : GoMap Int Job) {e : Entry} (h : Fits json e) {torn : List UInt8}
    (hp : torn <+: json.marshal e.record) (hne : torn ≠ []) :
    replayLoop json pending (lines torn) =
      .ok ((if torn = json.marshal e.record then [e] else []).foldl (fun p e => replayRecord p e.record) pending) := by
  rw [lines_last (not_mem_of_beginning hp h.sound.oneLine.1) hne]
  split
  · rename_i hwhole
    rw [hwhole, replayLoop_record pending h.sound.roundTrips h.short]
    rfl
  · rename_i hpart
    obtain ⟨hrecord, hjob⟩ := h.sound.noBeginning torn hp hne hpart
    have hshort : torn.length < maxScanTokenSize := lt_of_le_of_lt hp.length_le h.short
    rw [replayLoop_rejected pending hshort (not_mem_of_beginning hp h.sound.oneLine.2) hrecord hjob]
    rfl

/-! ## Every beginning of the file -/

theorem complete_zero {entries : List Entry} (h : ∀ e ∈ entries, Fits json e) : complete json entries 0 = [] := by
  cases entries with
  | nil => rfl
  | cons e entries =>
    have hpos := List.length_pos_iff.2 (h e List.mem_cons_self).sound.nonempty
    exact if_neg (not_le.2 hpos)

/-- A beginning of the file is some whole lines and a tail: nothing, or a beginning of the text of the next record. -/
theorem take_written {entries : List Entry} (h : ∀ e ∈ entries, Fits json e) (n : Nat) :
    ∃ before torn, (written json entries).take n = written json before ++ torn ∧ (∀ e ∈ before, e ∈ entries) ∧
      ((torn = [] ∧ complete json entries n = before) ∨ ∃ e ∈ entries, torn <+: json.marshal e.record ∧ torn ≠ [] ∧
        complete json entries n = before ++ if torn = json.marshal e.record then [e] else []) := by
  induction entries generalizing n with
  | nil => exact ⟨[], [], by simp [written], List.forall_mem_nil _, .inl ⟨rfl, rfl⟩⟩
  | cons e entries ih =>
    have hrest : ∀ e' ∈ entries, Fits json e' := fun e' he' => h e' (List.mem_cons_of_mem e he')
    have hpos := List.length_pos_iff.2 (h e List.mem_cons_self).sound.nonempty
    rw [written_cons]
    unfold complete
    generalize hl : json.marshal e.record = text at hpos
    by_cases hn : text.length + 1 ≤ n
    · -- the line is whole
      obtain ⟨before, torn, htake, hsub, htail⟩ := ih hrest (n - (text.length + 1))
      have hsplit : (text ++ newline :: written json entries).take n = written json (e :: before) ++ torn := by
        rw [written_cons, hl, List.append_assoc, List.cons_append, ← htake, List.take_append,
          List.take_of_length_le (by omega), show n - text.length = n - (text.length + 1) + 1 by omega,
            List.take_succ_cons]
      refine ⟨e :: before, torn, hsplit, ?_, ?_⟩
      · intro e' he'
        rcases List.mem_cons.1 he' with rfl | he'
        · exact List.mem_cons_self
        · exact List.mem_cons_of_mem e (hsub e' he')
      · rw [if_pos (by omega)]
        rcases htail with ⟨htorn, hcomplete⟩ | ⟨e', he', hp, hne, hcomplete⟩
        · exact .inl ⟨htorn, by rw [hcomplete]⟩
        · exact .inr ⟨e', List.mem_cons_of_mem e he', hp, hne, by rw [hcomplete, List.cons_append]⟩
    · -- the file ends within the text, or right after it
      have htake : (text ++ newline :: written json entries).take n = text.take n :=
        List.take_append_of_le_length (by omega)
      refine ⟨[], text.take n, by rw [htake]; rfl, List.forall_mem_nil _, ?_⟩
      by_cases hzero : n = 0
      · refine .inl ⟨by rw [hzero, List.take_zero], if_neg (by omega)⟩
      · refine .inr ⟨e, List.mem_cons_self, ?_, ?_, ?_⟩
        · rw [hl]
          exact List.take_prefix n text
        · intro hnil
          have hlen := congrArg List.length hnil
          rw [List.length_take, List.length_nil] at hlen
          omega
        · rw [hl]
          by_cases hlen : text.length ≤ n
          · rw [if_pos hlen, if_pos (List.take_of_length_le hlen), show n - (text.length + 1) = 0 by omega,
              complete_zero hrest]
            rfl
          · rw [if_neg hlen, if_neg]
            · rfl
            · intro heq
              have hlen' := congrArg List.length heq
              rw [List.length_take] at hlen'
              omega

/-- `Replay` after a crash: on every beginning of a file that was written with the five methods it returns, without an
error, the jobs that the records with their whole text in it leave pending, each once. -/
theorem replay_beginning (json : Json) (ord : RangeOrder Int) (entries : List Entry)
    (h : ∀ e ∈ entries, Fits json e) (n : Nat) :
    Returns (replay json ord ((written json entries).take n)) (jobsAfter (complete json entries n)) := by
  obtain ⟨before, torn, htake, hsub, htail⟩ := take_written h n
  have hbefore : ∀ e ∈ before, Fits json e := fun e he => h e (hsub e he)
  rw [htake]
  rcases htail with ⟨rfl, hcomplete⟩ | ⟨e, he, hp, hne, hcomplete⟩
  · rw [hcomplete, List.append_nil]
    exact replay_written (Fits.all_roundTrips hbefore) (Fits.all_short hbefore) ord
  · rw [hcomplete]
    refine returns_of_holds ?_ (holds_replayed _)
    rw [replayLoop_written (Fits.all_roundTrips hbefore) (Fits.all_short hbefore), replayLoop_torn _ (h e he) hp hne,
      List.foldl_append]

end

/-! A submission and its completion, with the texts that `encoding/json` writes for them. -/

def text (s : String) : List UInt8 := s.toList.map fun c => c.toNat.toUInt8

def task : Job := Job.newJob 1 "task" 1

def submitText : List UInt8 :=
  text ("\x7b\"kind\":\"submit\"," ++
    "\"job\":\x7b\"id\":1,\"type\":\"task\",\"priority\":1,\"status\":\"PENDING\",\"retry_count\":0," ++
    "\"max_retries\":3,\"next_run_at\":\"0001-01-01T00:00:00Z\",\"last_error\":\"\",\"idempotency_key\":\"\"\x7d\x7d")

def completeText : List UInt8 := text "\x7b\"kind\":\"complete\",\"job_id\":1\x7d"

/-- A record read as a job has none of its fields. -/
def taskJson : Json where
  marshal r :=
    if r = (Entry.submit task).record then submitText else if r = (Entry.completion 1).record then completeText else []
  unmarshalRecord l :=
    if l = submitText then some (Entry.submit task).record
    else if l = completeText then some (Entry.completion 1).record
    else none
  unmarshalJob l := if l = submitText ∨ l = completeText then some Job.zero else none

-- the kernel is given the characters of a literal, not its bytes to decode
theorem text_ofList (l : List Char) : text (String.ofList l) = l.map fun c => c.toNat.toUInt8 := by
  rw [text, String.toList_ofList]

/-- A text that stands for one line of the log. -/
def IsLine (l : List UInt8) : Prop := l ≠ [] ∧ (newline ∉ l ∧ 13 ∉ l) ∧ l.length < maxScanTokenSize

theorem isLine_submitText : IsLine submitText := by
  rw [IsLine, submitText, ← String.ofList_append, ← String.ofList_append, text_ofList]
  decide +kernel

theorem isLine_completeText : IsLine completeText := by
  rw [IsLine, completeText, text_ofList]
  decide +kernel

/-- Neither of the two texts begins or ends with the other. -/
theorem texts_apart : ¬completeText <+: submitText ∧ ¬submitText <+: completeText ∧ ¬completeText <:+ submitText := by
  rw [submitText, completeText, ← String.ofList_append, ← String.ofList_append, text_ofList, text_ofList]
  decide +kernel

theorem taskJson_rejects {l : List UInt8} (hs : l ≠ submitText) (hc : l ≠ completeText) :
    taskJson.unmarshalRecord l = none ∧ taskJson.unmarshalJob l = none := by
  refine ⟨?_, if_neg (not_or.2 ⟨hs, hc⟩)⟩
  show (if l = submitText then _ else if l = completeText then _ else _) = _
  rw [if_neg hs, if_neg hc]

theorem taskJson_submitText : taskJson.marshal (Entry.submit task).record = submitText ∧
    taskJson.unmarshalRecord submitText = some (Entry.submit task).record := by
  unfold taskJson
  dsimp only
  rw [if_pos rfl, if_pos rfl]
  exact ⟨rfl, rfl⟩

theorem taskJson_completeText : taskJson.marshal (Entry.completion 1).record = completeText ∧
    taskJson.unmarshalRecord completeText = some (Entry.completion 1).record := by
  have hne : completeText ≠ submitText := by
    intro heq
    exact texts_apart.1 (heq ▸ List.prefix_rfl)
  unfold taskJson
  dsimp only
  rw [if_neg (by decide), if_pos rfl, if_neg hne, if_pos rfl]
  exact ⟨rfl, rfl⟩

/-- A record fits if its text is a line that is read back and no beginning of it is read. -/
theorem fits_of_text {e : Entry} {l : List UInt8}
    (htext : taskJson.marshal e.record = l ∧ taskJson.unmarshalRecord l = some e.record) (hline : IsLine l)
    (hbeginning : ∀ p, p <+: l → p ≠ l → taskJson.unmarshalRecord p = none ∧ taskJson.unmarshalJob p = none) :
    Fits taskJson e := by
  obtain ⟨hmarshal, hread⟩ := htext
  obtain ⟨hne, honeLine, hshort⟩ := hline
  subst hmarshal
  exact ⟨⟨hne, honeLine, hread, fun p hp _ hpart => hbeginning p hp hpart⟩, hshort⟩

theorem taskJson_submit : Fits taskJson (.submit task) := by
  refine fits_of_text taskJson_submitText isLine_submitText ?_
  intro p hp hpart
  refine taskJson_rejects hpart ?_
  intro heq
  rw [heq] at hp
  exact texts_apart.1 hp

theorem taskJson_completion : Fits taskJson (.completion 1) := by
  refine fits_of_text taskJson_completeText isLine_completeText ?_
  intro p hp hpart
  refine taskJson_rejects ?_ hpart
  intro heq
  rw [heq] at hp
  exact texts_apart.2.1 hp

/-- The file ends within the second record. -/
theorem replay_torn_completion :
    let entries := [.submit task, .completion 1]
    complete taskJson entries 200 = [.submit task] ∧
      Returns (replay taskJson .stored ((written taskJson entries).take 200))
          (jobsAfter (complete taskJson entries 200)) := by
  refine ⟨?_, replay_beginning taskJson .stored _ ?_ 200⟩
  · unfold taskJson
    rw [submitText, completeText, ← String.ofList_append, ← String.ofList_append, text_ofList, text_ofList]
    decide +kernel
  · intro e he
    rcases List.mem_cons.1 he with rfl | he
    · exact taskJson_submit
    · rw [List.mem_singleton.1 he]
      exact taskJson_completion

/-! ## After the crash -/

/-- The calls on a file that was opened again. `NewWal` leaves it as it is. -/
inductive Act where
  | append (e : Entry)
  | replay (ord : RangeOrder Int)

def step (json : Json) (file : List UInt8) : Act → List UInt8 × List (Except String (List Job))
  | .append e => (write json file e, [])
  | .replay ord => (file, [replay json ord file])

def machine (json : Json) : Machine (List UInt8) Act (Except String (List Job)) := ⟨step json⟩

/-- The records that the calls append. -/
def appended (acts : List Act) : List Entry :=
  acts.filterMap fun
    | .append e => some e
    | .replay _ => none

/-- The records of before the crash that are whole: `torn` is what is left of `last`. -/
def survivors (json : Json) (before : List Entry) (last : Entry) (torn : List UInt8) : List Entry :=
  before ++ if torn = json.marshal last.record then [last] else []

section
variable {json : Json}

theorem exec_file (file : List UInt8) (acts : List Act) :
    (machine json).exec file acts = file ++ written json (appended acts) := by
  induction acts generalizing file with
  | nil => exact (List.append_nil file).symm
  | cons a acts ih =>
    rw [Machine.exec_cons, ih]
    cases a with
    | append e =>
      show write json file e ++ written json (appended acts) = file ++ written json (e :: appended acts)
      rw [write_eq, written_cons, line]
      simp
    | replay ord => rfl

/-- The first record after the crash is glued to what is left of the last one before it, and the loop ends there. -/
theorem replayLoop_glued (pending : GoMap Int Job) {last first : Entry} (hlast : json.Sound last.record)
    (hfirst : json.Sound first.record) (hglued : json.Separates last.record first.record) {torn : List UInt8}
    (hp : torn <+: json.marshal last.record) (hne : torn ≠ []) (rest : List Entry) :
    replayLoop json pending (lines (torn ++ written json (first :: rest))) =
      if (torn ++ json.marshal first.record).length < maxScanTokenSize then .ok pending
      else .error "bufio.Scanner: token too long" := by
  have hnot : ∀ b, b ∉ json.marshal last.record → b ∉ json.marshal first.record →
      b ∉ torn ++ json.marshal first.record := by
    intro b hb hb'
    exact List.mem_append.not.2 (not_or.2 ⟨not_mem_of_beginning hp hb, hb'⟩)
  rw [written_cons, ← List.append_assoc, lines_terminated (hnot _ hlast.oneLine.1 hfirst.oneLine.1)]
  split
  · rename_i hshort
    obtain ⟨hrecord, hjob⟩ := hglued torn hp hne
    exact replayLoop_rejected pending hshort (hnot _ hlast.oneLine.2 hfirst.oneLine.2) hrecord hjob _
  · rename_i hlong
    exact replayLoop_long pending (not_lt.1 hlong) _

/-- A file with a torn record in the middle is read up to the glued line: that far no line may be too long, and what
is lost with it may make no difference. -/
theorem returns_glued_iff {before rest : List Entry} {last first : Entry} {torn : List UInt8}
    (hbefore : ∀ e ∈ before, json.Sound e.record) (hlast : json.Sound last.record) (hfirst : json.Sound first.record)
    (hglued : json.Separates last.record first.record) (hp : torn <+: json.marshal last.record) (hne : torn ≠ [])
    (ord : RangeOrder Int) (wanted : List Entry) :
    Returns (replay json ord (written json before ++ (torn ++ written json (first :: rest)))) (jobsAfter wanted) ↔
      (∀ e ∈ before, (json.marshal e.record).length < maxScanTokenSize) ∧
        (torn ++ json.marshal first.record).length < maxScanTokenSize ∧ jobsAfter before = jobsAfter wanted := by
  have hround : ∀ e ∈ before, json.RoundTrips e.record := fun e he => (hbefore e he).roundTrips
  by_cases hshort : ∀ e ∈ before, (json.marshal e.record).length < maxScanTokenSize
  · have hloop := replayLoop_written hround hshort ∅ (torn ++ written json (first :: rest))
    rw [replayLoop_glued _ hlast hfirst hglued hp hne] at hloop
    by_cases hfits : (torn ++ json.marshal first.record).length < maxScanTokenSize
    · rw [if_pos hfits] at hloop
      have hreturns : Returns (replay json ord (written json before ++ (torn ++ written json (first :: rest))))
          (jobsAfter before) := returns_of_holds hloop (holds_replayed before)
      constructor
      · intro hwanted
        exact ⟨hshort, hfits, returns_unique hreturns hwanted⟩
      · rintro ⟨-, -, hsame⟩
        rw [← hsame]
        exact hreturns
    · rw [if_neg hfits] at hloop
      exact iff_of_false (not_returns hloop) fun hcond => hfits hcond.2.1
  · obtain ⟨e, he, hlong⟩ : ∃ e ∈ before, maxScanTokenSize ≤ (json.marshal e.record).length := by
      push Not at hshort
      exact hshort
    exact iff_of_false (not_returns (replayLoop_written_long hround he hlong ∅ _)) fun hcond => hshort hcond.1

/-- The log after a torn write. `Replay` returns the jobs of the whole records from before the crash and of all
records from after it in exactly two cases: nothing was torn and every record fits into the scanner's buffer; or all
lines up to the glued one fit, that one included, and what is lost with it, the torn record and all that come after,
makes no difference. -/
theorem replay_after_crash_iff (json : Json) (ord : RangeOrder Int) (before : List Entry) (last : Entry)
    (torn : List UInt8) (acts : List Act) (first : Entry) (rest : List Entry) (hmore : appended acts = first :: rest)
    (htorn : torn <+: line json last) (hproper : torn ≠ line json last)
    (h : ∀ e ∈ before ++ last :: first :: rest, json.Sound e.record)
    (hglued : json.Separates last.record first.record) :
    Returns (replay json ord ((machine json).exec (written json before ++ torn) acts))
        (jobsAfter (survivors json before last torn ++ appended acts)) ↔
      (torn = [] ∧ ∀ e ∈ before ++ appended acts, (json.marshal e.record).length < maxScanTokenSize) ∨
        (torn ≠ [] ∧ (∀ e ∈ before, (json.marshal e.record).length < maxScanTokenSize) ∧
          (torn ++ json.marshal first.record).length < maxScanTokenSize ∧
          jobsAfter before = jobsAfter (survivors json before last torn ++ appended acts)) := by
  have hbefore : ∀ e ∈ before, json.Sound e.record := fun e he => h e (List.mem_append_left _ he)
  have hlast : json.Sound last.record := h last (List.mem_append_right _ List.mem_cons_self)
  have hafter : ∀ e ∈ first :: rest, json.Sound e.record :=
    fun e he => h e (List.mem_append_right _ (List.mem_cons_of_mem last he))
  rw [exec_file, hmore, List.append_assoc]
  by_cases hne : torn = []
  · subst hne
    have hwhole : survivors json before last [] = before := by
      unfold survivors
      rw [if_neg hlast.nonempty.symm, List.append_nil]
    have hround : ∀ e ∈ before ++ first :: rest, json.RoundTrips e.record := by
      intro e he
      rcases List.mem_append.1 he with he | he
      · exact (hbefore e he).roundTrips
      · exact (hafter e he).roundTrips
    rw [hwhole, List.nil_append, ← written_append]
    constructor
    · intro hreturns
      exact .inl ⟨rfl, short_of_returns hround hreturns⟩
    · intro hcond
      exact replay_written hround (hcond.resolve_right fun hnot => hnot.1 rfl).2 ord
  · have hp : torn <+: json.marshal last.record := (List.prefix_concat_iff.1 htorn).resolve_left hproper
    rw [returns_glued_iff hbefore hlast (hafter first List.mem_cons_self) hglued hp hne]
    exact ⟨fun hcond => .inr ⟨hne, hcond⟩, fun hcond => (hcond.resolve_left fun hnil => hne hnil.1).2⟩

end

/-- The submission is whole, and of the completion nothing was written before the crash. -/
theorem replay_clean_crash :
    let acts := [Act.append (.completion 1)]
    survivors taskJson [.submit task] (.completion 1) [] ++ appended acts = [.submit task, .completion 1] ∧
      Returns (replay taskJson .stored ((machine taskJson).exec (written taskJson [.submit task] ++ []) acts))
        (jobsAfter (survivors taskJson [.submit task] (.completion 1) [] ++ appended acts)) := by
  have hnone : ([] : List UInt8) ≠ taskJson.marshal (Entry.completion 1).record := by
    rw [taskJson_completeText.1]
    exact isLine_completeText.1.symm
  refine ⟨?_, (replay_after_crash_iff taskJson .stored [.submit task] (.completion 1) [] _ (.completion 1) []
    rfl List.nil_prefix ?_ ?_ ?_).2 (.inl ⟨rfl, ?_⟩)⟩
  · unfold survivors
    rw [if_neg hnone]
    rfl
  · exact (List.append_ne_nil_of_right_ne_nil _ (List.cons_ne_nil _ _)).symm
  · intro e he
    simp only [List.cons_append, List.nil_append, List.mem_cons, List.not_mem_nil, or_false] at he
    rcases he with rfl | rfl | rfl
    · exact taskJson_submit.sound
    · exact taskJson_completion.sound
    · exact taskJson_completion.sound
  · intro p hp hne
    rw [taskJson_completeText.1] at hp ⊢
    refine taskJson_rejects ?_ ?_
    · intro heq
      exact texts_apart.2.2 (heq ▸ List.suffix_append p completeText)
    · intro heq
      exact hne (List.append_left_eq_self.1 heq)
  · intro e he
    rcases List.mem_cons.1 he with rfl | he
    · exact taskJson_submit.short
    · rw [List.mem_singleton.1 he]
      exact taskJson_completion.short

/-- The crash leaves 13 bytes of the completion of job 1. After the restart the log is replayed and the completion is
appended again, and yet job 1 is pending. -/
theorem completion_lost_after_crash :
    let torn := completeText.take 13
    let acts := [Act.replay .stored, .append (.completion 1)]
    torn <+: line taskJson (.completion 1) ∧ torn ≠ line taskJson (.completion 1) ∧
      (replay taskJson .stored ((machine taskJson).exec (written taskJson [.submit task] ++ torn) acts)).toOption =
        some [task] ∧
      jobsAfter (survivors taskJson [.submit task] (.completion 1) torn ++ appended acts) 1 = none := by
  unfold taskJson
  rw [submitText, completeText, ← String.ofList_append, ← String.ofList_append, text_ofList, text_ofList]
  decide +kernel

/-! ## Long records -/

section
variable {json : Json}

/-- Without a crash `Replay` returns, without an error, the jobs that the records leave pending exactly if the text of
every record is shorter than the scanner's buffer. -/
theorem replay_written_iff (json : Json) (ord : RangeOrder Int) (entries : List Entry)
    (h : ∀ e ∈ entries, json.RoundTrips e.record) :
    Returns (replay json ord (written json entries)) (jobsAfter entries) ↔
      ∀ e ∈ entries, (json.marshal e.record).length < maxScanTokenSize := by
  constructor
  · exact short_of_returns h
  · intro hshort
    exact replay_written h hshort ord

end

/-- The submission and the completion are read back. -/
theorem replay_both : Returns (replay taskJson .stored (written taskJson [.submit task, .completion 1]))
    (jobsAfter [.submit task, .completion 1]) := by
  have hfits : ∀ e ∈ [.submit task, .completion 1], Fits taskJson e := by
    intro e he
    rcases List.mem_cons.1 he with rfl | he
    · exact taskJson_submit
    · rw [List.mem_singleton.1 he]
      exact taskJson_completion
  exact (replay_written_iff taskJson .stored _ (Fits.all_roundTrips hfits)).2 (Fits.all_short hfits)

/-- A job that has failed with a message of 64 KiB and is tried again. -/
def failedTask : Job :=
  { Job.newJob 2 "task" 1 with retryCount := 1, lastError := String.ofList (List.replicate maxScanTokenSize 'x') }

/-- The text of the retry before the message and after it. -/
def retryHead : List UInt8 :=
  text ("\x7b\"kind\":\"retry\",\"job\":\x7b\"id\":2,\"type\":\"task\",\"priority\":1,\"status\":\"PENDING\"," ++
    "\"retry_count\":1,\"max_retries\":3,\"next_run_at\":\"0001-01-01T00:00:00Z\",\"last_error\":\"")

def retryTail : List UInt8 := text "\",\"idempotency_key\":\"\"\x7d\x7d"

def retryText : List UInt8 := retryHead ++ text failedTask.lastError ++ retryTail

/-- The codec on the submission of one job and the retry of the other. -/
def failedJson : Json where
  marshal r := if r.kind = .submit then submitText else retryText
  unmarshalRecord l := if l = submitText then some (Entry.submit task).record else some (Entry.retry failedTask).record
  unmarshalJob _ := none

theorem text_lastError : text failedTask.lastError = List.replicate maxScanTokenSize 120 := by
  show text (String.ofList (List.replicate maxScanTokenSize 'x')) = _
  rw [text_ofList, List.map_replicate]
  rfl

theorem retryText_long : maxScanTokenSize ≤ retryText.length := by
  unfold retryText
  rw [text_lastError, List.length_append, List.length_append, List.length_replicate]
  omega

theorem retryText_oneLine : newline ∉ retryText ∧ 13 ∉ retryText := by
  have hparts : ∀ {b : UInt8}, b ≠ 120 → b ∉ retryHead → b ∉ retryTail → b ∉ retryText := by
    intro b hb hhead htail hmem
    unfold retryText at hmem
    rw [text_lastError, List.mem_append, List.mem_append, List.mem_replicate] at hmem
    rcases hmem with (hmem | ⟨-, hmem⟩) | hmem
    · exact hhead hmem
    · exact hb hmem
    · exact htail hmem
  have hclear : (newline ∉ retryHead ∧ newline ∉ retryTail) ∧ 13 ∉ retryHead ∧ 13 ∉ retryTail := by
    rw [retryHead, retryTail, ← String.ofList_append, text_ofList, text_ofList]
    decide +kernel
  obtain ⟨⟨hhead, htail⟩, hhead', htail'⟩ := hclear
  exact ⟨hparts (by decide) hhead htail, hparts (by decide) hhead' htail'⟩

theorem failedJson_submit : failedJson.marshal (Entry.submit task).record = submitText := by
  unfold failedJson
  dsimp only
  rw [if_pos (by decide)]

theorem failedJson_retry : failedJson.marshal (Entry.retry failedTask).record = retryText := by
  unfold failedJson
  dsimp only
  rw [if_neg (by decide)]

theorem failedJson_roundTrips : ∀ e ∈ [Entry.submit task, .retry failedTask], failedJson.RoundTrips e.record := by
  intro e he
  rcases List.mem_cons.1 he with rfl | he
  · obtain ⟨-, ⟨hline, hcr⟩, -⟩ := isLine_submitText
    refine ⟨?_, ?_, ?_⟩ <;> rw [failedJson_submit]
    · exact hline
    · exact dropCR_of_not_mem hcr
    · unfold failedJson
      dsimp only
      rw [if_pos rfl]
  · rw [List.mem_singleton.1 he]
    refine ⟨?_, ?_, ?_⟩ <;> rw [failedJson_retry]
    · exact retryText_oneLine.1
    · exact dropCR_of_not_mem retryText_oneLine.2
    · unfold failedJson
      dsimp only
      rw [if_neg]
      intro heq
      have hshort := isLine_submitText.2.2
      have hlong := retryText_long
      rw [heq] at hlong
      omega

/-- The message of one job is as long as the scanner's buffer: `Replay` returns an error, and the other job, whose
record stands before it, is lost with it. -/
theorem long_error_unreadable :
    let entries := [Entry.submit task, .retry failedTask]
    (∀ e ∈ entries, failedJson.RoundTrips e.record) ∧ jobsAfter entries 1 = some task ∧
      replay failedJson .stored (written failedJson entries) = .error "bufio.Scanner: token too long" := by
  intro entries
  refine ⟨failedJson_roundTrips, rfl, replay_written_long failedJson_roundTrips (e := .retry failedTask) ?_ ?_ .stored⟩
  · exact List.mem_cons_of_mem _ List.mem_cons_self
  · rw [failedJson_retry]
    exact retryText_long

end Wal

end Quorum
