/-
Execution leases (`internal/job/lease.go`): the leader's in-memory table of which worker is running
which job, keyed by job id.
-/
import Quorum.Lib.GoMap

namespace Quorum

/-- `job.Lease`. -/
structure Lease where
  jobID : Int
  workerID : Int
  term : Nat
  attempt : Int
  deriving DecidableEq, Repr

/-- `job.LeaseManager`. -/
structure LeaseManager where
  leases : GoMap Int Lease
  deriving DecidableEq

namespace LeaseManager

/-- `NewLeaseManager`. -/
def new : LeaseManager := ⟨∅⟩

/-- `Acquire` creates the lease or replaces the one that is there. -/
def acquire (lm : LeaseManager) (jobID workerID : Int) (term : Nat) (attempt : Int) : LeaseManager :=
  ⟨lm.leases.insert jobID { jobID := jobID, workerID := workerID, term := term, attempt := attempt }⟩

def get (lm : LeaseManager) (jobID : Int) : Option Lease := lm.leases.lookup jobID

def release (lm : LeaseManager) (jobID : Int) : LeaseManager := ⟨lm.leases.erase jobID⟩

/-- `ReleaseByWorker`: the loop visits the table in some order, deletes the leases of the worker and
returns their job ids. -/
def releaseByWorker (ord : RangeOrder Int) (lm : LeaseManager) (workerID : Int) : List Int × LeaseManager :=
  let released := (ord.order lm.leases.keys).filter fun jobID =>
    (lm.leases.lookup jobID).any fun lease => lease.workerID = workerID
  (released, ⟨released.foldl (fun m jobID => m.erase jobID) lm.leases⟩)

def clear (_ : LeaseManager) : LeaseManager := new

@[simp] theorem get_new (id : Int) : new.get id = none := rfl

@[simp] theorem get_clear (lm : LeaseManager) (id : Int) : lm.clear.get id = none := rfl

theorem get_acquire (lm : LeaseManager) (jobID workerID : Int) (term : Nat) (attempt id : Int) :
    (lm.acquire jobID workerID term attempt).get id =
      if id = jobID then some { jobID := jobID, workerID := workerID, term := term, attempt := attempt }
      else lm.get id :=
  GoMap.lookup_insert_ite lm.leases jobID id _

theorem get_release (lm : LeaseManager) (jobID id : Int) :
    (lm.release jobID).get id = if id = jobID then none else lm.get id :=
  GoMap.lookup_erase_ite lm.leases jobID id

theorem lookup_foldl_erase : ∀ (ids : List Int) (m : GoMap Int Lease) (id : Int),
    (ids.foldl (fun m jobID => m.erase jobID) m).lookup id = if id ∈ ids then none else m.lookup id
  | [], m, id => by simp
  | k :: ids, m, id => by
    rw [List.foldl_cons, lookup_foldl_erase ids, GoMap.lookup_erase_ite]
    by_cases hk : id = k
    · simp [hk]
    · by_cases hi : id ∈ ids <;> simp [hk, hi]

/-- The ids `ReleaseByWorker` returns are those the worker held a lease of. -/
theorem mem_releaseByWorker {ord : RangeOrder Int} {lm : LeaseManager} {workerID id : Int} :
    id ∈ (lm.releaseByWorker ord workerID).1 ↔ ∃ l, lm.get id = some l ∧ l.workerID = workerID := by
  unfold releaseByWorker get
  simp only [List.mem_filter, ord.mem_order, Option.any_eq_true, decide_eq_true_eq]
  constructor
  · rintro ⟨-, h⟩; exact h
  · rintro ⟨l, hl, hw⟩
    exact ⟨AList.mem_keys.1 (GoMap.mem_iff_lookup.2 ⟨l, hl⟩), l, hl, hw⟩

theorem nodup_releaseByWorker (ord : RangeOrder Int) (lm : LeaseManager) (workerID : Int) :
    (lm.releaseByWorker ord workerID).1.Nodup :=
  (ord.nodup_order lm.leases.keys_nodup).filter _

theorem get_releaseByWorker (ord : RangeOrder Int) (lm : LeaseManager) (workerID id : Int) :
    (lm.releaseByWorker ord workerID).2.get id =
      if id ∈ (lm.releaseByWorker ord workerID).1 then none else lm.get id := by
  unfold releaseByWorker get
  rw [lookup_foldl_erase]

end LeaseManager

end Quorum
