/-
Status indexes. Both stores keep the ids of their jobs in one set per status next to the jobs themselves.
This is what the index has to say about the jobs, what a write, an insertion and a removal do to it, and
what a walk over one of its sets lists.
-/
import Quorum.Job.Basic
import Mathlib.Data.List.Basic

namespace Quorum

/-- `idx` is the index of the jobs `get` over the statuses in `D`: jobs are stored under their own ids, and
an id is in the set of a status exactly when it is stored with that status. -/
structure StatusIndex (D : Status → Prop) (get : Int → Option Job) (idx : Status → Int → Prop) : Prop where
  keyed : ∀ id j, get id = some j → j.id = id
  index : ∀ status id, idx status id ↔ D status ∧ ∃ j, get id = some j ∧ j.status = status

namespace StatusIndex

variable {D : Status → Prop} {get get' : Int → Option Job} {idx idx' : Status → Int → Prop}

theorem keyed_put (h : StatusIndex D get idx) {j : Job} (hg : ∀ k, get' k = if k = j.id then some j else get k) :
    ∀ id x, get' id = some x → x.id = id := by
  intro id x hx
  rw [hg] at hx
  split at hx
  · rename_i hid; cases hx; exact hid.symm
  · exact h.keyed id x hx

/-- A job is put under its id, and the id joins the set of its status, without a look at what was there before:
the index stays right exactly if the job that was there had the same status, or one without a set. -/
theorem put_iff (h : StatusIndex D get idx) {j : Job} (hg : ∀ k, get' k = if k = j.id then some j else get k)
    (hi : ∀ st k, idx' st k ↔ (D st ∧ st = j.status ∧ k = j.id) ∨ idx st k) :
    StatusIndex D get' idx' ↔ ∀ old, get j.id = some old → D old.status → old.status = j.status := by
  constructor
  · intro h' old hold hd
    -- the old set still has the id
    have hstale := (hi old.status j.id).2 (.inr ((h.index old.status j.id).2 ⟨hd, old, hold, rfl⟩))
    obtain ⟨-, x, hx, hst⟩ := (h'.index old.status j.id).1 hstale
    rw [hg, if_pos rfl] at hx
    cases hx
    exact hst.symm
  · intro hsame
    refine ⟨h.keyed_put hg, fun st k => ?_⟩
    rw [hi, h.index, hg]
    by_cases hk : k = j.id
    · subst hk
      rw [if_pos rfl]
      constructor
      · rintro (⟨hd, rfl, -⟩ | ⟨hd, x, hx, rfl⟩)
        · exact ⟨hd, j, rfl, rfl⟩
        · exact ⟨hd, j, rfl, (hsame x hx hd).symm⟩
      · rintro ⟨hd, x, hx, rfl⟩
        cases hx
        exact .inl ⟨hd, rfl, rfl⟩
    · simp [hk]

/-- A new job joins the set of its status. -/
theorem insert (h : StatusIndex D get idx) {j : Job} (hf : get j.id = none)
    (hg : ∀ k, get' k = if k = j.id then some j else get k)
    (hi : ∀ st k, idx' st k ↔ (D st ∧ st = j.status ∧ k = j.id) ∨ idx st k) : StatusIndex D get' idx' := by
  refine (h.put_iff hg hi).2 fun old hold _ => ?_
  rw [hf] at hold
  cases hold

/-- A job is overwritten: its id leaves the set of the old status and joins the set of the new one. -/
theorem write (h : StatusIndex D get idx) {old j : Job} (ho : get j.id = some old)
    (hg : ∀ k, get' k = if k = j.id then some j else get k)
    (hi : ∀ st k, idx' st k ↔ (D st ∧ st = j.status ∧ k = j.id) ∨ (idx st k ∧ ¬ (st = old.status ∧ k = j.id))) :
    StatusIndex D get' idx' := by
  refine ⟨h.keyed_put hg, fun st k => ?_⟩
  rw [hi, h.index, hg]
  by_cases hk : k = j.id
  · subst hk
    rw [ho, if_pos rfl]
    constructor
    · rintro (⟨hd, rfl, -⟩ | ⟨⟨-, x, hx, rfl⟩, hn⟩)
      · exact ⟨hd, j, rfl, rfl⟩
      · cases hx; exact absurd ⟨rfl, rfl⟩ hn
    · rintro ⟨hd, x, hx, rfl⟩
      cases hx
      exact .inl ⟨hd, rfl, rfl⟩
  · simp [hk]

/-- A job is removed, and its id leaves the set of its status. -/
theorem erase (h : StatusIndex D get idx) {id : Int} {old : Job} (ho : get id = some old)
    (hg : ∀ k, get' k = if k = id then none else get k)
    (hi : ∀ st k, idx' st k ↔ idx st k ∧ ¬ (st = old.status ∧ k = id)) : StatusIndex D get' idx' := by
  refine ⟨fun k x hx => ?_, fun st k => ?_⟩
  · rw [hg] at hx
    split at hx
    · cases hx
    · exact h.keyed k x hx
  · rw [hi, h.index, hg]
    by_cases hk : k = id
    · subst hk
      rw [ho, if_pos rfl]
      constructor
      · rintro ⟨⟨-, x, hx, rfl⟩, hn⟩
        cases hx; exact absurd ⟨rfl, rfl⟩ hn
      · rintro ⟨-, x, hx, -⟩
        cases hx
    · simp [hk]

/-- A walk over the set of `st`, in any order, finds exactly the jobs with that status, each once. -/
theorem walk (h : StatusIndex D get idx) {st : Status} (hd : D st) {ids : List Int} (hnd : ids.Nodup)
    (hm : ∀ id, id ∈ ids ↔ idx st id) :
    ((ids.filterMap get).map Job.id).Nodup ∧
      ∀ j, j ∈ ids.filterMap get ↔ get j.id = some j ∧ j.status = st := by
  have hfound : ∀ id ∈ ids, ∃ j, get id = some j ∧ j.status = st :=
    fun id hid => ((h.index st id).1 ((hm id).1 hid)).2
  constructor
  · -- the ids of the jobs found are the visited ids again
    have hsame : (ids.filterMap get).map Job.id = ids := by
      rw [List.map_filterMap, List.filterMap_congr (g := some), List.filterMap_some]
      intro id hid
      obtain ⟨j, hj, -⟩ := hfound id hid
      rw [hj, Option.map_some, h.keyed id j hj]
    rw [hsame]
    exact hnd
  · intro j
    rw [List.mem_filterMap]
    constructor
    · rintro ⟨id, hid, hj⟩
      obtain ⟨x, hx, hst⟩ := hfound id hid
      rw [hj] at hx; cases hx
      exact ⟨(h.keyed id j hj).symm ▸ hj, hst⟩
    · rintro ⟨hj, hst⟩
      exact ⟨j.id, (hm j.id).2 ((h.index st j.id).2 ⟨hd, j, hj, hst⟩), hj⟩

end StatusIndex

end Quorum
