/-
Idempotent submission on a standalone server. The stores keep the map from keys to ids in `Add` and `Delete` only, and
whole records are written back from copies; `submitMu` keeps a second call from looking up a key between the
lookup and the insertion of the first. Together: a key has at most one stored job, `FindByIdempotencyKey` finds
exactly that one, and calls with one key return one id as long as its job is not deleted.
-/
import Quorum.Engine.Server
import Quorum.Store.Keys

namespace Quorum

namespace Server

variable {σ : Type} [IndexedStore σ]

omit [IndexedStore σ] in
theorem WritesBack.key {s : Server σ} {a : Act} {c j : Job} (h : s.WritesBack a c j) :
    j.idempotencyKey = c.idempotencyKey := by
  cases h with
  | completed _ | retried _ | failed _ | promoted _ => rfl
  | @finished n err c _ =>
    cases err with
    | none => rfl
    | some e => simp only [Runner.finish]; split <;> rfl

/-- What every run keeps: the map is the index of the jobs by key, copies have the key of the stored job, and the
key of the call that holds `submitMu` is not stored. -/
structure KeysKept (s : Server σ) : Prop where
  sound : s.Sound
  index : Store.KeysIndexed s.store
  copies : ∀ c ∈ s.held, ∀ x, Store.get s.store c.id = some x → x.idempotencyKey = c.idempotencyKey
  submitting : ∀ key jobType priority, s.submitting = some (key, jobType, priority) →
    key ≠ "" ∧ Store.findByIdempotencyKey s.store key = none

/-- The key of a job that is added is not stored. -/
theorem KeysKept.unstored {s : Server σ} (h : s.KeysKept) {a : Act} {j : Job} (hj : s.Adds a j) {k : String}
    (hk : j.key = some k) : Store.findByIdempotencyKey s.store k = none := by
  obtain ⟨hne, hkey⟩ := Job.key_eq_some.1 hk
  cases hj with
  | submitJob => exact absurd hkey.symm hne
  | submitJobAt => exact absurd hkey.symm hne
  | addKeyed hsub =>
    obtain rfl := hkey
    exact (h.submitting _ _ _ hsub).2

/-- The key under which an update writes is that of the stored job. -/
theorem KeysKept.write {s : Server σ} (h : s.KeysKept) {a : Act} {c j old : Job} (hw : s.WritesBack a c j)
    (hold : Store.get s.store j.id = some old) : j.idempotencyKey = old.idempotencyKey := by
  rw [hw.id_eq] at hold
  rw [hw.key, h.copies c hw.held old hold]

theorem KeysKept.writes {s : Server σ} (h : s.KeysKept) {a : Act} {st : σ} (hw : s.Writes a st) :
    Store.KeysIndexed st := by
  have hupdate : ∀ {c j : Job} {st : σ}, s.WritesBack a c j → Store.update s.store j = .ok st →
      Store.KeysIndexed st := by
    intro c j st hw hu
    obtain ⟨old, hold, -⟩ := LawfulStore.update_ok.1 ⟨st, hu⟩
    exact h.index.update hold (h.write hw hold) hu
  cases hw with
  | nothing => exact h.index
  | added hj hadd => exact h.index.add_fresh (h.sound.fresh hj) (fun k hk => h.unstored hj hk) hadd
  | written hw hu => exact hupdate hw hu
  | buried hw hu => exact (hupdate hw hu).addDLQ _
  | buriedOnly _ => exact h.index.addDLQ _
  | cancelled hc => exact h.index.cancel (Store.keyed_of_wf h.sound.wf) hc
  | deleted => exact h.index.delete _

/-- A job that stays stored keeps its key. -/
theorem KeysKept.key_step {s : Server σ} (h : s.KeysKept) (a : Act) {id : Int} {x y : Job}
    (hx : Store.get s.store id = some x) (hy : Store.get (s.step a).1.store id = some y) :
    y.idempotencyKey = x.idempotencyKey := by
  have hch := step_job h.sound.wf a id
  rw [hy] at hch
  generalize hz : some y = z at hch
  cases hch with
  | same => cases hz.trans hx; rfl
  | added hadd hid =>
    rw [← hid, h.sound.fresh hadd] at hx
    cases hx
  | written hw hid hold _ =>
    cases hz
    cases hx.symm.trans hold
    exact h.write hw (by rw [hid]; exact hold)
  | cancelled _ hold _ =>
    cases hz
    cases hx.symm.trans hold
    rfl
  | deleted _ => cases hz

/-- The lock is taken by a lookup that finds nothing, and released by the insertion. -/
theorem submitting_step {s : Server σ} {a : Act} {p : String × String × Int} (h : (s.step a).1.submitting = some p) :
    s.submitting = some p ∧ a ≠ .addKeyed ∨
      p.1 ≠ "" ∧ Store.findByIdempotencyKey s.store p.1 = none ∧ (s.step a).1.store = s.store := by
  have hstep := s.step_outcome a
  generalize s.step a = out at hstep h ⊢
  cases hstep with
  | idle hidle =>
    refine .inl ⟨h, ?_⟩
    rintro rfl
    exact hidle fun hnone => by cases hnone.symm.trans h
  | notFound hkey hfind =>
    cases h
    exact .inr ⟨hkey, hfind, rfl⟩
  | addKeyed => cases h
  | restart => cases h
  | submitJob | submitJobAt | found | cancelJob | deleteJob | workers | takeReady | dispatch
  | readResult | writeResult | readDelayed | writeDelayed | releaseWorker | requeueReleased | finish =>
    exact .inl ⟨h, fun ha => by cases ha⟩

theorem KeysKept.step {s : Server σ} (h : s.KeysKept) (a : Act) : (s.step a).1.KeysKept := by
  have hindex := h.writes (step_store h.sound.wf a)
  refine ⟨step_sound h.sound a, hindex, ?_, fun key jobType priority hsub => ?_⟩
  · exact copies_step h.sound a (R := fun c x => x.idempotencyKey = c.idempotencyKey) (fun _ => rfl) h.copies
      fun c id x y hx hy hkey => (h.key_step a hx hy).trans hkey
  · rcases submitting_step hsub with ⟨hsub, ha⟩ | ⟨hne, hfind, hstore⟩
    · obtain ⟨hne, hfind⟩ := h.submitting key jobType priority hsub
      refine ⟨hne, ?_⟩
      -- whatever is stored with the key now was there before, or was added without a key
      cases hfound : Store.findByIdempotencyKey (s.step a).1.store key with
      | none => rfl
      | some y =>
        obtain ⟨id, hy, hkey⟩ := (hindex.find_iff hne).1 hfound
        rcases (step_job h.sound.wf a id).stored hy with ⟨x, hx⟩ | ⟨hadd, -⟩
        · have hfindx := (h.index.find_iff hne).2 ⟨id, hx, (h.key_step a hx hy).symm.trans hkey⟩
          rw [hfind] at hfindx; cases hfindx
        · cases hadd with
          | submitJob => exact absurd hkey.symm hne
          | submitJobAt => exact absurd hkey.symm hne
          | addKeyed _ => exact absurd rfl ha
    · rw [hstore]; exact ⟨hne, hfind⟩

theorem keysKept_start {st : σ} (hst : LawfulStore.WF st) (hk : Store.KeysIndexed st) (available : Chan WorkerClient)
    (broker : Option Broker) (ord ord₁ ord₂ ord₃ ord₄ : RangeOrder Int) :
    (start st available broker ord ord₁ ord₂ ord₃ ord₄).KeysKept := by
  refine ⟨start_sound hst available broker ord ord₁ ord₂ ord₃ ord₄, ?_, fun c hc => (by cases hc),
    fun _ _ _ h => (by cases h)⟩
  rw [show (start st available broker ord ord₁ ord₂ ord₃ ord₄).store = st from
    boot_store hst available broker ord ord₁ ord₂ ord₃ ord₄]
  exact hk

/-! ## Calls with one key -/

/-- The job stored under `id` has the key `k`. -/
def HasKey (s : Server σ) (id : Int) (k : String) : Prop :=
  ∃ j, Store.get s.store id = some j ∧ j.idempotencyKey = k

theorem HasKey.step {s : Server σ} (h : s.KeysKept) {id : Int} {k : String} (hk : s.HasKey id k) {a : Act}
    (ha : a ≠ .deleteJob id) : (s.step a).1.HasKey id k := by
  obtain ⟨x, hx, rfl⟩ := hk
  have hch := step_job h.sound.wf a id
  cases hy : Store.get (s.step a).1.store id with
  | some y => exact ⟨y, hy, h.key_step a hx hy⟩
  | none =>
    rw [hy] at hch
    generalize hz : (none : Option Job) = z at hch
    cases hch with
    | same => rw [hx] at hz; cases hz
    | added _ _ => cases hz
    | written _ _ _ _ => cases hz
    | cancelled _ _ _ => cases hz
    | deleted hd => exact absurd hd ha

theorem HasKey.find {s : Server σ} (h : s.KeysKept) {id : Int} {k : String} (hk : s.HasKey id k) (hne : k ≠ "") :
    ∃ j, Store.findByIdempotencyKey s.store k = some j ∧ j.id = id := by
  obtain ⟨j, hj, hkey⟩ := hk
  exact ⟨j, (h.index.find_iff hne).2 ⟨id, hj, hkey⟩, LawfulStore.get_id h.sound.wf hj⟩

theorem mem_answer {key k : String} {p : Except String Job} {j : Job} {d : Bool} (h : .returned k j d ∈ answer key p) :
    p = .ok j ∧ k = key ∧ d = false := by
  cases p with
  | ok j' =>
    cases List.mem_singleton.1 h
    exact ⟨rfl, rfl, rfl⟩
  | error err => cases h

theorem accept_stored {e : Engine σ} {what : String} {q : QueueRef} {j j' : Job}
    (h : (e.accept none what q j).1 = .ok j') :
    j' = j ∧ Store.get (e.accept none what q j).2.scheduler.store j.id = some j := by
  unfold Engine.accept at h ⊢
  dsimp only at h ⊢
  cases ha : Store.add e.scheduler.store j with
  | error err => rw [ha] at h; cases h
  | ok st =>
    rw [ha] at h
    cases h
    have hget := LawfulStore.get_add ha j.id
    rw [if_pos rfl] at hget
    cases q <;> exact ⟨rfl, hget⟩

/-- What the answer of a call with a key says: a duplicate was found, and otherwise the key was not stored and the
new job is. -/
theorem returned_step {s : Server σ} (h : s.KeysKept) {a : Act} {k : String} {j : Job} {d : Bool}
    (hr : .returned k j d ∈ (s.step a).2) (hne : k ≠ "") :
    (d = true ∧ Store.findByIdempotencyKey s.store k = some j ∨
        d = false ∧ Store.findByIdempotencyKey s.store k = none) ∧ (s.step a).1.HasKey j.id k := by
  have hstep := s.step_outcome a
  generalize s.step a = p at hstep hr ⊢
  cases hstep with
  | submitJob | submitJobAt => exact absurd (mem_answer hr).2.1 hne
  | found hkey hfind =>
    cases List.mem_singleton.1 hr
    refine ⟨.inl ⟨rfl, hfind⟩, ?_⟩
    obtain ⟨id, hget, hk⟩ := (h.index.find_iff hne).1 hfind
    have hid := LawfulStore.get_id h.sound.wf hget
    subst hid
    exact ⟨j, hget, hk⟩
  | addKeyed hsub =>
    obtain ⟨hok, rfl, rfl⟩ := mem_answer hr
    refine ⟨.inr ⟨rfl, (h.submitting _ _ _ hsub).2⟩, ?_⟩
    obtain ⟨rfl, hget⟩ := accept_stored hok
    exact ⟨_, hget, rfl⟩
  | takeReady =>
    obtain ⟨_, -, hx⟩ := List.mem_map.1 hr
    cases hx
  | dispatch =>
    obtain ⟨_, -, hx⟩ := List.mem_map.1 hr
    cases hx
  | idle | notFound | cancelJob | deleteJob | workers | readResult | writeResult | readDelayed
  | writeDelayed | releaseWorker | requeueReleased | finish | restart => cases hr

/-- At every moment of a run at most one stored job has a given key, `FindByIdempotencyKey` returns exactly that job,
and of two calls with one key, the keyed job not being deleted in between, the second returns the id of the
first, as a duplicate. -/
theorem submissions_idempotent (st : σ) (hst : LawfulStore.WF st) (hk : Store.KeysIndexed st)
    (available : Chan WorkerClient) (broker : Option Broker) (ord ord₁ ord₂ ord₃ ord₄ : RangeOrder Int)
    (acts : List Act) :
    let s₀ := start st available broker ord ord₁ ord₂ ord₃ ord₄
    let s := server.exec s₀ acts
    (∀ id id' j j', Store.get s.store id = some j → Store.get s.store id' = some j' → j.idempotencyKey ≠ "" →
        j'.idempotencyKey = j.idempotencyKey → id' = id) ∧
      (∀ k j, k ≠ "" → (Store.findByIdempotencyKey s.store k = some j ↔
        ∃ id, Store.get s.store id = some j ∧ j.idempotencyKey = k)) ∧
      ∀ pre a mid b post k j₁ d₁ j₂ d₂, acts = pre ++ a :: mid ++ b :: post → k ≠ "" →
        .returned k j₁ d₁ ∈ (server.step (server.exec s₀ pre) a).2 →
        .returned k j₂ d₂ ∈ (server.step (server.exec s₀ (pre ++ a :: mid)) b).2 → .deleteJob j₁.id ∉ mid →
        j₂.id = j₁.id ∧ d₂ = true := by
  intro s₀ s
  have hrun : ∀ acts, (server.exec s₀ acts).KeysKept :=
    Machine.exec_inv (M := server) (keysKept_start hst hk available broker ord ord₁ ord₂ ord₃ ord₄)
      fun _ a h => h.step a
  have hs := hrun acts
  refine ⟨?_, fun k j hne => hs.index.find_iff hne, ?_⟩
  · intro id id' j j' hj hj' hne hkey
    have hfind := (hs.index.find_iff hne).2 ⟨id, hj, rfl⟩
    have hfind' := (hs.index.find_iff hne).2 ⟨id', hj', hkey⟩
    cases hfind.symm.trans hfind'
    exact (LawfulStore.get_id hs.sound.wf hj').symm.trans (LawfulStore.get_id hs.sound.wf hj)
  · rintro pre a mid b post k j₁ d₁ j₂ d₂ rfl hne h₁ h₂ hdel
    -- the job of the first call is there when the second answers
    have hkept : (server.exec s₀ (pre ++ a :: mid)).KeysKept ∧ (server.exec s₀ (pre ++ a :: mid)).HasKey j₁.id k := by
      rw [Machine.exec_append, Machine.exec_cons]
      refine Machine.EveryStep.inv (M := server) (C := fun _ _ x => x ≠ .deleteJob j₁.id)
        (P := fun _ s => s.KeysKept ∧ s.HasKey j₁.id k) ⟨(hrun pre).step a, (returned_step (hrun pre) h₁ hne).2⟩
        (fun _ s x h hx => ⟨h.1.step x, h.2.step h.1 hx⟩) ?_
      rintro p x q rfl rfl
      exact hdel (List.mem_append_right _ List.mem_cons_self)
    obtain ⟨j, hfind, hid⟩ := hkept.2.find hkept.1 hne
    rcases (returned_step hkept.1 h₂ hne).1 with ⟨hd, hfind₂⟩ | ⟨-, hnone⟩
    · cases hfind.symm.trans hfind₂
      exact ⟨hid, hd⟩
    · cases hfind.symm.trans hnone

/-- The second call comes while the job of the first is running. -/
theorem submissions_idempotent_running :
    ∃ s₀ : Server MemoryStore,
      s₀ = start Store.empty ⟨1, [⟨7⟩], by decide⟩ none .stored .stored .stored .stored .stored ∧
        ∃ j₂ d₂, .returned "k" j₂ d₂ ∈ (server.step (server.exec s₀ ([.findKey "k" "email" 1] ++ .addKeyed ::
          [.takeReady, .dispatch 5 fun _ _ => none])) (.findKey "k" "email" 2)).2 ∧ j₂.id = 1 ∧ d₂ = true := by
  refine ⟨_, rfl, { Job.newJob 1 "email" 1 with idempotencyKey := "k" }, true, List.mem_singleton_self _, ?_⟩
  have hcalls := (submissions_idempotent (Store.empty : MemoryStore) LawfulStore.wf_empty Store.keysIndexed_empty
    ⟨1, [⟨7⟩], by decide⟩ none .stored .stored .stored .stored .stored ([.findKey "k" "email" 1] ++ .addKeyed ::
      [.takeReady, .dispatch 5 fun _ _ => none] ++ [.findKey "k" "email" 2])).2.2
  exact hcalls _ _ _ _ [] "k" { Job.newJob 1 "email" 1 with idempotencyKey := "k" } false _ true rfl (by decide)
    (List.mem_singleton_self _) (List.mem_singleton_self _) (by simp)

end Server

end Quorum
