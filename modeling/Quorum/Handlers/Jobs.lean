/-
`POST /jobs` (`internal/handlers/jobs.go`) on a standalone server. A request with `run_at` is submitted by another call
of the engine than one without, and that call does not take the idempotency key. Requests with a key are deduplicated
exactly as long as none of them has a `run_at`.
-/
import Quorum.Engine.Idempotency

namespace Quorum

/-- The JSON body of `POST /jobs`. -/
structure Handlers.SubmitJobRequest where
  type : String
  priority : Int
  runAt : String
  idempotencyKey : String

/-- A request: its body is `none` if it does not decode. -/
structure HttpRequest where
  method : String
  body : Option Handlers.SubmitJobRequest

/-- `strings.TrimSpace(s) == ""`. -/
def isBlank (s : String) : Bool := s.toList.all isSpace

/-- The request asks for the scheduled path. -/
def HttpRequest.HasRunAt (r : HttpRequest) : Prop := ∃ req, r.body = some req ∧ isBlank req.runAt = false

/-- The JSON object of an answer. -/
structure JobBody where
  id : Int
  status : String
  runAt : Option String
  idempotencyKey : Option String
  deriving DecidableEq, Repr

inductive HttpBody where
  | text (msg : String)
  | job (b : JobBody)
  deriving DecidableEq, Repr

structure HttpResponse where
  code : Nat
  body : HttpBody
  deriving DecidableEq, Repr

/-- `http.Error`. -/
def httpError (msg : String) (code : Nat) : HttpResponse := ⟨code, .text msg⟩

/-- `time.Parse` and `Format` with the layout `time.RFC3339`. -/
structure Rfc3339 where
  parse : String → Option Time
  format : Time → String

section
variable {σ : Type} [Store σ]

/-- The answer of the scheduled path. -/
def scheduledResponse (fmt : Rfc3339) (created : Job) : HttpResponse :=
  ⟨201, .job
    { id := created.id, status := "scheduled", runAt := some (fmt.format created.nextRunAt), idempotencyKey := none }⟩

/-- The answer of the immediate path. -/
def submittedResponse (created : Job) (wasDuplicate : Bool) : HttpResponse :=
  let key := if created.idempotencyKey ≠ "" then some created.idempotencyKey else none
  ⟨if wasDuplicate then 200 else 201,
    .job { id := created.id, status := "submitted", runAt := none, idempotencyKey := key }⟩

/-- `SubmitJobHandler` without Raft, with the clock reading it makes. -/
def submitJobHandler (fmt : Rfc3339) (now : Time) (r : HttpRequest) (e : Engine σ) : HttpResponse × Engine σ :=
  if r.method ≠ "POST" then (httpError "Method Not Allowed" 405, e)
  else
    match r.body with
    | none => (httpError "Invalid JSON" 400, e)
    | some req =>
      if req.type = "" then (httpError "type is required" 400, e)
      else if req.priority < 0 then (httpError "priority must be >= 0" 400, e)
      else if !isBlank req.runAt then
        match fmt.parse req.runAt with
        | none => (httpError "run_at must be RFC3339" 400, e)
        | some runAt =>
          if ¬ runAt > now then (httpError "run_at must be in the future" 400, e)
          else
            -- the key is not passed on
            match e.submitJobAt none req.type req.priority runAt with
            | (.error _, e) => (httpError "Failed to submit job" 500, e)
            | (.ok created, e) => (scheduledResponse fmt created, e)
      else
        match e.submitJobIdempotent none req.idempotencyKey req.type req.priority with
        | (.error _, e) => (httpError "Failed to submit job" 500, e)
        | (.ok (created, wasDuplicate), e) => (submittedResponse created wasDuplicate, e)

/-- What the handler comes to: an answer without a call, or the answer to one of the two calls. -/
inductive Handled (fmt : Rfc3339) (r : HttpRequest) (e : Engine σ) : HttpResponse × Engine σ → Prop
  | rejected {msg : String} {code : Nat} : Handled fmt r e (httpError msg code, e)
  | failedAt {jobType : String} {priority : Int} {runAt : Time} {err : String} :
      (e.submitJobAt none jobType priority runAt).1 = .error err →
      Handled fmt r e (httpError "Failed to submit job" 500, (e.submitJobAt none jobType priority runAt).2)
  | scheduled {req : Handlers.SubmitJobRequest} {runAt : Time} {created : Job} : r.body = some req →
      isBlank req.runAt = false →
      (e.submitJobAt none req.type req.priority runAt).1 = .ok created →
      Handled fmt r e (scheduledResponse fmt created, (e.submitJobAt none req.type req.priority runAt).2)
  | failed {key jobType : String} {priority : Int} {err : String} :
      (e.submitJobIdempotent none key jobType priority).1 = .error err →
      Handled fmt r e (httpError "Failed to submit job" 500, (e.submitJobIdempotent none key jobType priority).2)
  | submitted {req : Handlers.SubmitJobRequest} {created : Job} {wasDuplicate : Bool} : r.body = some req →
      isBlank req.runAt = true →
      (e.submitJobIdempotent none req.idempotencyKey req.type req.priority).1 = .ok (created, wasDuplicate) →
      Handled fmt r e (submittedResponse created wasDuplicate,
        (e.submitJobIdempotent none req.idempotencyKey req.type req.priority).2)

theorem submitJobHandler_handled (fmt : Rfc3339) (now : Time) (r : HttpRequest) (e : Engine σ) :
    Handled fmt r e (submitJobHandler fmt now r e) := by
  unfold submitJobHandler
  split
  · exact .rejected
  · cases hbody : r.body with
    | none => exact .rejected
    | some req =>
      dsimp only
      split
      · exact .rejected
      · split
        · exact .rejected
        · split
          · rename_i hblank
            cases fmt.parse req.runAt with
            | none => exact .rejected
            | some runAt =>
              dsimp only
              split
              · exact .rejected
              · cases hcall : e.submitJobAt none req.type req.priority runAt with
                | mk res e' =>
                  have hres := congrArg Prod.fst hcall
                  have heng := congrArg Prod.snd hcall
                  dsimp only at hres heng
                  subst heng
                  cases res with
                  | error err => exact .failedAt hres
                  | ok created => exact .scheduled hbody (by simpa using hblank) hres
          · rename_i hblank
            cases hcall : e.submitJobIdempotent none req.idempotencyKey req.type req.priority with
            | mk res e' =>
              have hres := congrArg Prod.fst hcall
              have heng := congrArg Prod.snd hcall
              dsimp only at hres heng
              subst heng
              cases res with
              | error err => exact .failed hres
              | ok p => exact .submitted hbody (by simpa using hblank) hres

/-! ## The calls of the engine -/

/-- Without Raft a submission is refused and leaves the engine alone, or its job is in the store. -/
theorem accept_cases (e : Engine σ) (what : String) (q : QueueRef) (j : Job) :
    (∃ err, (e.accept none what q j) = (.error err, e)) ∨
      (e.accept none what q j).1 = .ok j ∧
        Store.add e.scheduler.store j = .ok (e.accept none what q j).2.scheduler.store := by
  unfold Engine.accept
  dsimp only
  cases hadd : Store.add e.scheduler.store j with
  | error err => exact .inl ⟨err, rfl⟩
  | ok st =>
    cases q with
    | priority => exact .inr ⟨rfl, rfl⟩
    | delay => exact .inr ⟨rfl, rfl⟩

/-- A scheduled job is stored without a key. -/
theorem submitJobAt_cases (e : Engine σ) (jobType : String) (priority : Int) (runAt : Time) :
    (∃ err, (e.submitJobAt none jobType priority runAt).1 = .error err ∧
        (e.submitJobAt none jobType priority runAt).2.scheduler.store = e.scheduler.store) ∨
      ∃ j, (e.submitJobAt none jobType priority runAt).1 = .ok j ∧ j.idempotencyKey = "" ∧
        Store.add e.scheduler.store j = .ok (e.submitJobAt none jobType priority runAt).2.scheduler.store := by
  rcases accept_cases e.takeID "add_job_at" .delay
      { Job.newJob (e.nextJobID + 1) jobType priority with status := .scheduled, nextRunAt := runAt } with
    ⟨err, h⟩ | ⟨hok, hadd⟩
  · refine .inl ⟨err, congrArg Prod.fst h, ?_⟩
    exact congrArg (fun p => p.2.scheduler.store) h
  · exact .inr ⟨_, hok, rfl, hadd⟩

/-- `SubmitJobIdempotent` fails and leaves the store alone, finds a job, or adds a job with the key. -/
theorem submitJobIdempotent_cases (e : Engine σ) (key jobType : String) (priority : Int) :
    (∃ err, (e.submitJobIdempotent none key jobType priority).1 = .error err ∧
        (e.submitJobIdempotent none key jobType priority).2.scheduler.store = e.scheduler.store) ∨
      (∃ j, e.submitJobIdempotent none key jobType priority = (.ok (j, true), e) ∧ key ≠ "" ∧
        Store.findByIdempotencyKey e.scheduler.store key = some j) ∨
      ∃ j, (e.submitJobIdempotent none key jobType priority).1 = .ok (j, false) ∧ j.idempotencyKey = key ∧
        (key ≠ "" → Store.findByIdempotencyKey e.scheduler.store key = none) ∧
        Store.add e.scheduler.store j = .ok (e.submitJobIdempotent none key jobType priority).2.scheduler.store := by
  unfold Engine.submitJobIdempotent
  split
  · rename_i hkey
    dsimp only [Engine.submitJob]
    rcases accept_cases e.takeID "add_job" .priority (Job.newJob (e.nextJobID + 1) jobType priority) with
      ⟨err, h⟩ | ⟨hok, hadd⟩
    · refine .inl ⟨err, ?_, ?_⟩
      · exact congrArg (fun p : Except String Job × Engine σ => p.1.map fun j => (j, false)) h
      · exact congrArg (fun p => p.2.scheduler.store) h
    · refine .inr (.inr ⟨_, ?_, hkey.symm, fun hne => absurd hkey hne, hadd⟩)
      exact congrArg (fun p : Except String Job => p.map fun j => (j, false)) hok
  · rename_i hkey
    cases hfind : Store.findByIdempotencyKey e.scheduler.store key with
    | some j => exact .inr (.inl ⟨j, rfl, hkey, rfl⟩)
    | none =>
      dsimp only
      rcases accept_cases e.takeID "add_job (idempotent)" .priority
        { Job.newJob (e.nextJobID + 1) jobType priority with idempotencyKey := key } with ⟨err, h⟩ | ⟨hok, hadd⟩
      · refine .inl ⟨err, ?_, ?_⟩
        · exact congrArg (fun p : Except String Job × Engine σ => p.1.map fun j => (j, false)) h
        · exact congrArg (fun p => p.2.scheduler.store) h
      · refine .inr (.inr ⟨_, ?_, rfl, fun _ => rfl, hadd⟩)
        exact congrArg (fun p : Except String Job => p.map fun j => (j, false)) hok

end

/-! ## Requests between the other steps of a server -/

namespace Server

section
variable {σ : Type} [LawfulStore σ]

theorem get_added {st st' : σ} {j : Job} (h : Store.add st j = .ok st') : Store.get st' j.id = some j := by
  rw [LawfulStore.get_add h, if_pos rfl]

/-- The server handles a request. -/
def post (fmt : Rfc3339) (now : Time) (r : HttpRequest) (s : Server σ) : Server σ × HttpResponse :=
  (s.withEngine (submitJobHandler fmt now r s.engine).2, (submitJobHandler fmt now r s.engine).1)

/-- The halves of `SubmitJobIdempotent`, which a request makes as one. -/
def Act.isKeyedCall : Act → Bool
  | .findKey _ _ _ | .addKeyed => true
  | _ => false

/-- A request, or anything else that happens on the server. -/
inductive ApiInput where
  | post (now : Time) (r : HttpRequest)
  | act (a : Act) (h : a.isKeyedCall = false)

def api (fmt : Rfc3339) : Machine (Server σ) ApiInput HttpResponse :=
  ⟨fun s i => match i with
    | .post now r => ((s.post fmt now r).1, [(s.post fmt now r).2])
    | .act a _ => ((s.step a).1, [])⟩

/-- The call of a request with a key, in the steps of the server. -/
theorem submitJobIdempotent_exec {s : Server σ} (hs : s.submitting = none) (key jobType : String) (priority : Int) :
    ∃ acts, s.withEngine (s.engine.submitJobIdempotent none key jobType priority).2 = server.exec s acts ∧
      ∀ a ∈ acts, ∀ id, a ≠ .deleteJob id := by
  by_cases hkey : key = ""
  · refine ⟨[.submitJob jobType priority], ?_, by simp⟩
    unfold Engine.submitJobIdempotent
    rw [if_pos hkey]
    rfl
  · rw [submitJobIdempotent_halves s.engine hkey]
    cases hfind : Store.findByIdempotencyKey s.engine.scheduler.store key with
    | some j => exact ⟨[], rfl, by simp⟩
    | none =>
      refine ⟨[.findKey key jobType priority, .addKeyed], ?_, by simp⟩
      have hfind' : Store.findByIdempotencyKey s.store key = none := hfind
      simp only [Machine.exec_cons, Machine.exec_nil, server, step, if_neg hkey, hs, hfind']
      unfold withEngine
      rw [← hs]

/-- A request is a few steps of the server, none of which deletes a job. -/
theorem post_exec {s : Server σ} (hs : s.submitting = none) (fmt : Rfc3339) (now : Time) (r : HttpRequest) :
    ∃ acts, (s.post fmt now r).1 = server.exec s acts ∧ ∀ a ∈ acts, ∀ id, a ≠ .deleteJob id := by
  have hh := submitJobHandler_handled fmt now r s.engine
  unfold post
  generalize submitJobHandler fmt now r s.engine = p at hh
  cases hh with
  | rejected => exact ⟨[], rfl, by simp⟩
  | @failedAt jobType priority runAt _ _ => exact ⟨[.submitJobAt jobType priority runAt], rfl, by simp⟩
  | @scheduled req runAt _ _ _ _ => exact ⟨[.submitJobAt req.type req.priority runAt], rfl, by simp⟩
  | failed _ => exact submitJobIdempotent_exec hs _ _ _
  | submitted _ _ _ => exact submitJobIdempotent_exec hs _ _ _

theorem submitting_step_none {s : Server σ} (hs : s.submitting = none) {a : Act} (ha : a.isKeyedCall = false) :
    (s.step a).1.submitting = none := by
  have hstep := s.step_outcome a
  generalize s.step a = p at hstep
  cases hstep with
  | found | notFound | addKeyed => cases ha
  | restart => rfl
  | idle | submitJob | submitJobAt | cancelJob | deleteJob | workers | takeReady | dispatch | readResult | writeResult |
      readDelayed | writeDelayed | releaseWorker | requeueReleased | finish => exact hs

end

variable {σ : Type} [IndexedStore σ] {fmt : Rfc3339}

/-- Between two requests: the keys are indexed, and no call is in the middle of its lookup and insertion. -/
structure Ready (s : Server σ) : Prop where
  keys : s.KeysKept
  idle : s.submitting = none

theorem Ready.step {s : Server σ} (h : s.Ready) (i : ApiInput) : ((api fmt).step s i).1.Ready := by
  cases i with
  | act a ha => exact ⟨h.keys.step a, submitting_step_none h.idle ha⟩
  | post now r =>
    obtain ⟨acts, heq, -⟩ := post_exec h.idle fmt now r
    refine ⟨?_, h.idle⟩
    show (s.post fmt now r).1.KeysKept
    rw [heq]
    exact Machine.exec_inv (M := server) h.keys (fun _ a hs => hs.step a) acts

/-- The job stored under `id` keeps its key until it is deleted. -/
theorem HasKey.input {s : Server σ} (h : s.Ready) {id : Int} {k : String} (hk : s.HasKey id k) {i : ApiInput}
    (hi : ∀ ha, i ≠ .act (.deleteJob id) ha) : ((api fmt).step s i).1.HasKey id k := by
  cases i with
  | act a ha => exact hk.step h.keys fun he => hi (he ▸ ha) (by subst he; rfl)
  | post now r =>
    obtain ⟨acts, heq, hdel⟩ := post_exec h.idle fmt now r
    show (s.post fmt now r).1.HasKey id k
    rw [heq]
    have hevery : server.EveryStep (fun _ _ a => a ≠ .deleteJob id) s acts := by
      rintro pre a post rfl
      exact hdel a (List.mem_append_right _ List.mem_cons_self) id
    have hrun := hevery.inv (P := fun _ s => s.KeysKept ∧ s.HasKey id k) ⟨h.keys, hk⟩
      fun _ s a hs ha => ⟨hs.1.step a, hs.2.step hs.1 ha⟩
    exact hrun.2

/-- What a request leaves in the store, and its answer: nothing happened, a job was stored on one of the two paths, or
the job with the key was found. -/
inductive Posted (fmt : Rfc3339) (r : HttpRequest) (s : Server σ) (st : σ) : HttpResponse → Prop
  | refused {msg : String} {code : Nat} : st = s.store → Posted fmt r s st (httpError msg code)
  | scheduled {req : Handlers.SubmitJobRequest} {j : Job} : r.body = some req → isBlank req.runAt = false →
      j.idempotencyKey = "" → Store.add s.store j = .ok st → Posted fmt r s st (scheduledResponse fmt j)
  | found {req : Handlers.SubmitJobRequest} {j : Job} : r.body = some req → isBlank req.runAt = true → st = s.store →
      Store.findByIdempotencyKey s.store req.idempotencyKey = some j → Posted fmt r s st (submittedResponse j true)
  | created {req : Handlers.SubmitJobRequest} {j : Job} : r.body = some req → isBlank req.runAt = true →
      j.idempotencyKey = req.idempotencyKey →
      (req.idempotencyKey ≠ "" → Store.findByIdempotencyKey s.store req.idempotencyKey = none) →
      Store.add s.store j = .ok st → Posted fmt r s st (submittedResponse j false)

variable (fmt) in
theorem post_posted (now : Time) (r : HttpRequest) (s : Server σ) :
    Posted fmt r s (s.post fmt now r).1.store (s.post fmt now r).2 := by
  have hh := submitJobHandler_handled fmt now r s.engine
  unfold post
  generalize submitJobHandler fmt now r s.engine = p at hh
  cases hh with
  | rejected => exact .refused rfl
  | @failedAt jobType priority runAt err herr =>
    rcases submitJobAt_cases s.engine jobType priority runAt with ⟨_, -, hstore⟩ | ⟨j, hj, -, -⟩
    · exact .refused hstore
    · rw [hj] at herr; cases herr
  | @scheduled req runAt created hbody hblank hok =>
    rcases submitJobAt_cases s.engine req.type req.priority runAt with ⟨_, herr, -⟩ | ⟨j, hj, hkey, hadd⟩
    · rw [hok] at herr; cases herr
    · cases hok.symm.trans hj
      exact .scheduled hbody hblank hkey hadd
  | @failed key jobType priority err herr =>
    rcases submitJobIdempotent_cases s.engine key jobType priority with
      ⟨_, -, hstore⟩ | ⟨j, hcall, -, -⟩ | ⟨j, hj, -, -, -⟩
    · exact .refused hstore
    · rw [hcall] at herr; cases herr
    · rw [hj] at herr; cases herr
  | @submitted req created wasDuplicate hbody hblank hok =>
    rcases submitJobIdempotent_cases s.engine req.idempotencyKey req.type req.priority with
      ⟨err, herr, -⟩ | ⟨j, hcall, -, hfind⟩ | ⟨j, hj, hkey, hfind, hadd⟩
    · rw [hok] at herr; cases herr
    · rw [hcall] at hok ⊢
      cases hok
      exact .found hbody hblank rfl hfind
    · cases hok.symm.trans hj
      exact .created hbody hblank hkey hfind hadd

variable (fmt) in
/-- The request has the key `k` and is answered with the job `id`. -/
def Accepts (s : Server σ) (now : Time) (r : HttpRequest) (k : String) (id : Int) (code : Nat) : Prop :=
  ∃ req b, r.body = some req ∧ req.idempotencyKey = k ∧ (s.post fmt now r).2 = ⟨code, .job b⟩ ∧ b.id = id

/-- An accepted request with a key: the scheduled path stores a job without it; the immediate path finds the job
with the key, or stores one if there is none. -/
theorem Accepts.cases {s : Server σ} {now : Time} {r : HttpRequest} {k : String} {id : Int} {code : Nat}
    (h : s.Accepts fmt now r k id code) (hne : k ≠ "") :
    r.HasRunAt ∧ (s.post fmt now r).1.HasKey id "" ∨
      ¬ r.HasRunAt ∧ code = 200 ∧ (s.post fmt now r).1.store = s.store ∧
        (∃ j, Store.findByIdempotencyKey s.store k = some j ∧ j.id = id) ∨
      ¬ r.HasRunAt ∧ code = 201 ∧ (s.post fmt now r).1.HasKey id k ∧ Store.findByIdempotencyKey s.store k = none := by
  obtain ⟨req, b, hbody, rfl, hanswer, rfl⟩ := h
  have himm : ∀ {req'}, r.body = some req' → isBlank req'.runAt = true → ¬ r.HasRunAt := by
    rintro req' hbody' hblank ⟨req'', hbody'', hnot⟩
    cases hbody'.symm.trans hbody''
    rw [hblank] at hnot; cases hnot
  have hp := post_posted fmt now r s
  rw [hanswer] at hp
  unfold HasKey
  generalize (s.post fmt now r).1.store = st at hp ⊢
  generalize hres : (⟨code, .job b⟩ : HttpResponse) = res at hp
  cases hp with
  | refused _ => cases hres
  | @scheduled req' j hbody' hblank hkey hadd =>
    cases hres
    exact .inl ⟨⟨req', hbody', hblank⟩, j, get_added hadd, hkey⟩
  | @found req' j hbody' hblank hst hfind =>
    cases hres
    cases hbody.symm.trans hbody'
    exact .inr (.inl ⟨himm hbody hblank, rfl, hst, j, hfind, rfl⟩)
  | @created req' j hbody' hblank hkey hfind hadd =>
    cases hres
    cases hbody.symm.trans hbody'
    exact .inr (.inr ⟨himm hbody hblank, rfl, ⟨j, get_added hadd, hkey⟩, hfind hne⟩)

/-- A key comes into the store with the answer to a request. -/
theorem HasKey.of_post {s : Server σ} {now : Time} {r : HttpRequest} {id : Int} {k : String} (hne : k ≠ "")
    (h : (s.post fmt now r).1.HasKey id k) : s.HasKey id k ∨ s.Accepts fmt now r k id 201 := by
  obtain ⟨x, hx, hkey⟩ := h
  have hp := post_posted fmt now r s
  unfold Accepts
  generalize (s.post fmt now r).1.store = st at hp hx
  -- a job that was there before, or the added one
  have hadded : ∀ {j : Job}, Store.add s.store j = .ok st → s.HasKey id k ∨ j.id = id ∧ j = x := by
    intro j hadd
    have hget := LawfulStore.get_add hadd id
    rw [hx] at hget
    split at hget
    · rename_i hid
      exact .inr ⟨hid.symm, (Option.some.inj hget).symm⟩
    · exact .inl ⟨x, hget.symm, hkey⟩
  generalize (s.post fmt now r).2 = res at hp ⊢
  cases hp with
  | refused hst => exact .inl ⟨x, hst ▸ hx, hkey⟩
  | scheduled _ _ hnokey hadd =>
    rcases hadded hadd with hold | ⟨-, rfl⟩
    · exact .inl hold
    · exact absurd (hkey.symm.trans hnokey) hne
  | found _ _ hst _ => exact .inl ⟨x, hst ▸ hx, hkey⟩
  | @created req j hbody _ hjkey _ hadd =>
    rcases hadded hadd with hold | ⟨rfl, rfl⟩
    · exact .inl hold
    · exact .inr ⟨req, _, hbody, hjkey.symm.trans hkey, rfl, rfl⟩

/-- Nothing else brings a key into the store. -/
theorem HasKey.of_step {s : Server σ} (h : s.Ready) {a : Act} (ha : a.isKeyedCall = false) {id : Int} {k : String}
    (hne : k ≠ "") (hk : (s.step a).1.HasKey id k) : s.HasKey id k := by
  obtain ⟨y, hy, hkey⟩ := hk
  rcases (step_job h.keys.sound.wf a id).stored hy with ⟨x, hx⟩ | ⟨hadd, -⟩
  · exact ⟨x, hx, (h.keys.key_step a hx hy).symm.trans hkey⟩
  · cases hadd with
    | submitJob => exact absurd hkey.symm hne
    | submitJobAt => exact absurd hkey.symm hne
    | addKeyed _ => cases ha

/-! ## The contract -/

variable (fmt) in
/-- In the run, the request after `pre` has the key `k` and is answered with the job `id`. -/
def Answered (s₀ : Server σ) (inputs pre : List ApiInput) (now : Time) (r : HttpRequest) (k : String) (id : Int)
    (code : Nat) : Prop :=
  (∃ post, inputs = pre ++ .post now r :: post) ∧ k ≠ "" ∧ ((api fmt).exec s₀ pre).Accepts fmt now r k id code

variable (fmt) in
/-- What clients are promised about requests with a key. -/
structure Deduplicates (s₀ : Server σ) (inputs : List ApiInput) : Prop where
  /-- The stored job carries the key. -/
  carries : ∀ {pre now r k id code}, Answered fmt s₀ inputs pre now r k id code →
    ((api fmt).exec s₀ (pre ++ [.post now r])).HasKey id k
  /-- The first request with a key creates a job. -/
  first : ∀ {pre now r k id code}, Answered fmt s₀ inputs pre now r k id code → (∀ id, ¬ s₀.HasKey id k) →
    (∀ {pre' now' r' id' code'}, Answered fmt s₀ inputs pre' now' r' k id' code' → pre.length ≤ pre'.length) →
      code = 201
  /-- A later one is answered with the same job, unless it was deleted in between. -/
  repeated : ∀ {pre now₁ r₁ mid now₂ r₂ k id₁ code₁ id₂ code₂}, Answered fmt s₀ inputs pre now₁ r₁ k id₁ code₁ →
    Answered fmt s₀ inputs (pre ++ .post now₁ r₁ :: mid) now₂ r₂ k id₂ code₂ → (∀ h, .act (.deleteJob id₁) h ∉ mid) →
    id₂ = id₁ ∧ code₂ = 200

theorem Ready.exec {s : Server σ} (h : s.Ready) (inputs : List ApiInput) : ((api fmt).exec s inputs).Ready :=
  Machine.exec_inv (M := api fmt) h (fun _ i hs => hs.step i) inputs

/-- The job of an accepted request without `run_at` has the key. -/
theorem Accepts.hasKey {s : Server σ} (h : s.Ready) {now : Time} {r : HttpRequest} {k : String} {id : Int} {code : Nat}
    (ha : s.Accepts fmt now r k id code) (hne : k ≠ "") (hr : ¬ r.HasRunAt) : (s.post fmt now r).1.HasKey id k := by
  rcases ha.cases hne with ⟨hrun, -⟩ | ⟨-, -, hst, j, hfind, rfl⟩ | ⟨-, -, hkey, -⟩
  · exact absurd hrun hr
  · obtain ⟨id, hget, hkey⟩ := (h.keys.index.find_iff hne).1 hfind
    refine ⟨j, ?_, hkey⟩
    rw [hst, LawfulStore.get_id h.keys.sound.wf hget]
    exact hget
  · exact hkey

/-- A key in the store was there at the start, or a request brought it. -/
theorem HasKey.origin {s₀ : Server σ} (h : s₀.Ready) {inputs : List ApiInput} {id : Int} {k : String} (hne : k ≠ "")
    (hk : ((api fmt).exec s₀ inputs).HasKey id k) :
    s₀.HasKey id k ∨ ∃ pre now r post, inputs = pre ++ .post now r :: post ∧
      ((api fmt).exec s₀ pre).Accepts fmt now r k id 201 := by
  induction inputs using List.reverseRecOn with
  | nil => exact .inl hk
  | append_singleton inputs i ih =>
    have hearlier : ((api fmt).exec s₀ inputs).HasKey id k → s₀.HasKey id k ∨ ∃ pre now r post,
        inputs ++ [i] = pre ++ .post now r :: post ∧ ((api fmt).exec s₀ pre).Accepts fmt now r k id 201 := by
      intro hold
      rcases ih hold with h0 | ⟨pre, now, r, post, rfl, hacc⟩
      · exact .inl h0
      · exact .inr ⟨pre, now, r, post ++ [i], by simp, hacc⟩
    rw [Machine.exec_append] at hk
    cases i with
    | act a ha => exact hearlier (HasKey.of_step (h.exec inputs) ha hne hk)
    | post now r =>
      rcases HasKey.of_post hne hk with hold | hacc
      · exact hearlier hold
      · exact .inr ⟨inputs, now, r, [], rfl, hacc⟩

/-- The first request with a key that is not stored creates a job. -/
theorem first_creates {s₀ : Server σ} (h₀ : s₀.Ready) {pre : List ApiInput} {now : Time} {r : HttpRequest} {k : String}
    {id : Int} {code : Nat} (hacc : ((api fmt).exec s₀ pre).Accepts fmt now r k id code) (hne : k ≠ "")
    (hr : ¬ r.HasRunAt) (hnew : ∀ id, ¬ s₀.HasKey id k)
    (hfirst : ∀ pre' now' r' post' id', pre = pre' ++ .post now' r' :: post' →
      ¬ ((api fmt).exec s₀ pre').Accepts fmt now' r' k id' 201) : code = 201 := by
  rcases hacc.cases hne with ⟨hrun, -⟩ | ⟨-, -, -, j, hfind, -⟩ | ⟨-, hcode, -⟩
  · exact absurd hrun hr
  · -- the job that was found came from an earlier request
    obtain ⟨id', hget, hkey⟩ := ((h₀.exec pre).keys.index.find_iff hne).1 hfind
    rcases HasKey.origin h₀ hne ⟨j, hget, hkey⟩ with h0 | ⟨pre', now', r', post', heq, hacc'⟩
    · exact absurd h0 (hnew id')
    · exact absurd hacc' (hfirst pre' now' r' post' id' heq)
  · exact hcode

/-- A second request finds the job of the first. -/
theorem second_finds {s : Server σ} (h : s.Ready) {mid : List ApiInput} {now₁ now₂ : Time} {r₁ r₂ : HttpRequest}
    {k : String} {id₁ id₂ : Int} {code₁ code₂ : Nat} (hacc₁ : s.Accepts fmt now₁ r₁ k id₁ code₁)
    (hacc₂ : ((api fmt).exec (s.post fmt now₁ r₁).1 mid).Accepts fmt now₂ r₂ k id₂ code₂) (hne : k ≠ "")
    (hr₁ : ¬ r₁.HasRunAt) (hr₂ : ¬ r₂.HasRunAt) (hdel : ∀ h, .act (.deleteJob id₁) h ∉ mid) :
    id₂ = id₁ ∧ code₂ = 200 := by
  have hready : (s.post fmt now₁ r₁).1.Ready := h.step (.post now₁ r₁)
  -- the job of the first request is there when the second comes
  have hevery : (api fmt).EveryStep (fun _ _ i => ∀ h, i ≠ .act (.deleteJob id₁) h) (s.post fmt now₁ r₁).1 mid := by
    rintro p i q rfl h rfl
    exact hdel h (List.mem_append_right _ List.mem_cons_self)
  have hkept := (hevery.inv (P := fun _ s => s.Ready ∧ s.HasKey id₁ k) ⟨hready, hacc₁.hasKey h hne hr₁⟩
    fun _ s i hs hi => ⟨hs.1.step i, hs.2.input hs.1 hi⟩).2
  obtain ⟨j, hfind, hid⟩ := hkept.find (hready.exec mid).keys hne
  rcases hacc₂.cases hne with ⟨hrun, -⟩ | ⟨-, hcode, -, j', hfind', hid'⟩ | ⟨-, -, -, hnone⟩
  · exact absurd hrun hr₂
  · cases hfind.symm.trans hfind'
    exact ⟨hid'.symm.trans hid, hcode⟩
  · cases hfind.symm.trans hnone

/-- Requests are deduplicated by key if and only if no accepted request with a key has a `run_at`. -/
theorem submitJobHandler_deduplicates_iff (fmt : Rfc3339) (st : σ) (hst : LawfulStore.WF st) (hk : Store.KeysIndexed st)
    (available : Chan WorkerClient) (broker : Option Broker) (ord ord₁ ord₂ ord₃ ord₄ : RangeOrder Int)
    (inputs : List ApiInput) :
    let s₀ := start st available broker ord ord₁ ord₂ ord₃ ord₄
    Deduplicates fmt s₀ inputs ↔
      ∀ pre now r k id code, Answered fmt s₀ inputs pre now r k id code → ¬ r.HasRunAt := by
  intro s₀
  have h₀ : s₀.Ready := ⟨keysKept_start hst hk available broker ord ord₁ ord₂ ord₃ ord₄, rfl⟩
  constructor
  · intro hd pre now r k id code ha hrun
    obtain ⟨x, hx, hxkey⟩ := hd.carries ha
    rw [Machine.exec_append] at hx
    obtain ⟨-, hne, hacc⟩ := ha
    rcases hacc.cases hne with ⟨-, y, hy, hykey⟩ | ⟨hr, -⟩ | ⟨hr, -⟩
    · cases hx.symm.trans hy
      exact hne (hxkey.symm.trans hykey)
    · exact hr hrun
    · exact hr hrun
  · intro himm
    refine ⟨?_, ?_, ?_⟩
    · intro pre now r k id code ha
      rw [Machine.exec_append]
      exact ha.2.2.hasKey (h₀.exec pre) ha.2.1 (himm _ _ _ _ _ _ ha)
    · intro pre now r k id code ha hnew hfirst
      have hr := himm _ _ _ _ _ _ ha
      obtain ⟨⟨post, rfl⟩, hne, hacc⟩ := ha
      refine first_creates h₀ hacc hne hr hnew ?_
      rintro pre' now' r' post' id' rfl hacc'
      have hle := @hfirst pre' now' r' id' 201 ⟨⟨post' ++ .post now r :: post, by simp⟩, hne, hacc'⟩
      rw [List.length_append, List.length_cons] at hle
      omega
    · intro pre now₁ r₁ mid now₂ r₂ k id₁ code₁ id₂ code₂ ha₁ ha₂ hdel
      have hacc₂ := ha₂.2.2
      rw [Machine.exec_append, Machine.exec_cons] at hacc₂
      exact second_finds (h₀.exec pre) ha₁.2.2 hacc₂ ha₁.2.1 (himm _ _ _ _ _ _ ha₁) (himm _ _ _ _ _ _ ha₂) hdel

/-- A client's request with the key `k`. -/
def keyed (runAt : String) : HttpRequest :=
  ⟨"POST", some { type := "email", priority := 1, runAt := runAt, idempotencyKey := "k" }⟩

/-- The layout, as far as one instant. -/
def newYear : Rfc3339 :=
  ⟨fun s => if s = "2031-01-01T00:00:00Z" then some 1924992000 else none, fun _ => "2031-01-01T00:00:00Z"⟩

/-- Two immediate requests: the second is answered with the job of the first. -/
theorem submitJobHandler_deduplicates_two :
    let s₀ := start (Store.empty : MemoryStore) ⟨1, [], by decide⟩ none .stored .stored .stored .stored .stored
    let inputs := [.post 5 (keyed ""), .post 6 (keyed " ")]
    Deduplicates newYear s₀ inputs ∧ (api newYear).trace s₀ inputs =
      [⟨201, .job ⟨1, "submitted", none, some "k"⟩⟩, ⟨200, .job ⟨1, "submitted", none, some "k"⟩⟩] := by
  refine ⟨(submitJobHandler_deduplicates_iff newYear _ LawfulStore.wf_empty Store.keysIndexed_empty
    ⟨1, [], by decide⟩ none .stored .stored .stored .stored .stored _).2 ?_, by decide +kernel⟩
  rintro pre now r k id code ⟨⟨post, hin⟩, -⟩ ⟨req, hbody, hrun⟩
  have hmem : ApiInput.post now r ∈ [.post 5 (keyed ""), .post 6 (keyed " ")] := by rw [hin]; simp
  rcases List.mem_cons.1 hmem with he | hmem
  · cases he; cases hbody; exact absurd hrun (by decide)
  · cases List.mem_singleton.1 hmem; cases hbody; exact absurd hrun (by decide)

/-- Two scheduled requests with one key: each creates a job, and neither job has the key. -/
theorem scheduled_twice_created :
    let s₀ := start (Store.empty : MemoryStore) ⟨1, [], by decide⟩ none .stored .stored .stored .stored .stored
    let r := keyed "2031-01-01T00:00:00Z"
    let inputs := [.post 1893456000 r, .post 1893456001 r]
    ¬ Deduplicates newYear s₀ inputs ∧
      (api newYear).trace s₀ inputs = [⟨201, .job ⟨1, "scheduled", some "2031-01-01T00:00:00Z", none⟩⟩,
        ⟨201, .job ⟨2, "scheduled", some "2031-01-01T00:00:00Z", none⟩⟩] ∧
      ((Store.list .stored ((api newYear).exec s₀ inputs).store).map fun j => (j.id, j.idempotencyKey)) =
        [(2, ""), (1, "")] := by
  intro s₀ r inputs
  refine ⟨fun hd => ?_, by decide +kernel, by decide +kernel⟩
  have h₁ : Answered newYear s₀ inputs [] 1893456000 r "k" 1 201 :=
    ⟨⟨_, rfl⟩, by decide, _, ⟨1, "scheduled", some "2031-01-01T00:00:00Z", none⟩, rfl, rfl, by decide +kernel, rfl⟩
  have h₂ : Answered newYear s₀ inputs ([] ++ .post 1893456000 r :: []) 1893456001 r "k" 2 201 :=
    ⟨⟨_, rfl⟩, by decide, _, ⟨2, "scheduled", some "2031-01-01T00:00:00Z", none⟩, rfl, rfl, by decide +kernel, rfl⟩
  exact absurd (hd.repeated h₁ h₂ (by simp)).1 (by decide)

end Server

end Quorum
