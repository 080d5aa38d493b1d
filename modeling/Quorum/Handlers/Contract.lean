/-
What the HTTP API for jobs is for, said without queues, loops and workers: a table of jobs by id, of which a client
knows the type, the priority, the idempotency key and the status. `Answers` is the contract of one request, exact in
both directions: a job is found or missing, cancelled or in conflict, new or a duplicate as the table says, and
nothing else changes. Between requests jobs go on along the transitions of their status, and the cron scheduler adds
new ones. Every run of a standalone node keeps to it, its requests served one after the other, whatever the loops, the
workers and restarts of the process on the same store do between them.
-/
import Quorum.Handlers.Accounts

namespace Quorum

/-- What a client knows of a job. -/
structure Record where
  type : String
  priority : Int
  key : String
  status : Status
  deriving DecidableEq

def Job.record (j : Job) : Record := ⟨j.type, j.priority, j.idempotencyKey, j.status⟩

namespace Contract

open Http

/-! ## The contract -/

/-- The jobs by id. -/
abbrev Jobs := Int → Option Record

/-- No job has this id or a higher one. -/
def Fresh (s : Jobs) (id : Int) : Prop := ∀ k, id ≤ k → s k = none

/-- No job has this key. -/
def Unused (s : Jobs) (key : String) : Prop := ∀ id r, s id = some r → r.key ≠ key

/-- What a request asks for. A body that is not accepted, and an id that is no number, are none. -/
inductive Demand where
  | submit (call : Option Call)
  | list
  | get (id : Option Int)
  | cancel (id : Option Int)
  /-- `/jobs` with another method. -/
  | unsupported
  /-- Nothing that concerns jobs. -/
  | other

def demand (env : Env) (now : Time) (r : Request) : Demand :=
  match endpointOf r with
  | some (.jobs, _) =>
    if r.method = "POST" then .submit (submitCall env.codec now r) else if r.method = "GET" then .list else .unsupported
  | some (.job, ids) => .get (Cron.atoi (pathValue ids).toList)
  | some (.cancelJob, ids) => .cancel (Cron.atoi (pathValue ids).toList)
  | _ => .other

/-- What a client gets for an immediate job: its id, and its key if it has one. -/
def receipt (id : Int) (key : String) : JobBody := ⟨id, "submitted", none, if key ≠ "" then some key else none⟩

/-- An answer to a request, and the jobs afterwards. -/
inductive Answers (fmt : Rfc3339) (s : Jobs) : Demand → Response → Jobs → Prop
  | refused {d : Demand} {x : Response} : x.Refused → Answers fmt s d x s
  | other {x : Response} : Answers fmt s .other x s
  | unsupported : Answers fmt s .unsupported (textError "Method Not Allowed" 405) s
  | invalid {msg : String} : Answers fmt s (.submit none) (textError msg 400) s
  /-- A key that the store does not take. -/
  | failed {key jobType : String} {priority : Int} : key ≠ "" → Unused s key →
      Answers fmt s (.submit (some (.submitJobIdempotent key jobType priority)))
        (textError "Failed to submit job" 500) s
  | created {key jobType : String} {priority id : Int} : Fresh s id → (key ≠ "" → Unused s key) →
      Answers fmt s (.submit (some (.submitJobIdempotent key jobType priority))) ⟨201, .jobCreated (receipt id key)⟩
        (Function.update s id (some ⟨jobType, priority, key, .pending⟩))
  | duplicate {key jobType : String} {priority id : Int} {r : Record} : key ≠ "" → s id = some r → r.key = key →
      Answers fmt s (.submit (some (.submitJobIdempotent key jobType priority))) ⟨200, .jobCreated (receipt id key)⟩ s
  | scheduled {jobType : String} {priority id : Int} {runAt : Time} : Fresh s id →
      Answers fmt s (.submit (some (.submitJobAt jobType priority runAt)))
        ⟨201, .jobCreated ⟨id, "scheduled", some (fmt.format runAt), none⟩⟩
        (Function.update s id (some ⟨jobType, priority, "", .scheduled⟩))
  | listed {jobs : List Job} : (jobs.map Job.id).Nodup →
      (∀ id r, s id = some r ↔ ∃ j ∈ jobs, j.id = id ∧ j.record = r) → Answers fmt s .list ⟨200, .jobs jobs⟩ s
  | noId : Answers fmt s (.get none) (textError "Invalid job ID" 400) s
  | missing {id : Int} : s id = none → Answers fmt s (.get (some id)) (textError "Job not found" 404) s
  | found {j : Job} : s j.id = some j.record → Answers fmt s (.get (some j.id)) ⟨200, .job j⟩ s
  | noIdToCancel : Answers fmt s (.cancel none) (textError "invalid job id" 400) s
  | cancelled {id : Int} {r : Record} : s id = some r → r.status.isTerminal = false →
      Answers fmt s (.cancel (some id)) ⟨200, .status "cancelled" none⟩
        (Function.update s id (some { r with status := .cancelled }))
  | conflict {id : Int} {msg : String} : (∀ r, s id = some r → r.status.isTerminal = true) →
      Answers fmt s (.cancel (some id)) (textError msg 409) s

/-- Each job stays as it is, or goes on to a status that may follow its own. -/
def Evolves (s s' : Jobs) : Prop :=
  ∀ id, s' id = s id ∨
    ∃ r status, s id = some r ∧ isValidTransition r.status status = true ∧ s' id = some { r with status := status }

/-- The exchanges of a run, and the jobs before and after it. -/
inductive Run (env : Env) : Jobs → List Exchange → Jobs → Prop
  | nil {s : Jobs} : Run env s [] s
  | answered {s s' s'' : Jobs} {x : Exchange} {xs : List Exchange} :
      Answers env.codec.rfc3339 s (demand env x.reading.now x.request) x.response s' → Run env s' xs s'' →
        Run env s (x :: xs) s''
  | evolved {s s' s'' : Jobs} {xs : List Exchange} : Evolves s s' → Run env s' xs s'' → Run env s xs s''
  /-- A cron job comes due. -/
  | planned {s s'' : Jobs} {xs : List Exchange} {id : Int} {jobType : String} {priority : Int} : Fresh s id →
      Run env (Function.update s id (some ⟨jobType, priority, "", .pending⟩)) xs s'' → Run env s xs s''

theorem Run.append {env : Env} {s s' s'' : Jobs} {xs ys : List Exchange} (h : Run env s xs s')
    (h' : Run env s' ys s'') :
    Run env s (xs ++ ys) s'' := by
  induction h with
  | nil => exact h'
  | answered hx _ ih => exact .answered hx (ih h')
  | evolved he _ ih => exact .evolved he (ih h')
  | planned hfresh _ ih => exact .planned hfresh (ih h')

/-! ## The jobs of a store -/

section
variable {σ : Type}

/-- What the clients know of a store. -/
def jobsOf [Store σ] (st : σ) : Jobs := fun id => (Store.get st id).map Job.record

theorem jobsOf_eq_some [Store σ] {st : σ} {id : Int} {r : Record} :
    jobsOf st id = some r ↔ ∃ j, Store.get st id = some j ∧ j.record = r := Option.map_eq_some_iff

theorem jobsOf_eq_none [Store σ] {st : σ} {id : Int} : jobsOf st id = none ↔ Store.get st id = none :=
  Option.map_eq_none_iff

variable [TableStore σ]

theorem jobsOf_add {st st' : σ} {j : Job} (hadd : Store.add st j = .ok st') :
    jobsOf st' = Function.update (jobsOf st) j.id (some j.record) := by
  funext id
  rw [Function.update_apply, jobsOf, LawfulStore.get_add hadd]
  split <;> rfl

theorem jobsOf_cancel {st st' : σ} (hk : Store.Keyed st) {id : Int} (hc : Store.cancel st id = .ok st') :
    ∃ r, jobsOf st id = some r ∧ r.status.isTerminal = false ∧
      jobsOf st' = Function.update (jobsOf st) id (some { r with status := .cancelled }) := by
  obtain ⟨j, hj, hactive, hget⟩ := LawfulStore.cancel_ok hc
  refine ⟨j.record, jobsOf_eq_some.2 ⟨j, hj, rfl⟩, hactive, ?_⟩
  funext k
  rw [Function.update_apply, jobsOf, hget (hk id j hj)]
  split <;> rfl

theorem jobsOf_crons {st st' : σ} (h : Store.CronsOnly st st') : jobsOf st' = jobsOf st := by
  funext id
  rw [jobsOf, h.get, jobsOf]

theorem listed_jobsOf {st : σ} (hk : Store.Keyed st) (ord : RangeOrder Int) (id : Int) (r : Record) :
    jobsOf st id = some r ↔ ∃ j ∈ Store.list ord st, j.id = id ∧ j.record = r := by
  rw [jobsOf_eq_some]
  constructor
  · rintro ⟨j, hj, hr⟩
    have hid := hk id j hj
    exact ⟨j, (Store.mem_list_iff hk).2 (hid.symm ▸ hj), hid, hr⟩
  · rintro ⟨j, hj, rfl, hr⟩
    exact ⟨j, (Store.mem_list_iff hk).1 hj, hr⟩

end

end Contract

/-! ## The server -/

namespace Server

variable {σ : Type} [TableStore σ]

open Contract

theorem Sound.fresh_jobs {s : Server σ} (h : s.Sound) : Fresh (jobsOf s.store) (s.engine.nextJobID + 1) := by
  intro k hk
  refine jobsOf_eq_none.2 ?_
  cases hget : Store.get s.store k with
  | none => rfl
  | some j =>
    have hle := h.stored k j hget
    omega

theorem KeysKept.unused {s : Server σ} (h : s.KeysKept) {key : String} (hne : key ≠ "")
    (hfind : Store.findByIdempotencyKey s.store key = none) : Unused (jobsOf s.store) key := by
  rintro id r hr rfl
  obtain ⟨j, hj, rfl⟩ := jobsOf_eq_some.1 hr
  cases hfind.symm.trans ((h.index.find_iff hne).2 ⟨id, hj, rfl⟩)

theorem stable_keysKept : Stable (σ := σ) KeysKept where
  act := fun _ h => h.step _
  crons := by
    intro s st h hst
    have hindex : IndexedStore.keyIndex st = IndexedStore.keyIndex s.store := by
      cases hst with
      | same => rfl
      | added hadd => exact IndexedStore.keyIndex_addCron hadd
      | deleted id => exact IndexedStore.keyIndex_deleteCron _ id
    refine ⟨h.sound.crons hst, h.index.same hst.get hindex, fun c hc x hx =>
      h.copies c hc x ((hst.get _).symm.trans hx), ?_⟩
    intro key jobType priority hsub
    obtain ⟨hne, hfind⟩ := h.submitting key jobType priority hsub
    refine ⟨hne, ?_⟩
    have hsame : Store.findByIdempotencyKey st key = Store.findByIdempotencyKey s.store key := by
      rw [IndexedStore.find_eq, IndexedStore.find_eq, hindex]
      exact congrArg _ (funext hst.get)
    exact hsame.trans hfind

/-- What the loops, the runners and the process do. -/
theorem evolves_step {s : Server σ} (hf : s.Faithful) (hk : s.KeysKept) {a : Act} (ha : Http.isInternal a = true) :
    Evolves (jobsOf s.store) (jobsOf (s.step a).1.store) := by
  intro id
  have hch := step_job hf.sound.wf a id
  unfold jobsOf
  generalize hx : Store.get (s.step a).1.store id = x at hch
  cases hch with
  | same => exact .inl rfl
  | added hadd => cases hadd <;> cases ha
  | @written c j old _ _ hold hv =>
    obtain ⟨htype, hpriority⟩ := hf.asked_step a hold hx
    have hkey := hk.key_step a hold hx
    refine .inr ⟨old.record, j.status, by rw [hold]; rfl, hv, ?_⟩
    simp [Job.record, htype, hpriority, hkey]
  | cancelled heq =>
    subst heq
    cases ha
  | deleted heq =>
    subst heq
    cases ha

end Server

/-! ## Requests -/

namespace Contract

open Http ServeMux

section
variable {σ : Type} [TableStore σ] {n : ControlNode σ} {rd : Reading} {fmt : Rfc3339}

theorem getJobHandler_answers (hk : Store.Keyed n.store) (idStr : String) :
    Answers fmt (jobsOf n.store) (.get (Cron.atoi idStr.toList)) (getJobHandler idStr n) (jobsOf n.store) := by
  unfold getJobHandler
  cases Cron.atoi idStr.toList with
  | none => exact .noId
  | some id =>
    dsimp only
    cases hj : Store.get n.store id with
    | none => exact .missing (jobsOf_eq_none.2 hj)
    | some j =>
      obtain rfl := hk id j hj
      exact .found (jobsOf_eq_some.2 ⟨j, hj, rfl⟩)

theorem cancelJobHandler_answers (hk : Store.Keyed n.store) (hraft : rd.raft = none) (idStr : String) :
    Answers fmt (jobsOf n.store) (.cancel (Cron.atoi idStr.toList)) (cancelJobHandler rd idStr n).1
      (jobsOf (cancelJobHandler rd idStr n).2.store) := by
  unfold cancelJobHandler
  cases Cron.atoi idStr.toList with
  | none => exact .noIdToCancel
  | some id =>
    rw [hraft]
    dsimp only [Engine.cancelJob]
    cases hcancel : Store.cancel n.server.engine.scheduler.store id with
    | ok st =>
      obtain ⟨r, hr, hactive, heq⟩ := jobsOf_cancel hk hcancel
      change Answers _ _ _ _ (jobsOf st)
      rw [heq]
      exact .cancelled hr hactive
    | error err =>
      refine .conflict fun r hr => ?_
      obtain ⟨j, hj, rfl⟩ := jobsOf_eq_some.1 hr
      -- an active job is cancelled
      by_contra hactive
      obtain ⟨st, hok⟩ := TableStore.cancel_ok_iff.2 ⟨j, hj, Bool.eq_false_iff.2 hactive⟩
      cases hcancel.symm.trans hok

omit [TableStore σ] in
/-- Only a key can make a submission fail, and only one that is new. -/
theorem submitJobIdempotent_error [LawfulStore σ] {s : Server σ} (hs : s.Sound) {key jobType : String} {priority : Int}
    {err : String} (h : (s.engine.submitJobIdempotent none key jobType priority).1 = .error err) :
    key ≠ "" ∧ Store.findByIdempotencyKey s.store key = none := by
  unfold Engine.submitJobIdempotent at h
  by_cases hkey : key = ""
  · rw [if_pos hkey] at h
    dsimp only at h
    rw [(submitJob_ok hs jobType priority).1] at h
    cases h
  · rw [if_neg hkey] at h
    refine ⟨hkey, ?_⟩
    cases hfind : Store.findByIdempotencyKey s.store key with
    | none => rfl
    | some j =>
      rw [show Store.findByIdempotencyKey s.engine.scheduler.store key = some j from hfind] at h
      cases h

theorem submitJobHandler_answers {codec : Codec} (hs : n.server.KeysKept) (hraft : rd.raft = none) {r : Request}
    (hpost : r.method = "POST") :
    Answers codec.rfc3339 (jobsOf n.store) (.submit (submitCall codec rd.now r)) (Http.submitJobHandler codec rd r n).1
      (jobsOf (Http.submitJobHandler codec rd r n).2.store) := by
  have hsubmits : Submits codec rd r n (Http.submitJobHandler codec rd r n) := submitJobHandler_submits r
  generalize Http.submitJobHandler codec rd r n = p at hsubmits
  cases hsubmits with
  | rejected hcall =>
    rw [hcall, if_pos hpost]
    exact .invalid
  | @failedAt jobType priority runAt err _ herr =>
    rw [hraft] at herr
    cases herr.symm.trans (submitJobAt_ok hs.sound jobType priority runAt).1
  | @scheduled jobType priority runAt created hcall hres =>
    rw [hraft] at hres ⊢
    rw [hcall]
    obtain ⟨hok, hadd⟩ := submitJobAt_ok hs.sound jobType priority runAt
    cases hok.symm.trans hres
    have hjobs : jobsOf (n.withEngine (n.server.engine.submitJobAt none jobType priority runAt).2).store = _ :=
      jobsOf_add hadd
    rw [hjobs]
    exact .scheduled hs.sound.fresh_jobs
  | @failed key jobType priority err hcall herr =>
    rw [hraft] at herr ⊢
    rw [hcall]
    obtain ⟨hne, hfind⟩ := submitJobIdempotent_error hs.sound herr
    rcases submitJobIdempotent_cases n.server.engine key jobType priority with
      ⟨_, -, hstore⟩ | ⟨j, hok, -⟩ | ⟨j, hok, -⟩
    · change Answers _ _ _ _ (jobsOf (n.server.engine.submitJobIdempotent none key jobType priority).2.scheduler.store)
      rw [hstore]
      exact .failed hne (hs.unused hne hfind)
    · rw [hok] at herr
      cases herr
    · cases herr.symm.trans hok
  | @submitted key jobType priority created wasDuplicate hcall hres =>
    rw [hraft] at hres ⊢
    rw [hcall]
    rcases submitJobIdempotent_cases n.server.engine key jobType priority with
      ⟨_, herr, -⟩ | ⟨j, hok, hne, hfind⟩ | ⟨j, hok, hkey, hfind, hadd⟩
    · cases herr.symm.trans hres
    · rw [hok] at hres ⊢
      cases hres
      obtain ⟨id, hj, rfl⟩ := (hs.index.find_iff hne).1 hfind
      obtain rfl := LawfulStore.get_id hs.sound.wf hj
      exact .duplicate hne (jobsOf_eq_some.2 ⟨_, hj, rfl⟩) rfl
    · cases hok.symm.trans hres
      obtain ⟨hid, -, ⟨htype, hpriority⟩, hstatus⟩ := submitJobIdempotent_created hres
      subst hkey
      rw [show jobsOf (n.withEngine _).store = _ from jobsOf_add hadd, Job.record, htype, hpriority, hstatus]
      exact .created (hid ▸ hs.sound.fresh_jobs) fun hne => hs.unused hne (hfind hne)

/-- The calls of the other endpoints leave the jobs alone. -/
theorem jobsOf_call (hraft : rd.raft = none) {c : Call} (hjobs : c.endpoint ≠ .jobs)
    (hcancel : c.endpoint ≠ .cancelJob) :
    jobsOf (c.run rd n).store = jobsOf n.store := by
  cases c with
  | submitJobAt | submitJobIdempotent => exact absurd rfl hjobs
  | cancelJob => exact absurd rfl hcancel
  | addCronJob id schedule jobType priority =>
    rw [Call.run, hraft]
    obtain ⟨st, hserver, hst⟩ := addCronJob_server n rd.now id schedule jobType priority
    unfold ControlNode.store
    rw [hserver]
    exact jobsOf_crons hst
  | removeCronJob id =>
    rw [Call.run, hraft]
    exact jobsOf_crons (.deleted id)
  | evict id => rfl

variable (env : Env) (cfg : Config)

theorem serve_answers (hs : n.server.KeysKept) (hraft : rd.raft = none) (r : Request) :
    Answers env.codec.rfc3339 (jobsOf n.store) (demand env rd.now r) (serve env cfg rd r n).1
      (jobsOf (serve env cfg rd r n).2.store) := by
  have hk : Store.Keyed n.store := Store.keyed_of_wf hs.sound.wf
  have hopen := requireRoles_open (σ := σ) env (rfl : cfg.unguarded.authEnabled = false)
  rcases serve_or_refused env cfg rd r n with hserve | ⟨hcode, hserve⟩
  · rw [hserve, serve_eq]
    unfold demand
    cases endpointOf r with
    | none => exact .other
    | some p =>
      obtain ⟨endpoint, ids⟩ := p
      -- the endpoints that have nothing to do with jobs
      have hother : endpoint ≠ .jobs → endpoint ≠ .cancelJob → ∀ x,
          Answers env.codec.rfc3339 (jobsOf n.store) .other x
              (jobsOf (handle env cfg.unguarded endpoint none rd r ids n).2.store) := by
        intro hjobs hcancel x
        have hsame : jobsOf (handle env cfg.unguarded endpoint none rd r ids n).2.store = jobsOf n.store := by
          rw [handle_call env rfl]
          cases hcall : callOf env.codec rd.now r ids endpoint with
          | none => rfl
          | some c =>
            obtain ⟨rfl, -⟩ := callOf_endpoint hcall
            exact jobsOf_call hraft hjobs hcancel
        rw [hsame]
        exact .other
      cases endpoint with
      | jobs =>
        simp only [handle, requireSubmitter, requireViewer, hopen, reading, listJobsHandler]
        split
        · rename_i hpost
          exact submitJobHandler_answers hs hraft hpost
        · split
          · rename_i hget
            rw [if_neg (not_not.2 hget)]
            exact .listed (Store.snapshot_ids_nodup hk rd.jobs) (listed_jobsOf hk rd.jobs)
          · exact .unsupported
      | job =>
        simp only [handle, requireViewer, hopen, reading]
        exact getJobHandler_answers hk _
      | cancelJob =>
        simp only [handle, requireSubmitter, hopen]
        exact cancelJobHandler_answers hk hraft _
      | ui | uiRedirect | root | cron | deleteCron | status | nodes | node | raft | failover | leases | metrics
      | events =>
        exact hother (by decide) (by decide) _
  · rw [hserve]
    exact .refused hcode

/-! ## Runs -/

/-- The jobs of a tick of the cron scheduler, submitted one by one. -/
theorem run_submitJobs {s : Server σ} (hs : s.Sound) (jobs : List CronJob) :
    Run env (jobsOf s.store) []
      (jobsOf (s.withEngine (jobs.foldl (fun en c => (en.submitJob none c.type c.priority).2) s.engine)).store) := by
  induction jobs generalizing s with
  | nil => exact .nil
  | cons c jobs ih =>
    have hadd := (submitJob_ok hs c.type c.priority).2
    have hrest := ih (Server.step_sound hs (.submitJob c.type c.priority))
    rw [show jobsOf (s.step (.submitJob c.type c.priority)).1.store = _ from jobsOf_add hadd] at hrest
    exact .planned hs.fresh_jobs hrest

theorem step_run (hf : n.server.Faithful) (hs : n.server.KeysKept) {i : Input} (hi : i.standalone = true) :
    Run env (jobsOf n.store) (step env cfg n i).2 (jobsOf (step env cfg n i).1.store) := by
  cases i with
  | request rd r => exact .answered (serve_answers env cfg hs (Option.isNone_iff_eq_none.1 hi) r) .nil
  | act a ha =>
    have hevolves := Server.evolves_step hf hs ha
    rw [← step_act_server env cfg n ha] at hevolves
    exact .evolved hevolves .nil
  | tick raft now ord =>
    obtain rfl : raft = none := Option.isNone_iff_eq_none.1 hi
    exact run_submitJobs env hs.sound (n.cronScheduler.tick ord now).2
  | worker timeout a => exact .nil

theorem exec_run {n : ControlNode σ} (hidle : n.server.submitting = none) (hf : n.server.Faithful)
    (hs : n.server.KeysKept) {inputs : List Input} (halone : ∀ i ∈ inputs, i.standalone = true) :
    Run env (jobsOf n.store) ((api env cfg).trace n inputs) (jobsOf ((api env cfg).exec n inputs).store) := by
  induction inputs generalizing n with
  | nil => exact .nil
  | cons i inputs ih =>
    obtain ⟨hi, hrest⟩ := List.forall_mem_cons.1 halone
    obtain ⟨hidle', hf'⟩ := step_stable env cfg Server.stable_faithful hidle hf hi
    obtain ⟨-, hs'⟩ := step_stable env cfg Server.stable_keysKept hidle hs hi
    exact (step_run env cfg hf hs hi).append (ih hidle' hf' hs' hrest)

/-- Every run of a standalone node on a coherent store keeps the contract: its answers, in their order, are those that
the table of the jobs allows, from the jobs that the store had at the start to those it has at the end. -/
theorem api_contract {st : σ} (hwf : LawfulStore.WF st) (hkeys : Store.KeysIndexed st) (available : Chan WorkerClient)
    (broker : Option Broker) (ord ord₁ ord₂ ord₃ ord₄ : RangeOrder Int) {inputs : List Input}
    (halone : ∀ i ∈ inputs, i.standalone = true) :
    let n : ControlNode σ := ⟨.start st available broker ord ord₁ ord₂ ord₃ ord₄, .new, .new⟩
    Run env (jobsOf st) ((api env cfg).trace n inputs) (jobsOf ((api env cfg).exec n inputs).store) := by
  have hstart := Server.keysKept_start hwf hkeys available broker ord ord₁ ord₂ ord₃ ord₄
  have hstore : (Server.start st available broker ord ord₁ ord₂ ord₃ ord₄).store = st := Server.boot_store hwf ..
  have hrun := exec_run env cfg (n := ⟨.start st available broker ord ord₁ ord₂ ord₃ ord₄, .new, .new⟩) rfl
    ⟨hstart.sound, fun c hc => by cases hc⟩ hstart halone
  unfold ControlNode.store at hrun
  rw [hstore] at hrun
  exact hrun

end

theorem busyDay_contract :
    let M : Machine (ControlNode BoltStore) Input Exchange := api operatorEnv openConfig
    (M.trace freshNode busyDay).map (fun x => x.response.code) = [201, 201, 200] ∧
      jobsOf (M.exec freshNode busyDay).store 1 = some ⟨"email", 1, "", .cancelled⟩ ∧
      Run operatorEnv (fun _ => none) (M.trace freshNode busyDay) (jobsOf (M.exec freshNode busyDay).store) := by
  have halone : ∀ i ∈ busyDay, i.standalone = true := by simp [busyDay, Input.standalone, standalone, rebooted]
  have hempty : jobsOf (Store.empty : BoltStore) = fun _ => none := by
    funext id
    exact jobsOf_eq_none.2 (LawfulStore.get_empty id)
  have hrun := api_contract operatorEnv openConfig (LawfulStore.wf_empty (σ := BoltStore)) Store.keysIndexed_empty
    ⟨1, [], by decide⟩ none .stored .stored .stored .stored .stored halone
  rw [hempty] at hrun
  exact ⟨by decide +kernel, by decide +kernel, hrun⟩

end Contract

end Quorum
