/-
What the counts of `GET /cluster/status` say on a standalone node. A run has requests of anybody, one after the other,
and between them the loops, the cron scheduler, the workers and restarts of the process on the same store. Each
submission that was answered with 201 and each cron job that came due is one job more, and nothing else makes or loses
one; and every job is in one of the four counts.
-/
import Quorum.Consensus.Snapshot
import Quorum.Handlers.Requests

namespace Quorum

namespace Store

variable {σ : Type} [TableStore σ]

/-- How many jobs are stored. -/
def total (st : σ) : Nat := (list .stored st).length

theorem length_list {st : σ} (hk : Keyed st) (ord : RangeOrder Int) : (list ord st).length = total st := by
  refine ((List.perm_ext_iff_of_nodup (list_nodup hk ord) (list_nodup hk .stored)).2 fun j => ?_).length_eq
  rw [mem_list_iff hk, mem_list_iff hk]

/-- The ids of the stored jobs. -/
def ids (st : σ) : List Int := (list .stored st).map Job.id

theorem length_ids (st : σ) : (ids st).length = total st := List.length_map Job.id

theorem ids_nodup {st : σ} (hk : Keyed st) : (ids st).Nodup := snapshot_ids_nodup hk .stored

theorem mem_ids {st : σ} (hk : Keyed st) {id : Int} : id ∈ ids st ↔ (get st id).isSome = true := by
  rw [ids, List.mem_map, Option.isSome_iff_exists]
  constructor
  · rintro ⟨j, hj, rfl⟩
    exact ⟨j, (mem_list_iff hk).1 hj⟩
  · rintro ⟨j, hj⟩
    obtain rfl := hk id j hj
    exact ⟨j, (mem_list_iff hk).2 hj, rfl⟩

theorem total_eq {st st' : σ} (hk : Keyed st) (hk' : Keyed st') (h : ∀ id, (get st' id).isSome = (get st id).isSome) :
    total st' = total st := by
  rw [← length_ids, ← length_ids]
  refine ((List.perm_ext_iff_of_nodup (ids_nodup hk') (ids_nodup hk)).2 fun id => ?_).length_eq
  rw [mem_ids hk', mem_ids hk, h]

theorem total_add {st st' : σ} (hk : Keyed st) {j : Job} (hnew : get st j.id = none) (hadd : add st j = .ok st') :
    total st' = total st + 1 := by
  have hk' := hk.add hadd
  have hfresh : (j.id :: ids st).Nodup := by
    refine List.nodup_cons.2 ⟨fun hmem => ?_, ids_nodup hk⟩
    have hsome := (mem_ids hk).1 hmem
    rw [hnew] at hsome
    cases hsome
  have hperm : (ids st').Perm (j.id :: ids st) := by
    refine (List.perm_ext_iff_of_nodup (ids_nodup hk') hfresh).2 fun id => ?_
    rw [List.mem_cons, mem_ids hk', mem_ids hk, LawfulStore.get_add hadd]
    split <;> simp_all
  rw [← length_ids, ← length_ids, hperm.length_eq, List.length_cons]

/-- If no job leaves a status then its count does not go down. -/
theorem countP_status_le {st st' : σ} (hk : Keyed st) (hk' : Keyed st') {status : Status}
    (h : ∀ id j, get st id = some j → j.status = status → ∃ j', get st' id = some j' ∧ j'.status = status)
    (ord ord' : RangeOrder Int) :
    (list ord st).countP (fun j => j.status = status) ≤ (list ord' st').countP (fun j => j.status = status) := by
  rw [List.countP_eq_length_filter, List.countP_eq_length_filter, ← List.length_map Job.id, ← List.length_map Job.id]
  have hnodup : (((list ord st).filter fun j => j.status = status).map Job.id).Nodup :=
    (snapshot_ids_nodup hk ord).sublist (List.filter_sublist.map Job.id)
  refine (List.subperm_of_subset hnodup fun id hid => ?_).length_le
  obtain ⟨j, hj, rfl⟩ := List.mem_map.1 hid
  obtain ⟨hmem, hstatus⟩ := List.mem_filter.1 hj
  obtain ⟨j', hj', hstatus'⟩ := h j.id j ((mem_list_iff hk).1 hmem) (of_decide_eq_true hstatus)
  have hkey := hk' j.id j' hj'
  refine List.mem_map.2 ⟨j', List.mem_filter.2 ⟨(mem_list_iff hk').2 (hkey.symm ▸ hj'), decide_eq_true hstatus'⟩, hkey⟩

end Store

namespace Server

variable {σ : Type} [TableStore σ]

/-- What the loops, the runners and a restart do leaves the number of jobs alone, and so do cancellations. -/
theorem total_step {s : Server σ} (hs : s.Sound) {a : Act} (hadds : ∀ j, ¬ s.Adds a j)
    (hdelete : ∀ id, a ≠ .deleteJob id) :
    Store.total (s.step a).1.store = Store.total s.store := by
  refine Store.total_eq (Store.keyed_of_wf hs.wf) (Store.keyed_of_wf (step_sound hs a).wf) fun id => ?_
  have hch := step_job hs.wf a id
  generalize Store.get (s.step a).1.store id = x at hch
  cases hch with
  | same => rfl
  | added hadd => exact absurd hadd (hadds _)
  | written _ _ hold | cancelled _ hold => rw [hold]; rfl
  | deleted hdel => exact absurd hdel (hdelete id)

/-- A submission without a key is never refused. -/
theorem total_submitJob {s : Server σ} (hs : s.Sound) (jobType : String) (priority : Int) :
    Store.total (s.step (.submitJob jobType priority)).1.store = Store.total s.store + 1 := by
  have hnew := hs.fresh (.submitJob : s.Adds (.submitJob jobType priority) _)
  exact Store.total_add (Store.keyed_of_wf hs.wf) hnew (Http.submitJob_ok hs jobType priority).2

/-- All stored jobs have one of the statuses that the package defines. -/
def Defined (s : Server σ) : Prop := s.Sound ∧ ∀ id j, Store.get s.store id = some j → j.status.toString ∈ statusNames

theorem stable_defined : Stable (σ := σ) Defined where
  act := by
    rintro s a - ⟨hs, hdef⟩
    refine ⟨step_sound hs a, fun id j hj => ?_⟩
    have hch := step_job hs.wf a id
    rw [hj] at hch
    generalize hx : some j = x at hch
    cases hch with
    | same => exact hdef id j hx.symm
    | added hadd =>
      cases hx
      cases hadd <;> simp [Job.newJob, Status.toString, statusNames]
    | @written c j' old _ _ hold hv =>
      cases hx
      by_cases hsame : old.status = j.status
      · exact hsame ▸ hdef id old hold
      · exact isValidTransition_defined hv hsame
    | cancelled =>
      cases hx
      simp [Status.toString, statusNames]
    | deleted => cases hx
  crons := by
    rintro s st ⟨hs, hdef⟩ hst
    exact ⟨hs.crons hst, fun id j hj => hdef id j ((hst.get id).symm.trans hj)⟩

end Server

namespace Http

open ServeMux Auth Middleware

/-- The answer tells of a new job. -/
def Response.created (x : Response) : Bool :=
  match x.body with
  | .jobCreated _ => x.code == 201
  | _ => false

section
variable {σ : Type} [TableStore σ]

/-! ## Requests -/

/-- A job is added if the answer tells of one, and else none. -/
def Accounted (n : ControlNode σ) (p : Response × ControlNode σ) : Prop :=
  Store.total p.2.store = Store.total n.store + p.1.created.toNat

theorem total_call {n : ControlNode σ} (hs : n.server.Sound) {rd : Reading} (hraft : rd.raft = none) {c : Call}
    (hc : c.endpoint ≠ .jobs) : Store.total (c.run rd n).store = Store.total n.store := by
  have hsame : ∀ {st : σ}, Store.CronsOnly n.store st → Store.total st = Store.total n.store := fun hst =>
    Store.total_eq (Store.keyed_of_wf hs.wf) (Store.keyed_of_wf (hst.wf hs.wf)) fun id => by rw [hst.get]
  cases c with
  | submitJobAt | submitJobIdempotent => exact absurd rfl hc
  | cancelJob id =>
    rw [Call.run, hraft]
    exact Server.total_step hs (a := .cancelJob id) (fun j hadd => by cases hadd) (by simp)
  | addCronJob id schedule jobType priority =>
    rw [Call.run, hraft]
    obtain ⟨st, hserver, hst⟩ := addCronJob_server n rd.now id schedule jobType priority
    unfold ControlNode.store
    rw [hserver]
    exact hsame hst
  | removeCronJob id =>
    rw [Call.run, hraft]
    exact hsame (.deleted id)
  | evict id => rfl

theorem submitJobHandler_accounted {codec : Codec} {n : ControlNode σ} (hs : n.server.Sound) {rd : Reading}
    (hraft : rd.raft = none) (r : Request) : Accounted n (submitJobHandler codec rd r n) := by
  have hk := Store.keyed_of_wf hs.wf
  have hfresh : Store.get n.store (n.server.engine.nextJobID + 1) = none :=
    hs.fresh (.submitJob : n.server.Adds (.submitJob "" 0) _)
  have hsubmits : Submits codec rd r n (submitJobHandler codec rd r n) := submitJobHandler_submits r
  generalize submitJobHandler codec rd r n = p at hsubmits
  cases hsubmits with
  | rejected => rfl
  | @failedAt jobType priority runAt err _ herr =>
    rw [hraft] at herr ⊢
    rcases submitJobAt_cases n.server.engine jobType priority runAt with ⟨_, -, hstore⟩ | ⟨j, hok, -⟩
    · exact congrArg Store.total hstore
    · cases herr.symm.trans hok
  | @scheduled jobType priority runAt created _ hres =>
    rw [hraft] at hres ⊢
    rcases submitJobAt_cases n.server.engine jobType priority runAt with ⟨_, herr, -⟩ | ⟨j, hok, -, hadd⟩
    · cases herr.symm.trans hres
    · have hid := (submitJobAt_created hok).id
      exact Store.total_add hk (hid ▸ hfresh) hadd
  | @failed key jobType priority err _ herr =>
    rw [hraft] at herr ⊢
    rcases submitJobIdempotent_cases n.server.engine key jobType priority with
      ⟨_, -, hstore⟩ | ⟨j, hok, -⟩ | ⟨j, hok, -⟩
    · exact congrArg Store.total hstore
    · rw [hok] at herr
      cases herr
    · cases herr.symm.trans hok
  | @submitted key jobType priority created wasDuplicate _ hres =>
    rw [hraft] at hres ⊢
    rcases submitJobIdempotent_cases n.server.engine key jobType priority with
      ⟨_, herr, -⟩ | ⟨j, hok, -⟩ | ⟨j, hok, -, -, hadd⟩
    · cases herr.symm.trans hres
    · -- the job was there before
      rw [hok] at hres ⊢
      cases hres
      rfl
    · have hid := (submitJobIdempotent_created hok).id
      cases hok.symm.trans hres
      exact Store.total_add hk (hid ▸ hfresh) hadd

theorem createCronJobHandler_created (codec : Codec) (rd : Reading) (r : Request) (n : ControlNode σ) :
    (createCronJobHandler codec rd r n).1.created = false := by
  unfold createCronJobHandler
  cases codec.createCronJob r.body with
  | none => rfl
  | some req =>
    dsimp only
    split
    · rfl
    split
    · rfl
    split
    · rfl
    split
    · rfl
    split <;> rfl

section
variable (env : Env) {cfg : Config} (hcfg : cfg.authEnabled = false) (ctx : Option Claims) (rd : Reading) (r : Request)
  (ids : List String) {n : ControlNode σ}
include hcfg

/-- No other endpoint tells of a new job. -/
theorem handle_created {endpoint : Endpoint} (hjobs : endpoint ≠ .jobs) :
    (handle env cfg endpoint ctx rd r ids n).1.created = false := by
  have hopen := requireRoles_open (σ := σ) env hcfg
  cases endpoint with
  | jobs => exact absurd rfl hjobs
  | ui | uiRedirect | metrics | events => rfl
  | root =>
    dsimp only [handle, reading]
    split <;> rfl
  | job =>
    simp only [handle, requireViewer, hopen, reading, getJobHandler]
    split
    · rfl
    · split <;> rfl
  | leases | failover =>
    simp only [handle, requireViewer, requireAdmin, hopen]
    rfl
  | raft =>
    simp only [handle, requireViewer, hopen, reading, raftStatus]
    split <;> rfl
  | status | nodes =>
    simp only [handle, requireViewer, hopen, reading, status, nodes]
    split <;> rfl
  | cancelJob =>
    simp only [handle, requireSubmitter, hopen, cancelJobHandler]
    split
    · rfl
    · split <;> rfl
  | deleteCron =>
    simp only [handle, requireAdmin, hopen, deleteCronJobHandler]
    split <;> rfl
  | node =>
    simp only [handle, requireAdmin, requireViewer, hopen, ite_self, nodeRoute, nodes]
    split
    · dsimp only
      split <;> rfl
    · split
      · rfl
      · split <;> rfl
  | cron =>
    simp only [handle, requireAdmin, requireViewer, hopen]
    split
    · exact createCronJobHandler_created ..
    · split <;> rfl

/-- Without authentication an endpoint tells of a new job exactly if it has made one. -/
theorem handle_accounted (hs : n.server.Sound) (hraft : rd.raft = none) (endpoint : Endpoint) :
    Accounted n (handle env cfg endpoint ctx rd r ids n) := by
  by_cases hjobs : endpoint = .jobs
  · subst hjobs
    simp only [handle, requireSubmitter, requireViewer, requireRoles_open env hcfg, reading, listJobsHandler]
    split
    · exact submitJobHandler_accounted hs hraft r
    · split
      · split <;> rfl
      · rfl
  · unfold Accounted
    rw [handle_created env hcfg ctx rd r ids hjobs, handle_call env hcfg]
    cases hcall : callOf env.codec rd.now r ids endpoint with
    | none => rfl
    | some c => exact total_call hs hraft fun hc => hjobs ((callOf_endpoint hcall).1.trans hc)

end

variable (env : Env) (cfg : Config)

/-- A request on a standalone node, with or without authentication. -/
theorem serve_accounted {n : ControlNode σ} (hs : n.server.Sound) {rd : Reading} (hraft : rd.raft = none)
    (r : Request) :
    Accounted n (serve env cfg rd r n) := by
  rcases serve_or_refused env cfg rd r n with hserve | ⟨hcode, hserve⟩
  · rw [hserve, serve_eq]
    cases endpointOf r with
    | none =>
      unfold unrouted
      dsimp only
      split <;> rfl
    | some p => exact handle_accounted env rfl none rd r p.2 hs hraft p.1
  · unfold Accounted
    rw [hserve]
    have hnone : (serve env cfg rd r n).1.created = false := by
      unfold Response.created
      split
      · rcases hcode with hcode | hcode <;> rw [hcode] <;> rfl
      · rfl
    rw [hnone]
    rfl

/-! ## Runs -/

/-- How many cron jobs an input finds due. -/
def due (n : ControlNode σ) : Input → Nat
  | .tick _ now ord => (n.cronScheduler.tick ord now).2.length
  | .request _ _ | .act _ _ | .worker _ _ => 0

/-- How many cron jobs a run finds due. -/
def dueIn (n : ControlNode σ) : List Input → Nat
  | [] => 0
  | i :: is => due n i + dueIn (step env cfg n i).1 is

/-- The answers of a run that tell of a new job. -/
def createdIn (n : ControlNode σ) (inputs : List Input) : Nat :=
  ((api env cfg).trace n inputs).countP fun x => x.response.created

theorem createdIn_cons (n : ControlNode σ) (i : Input) (is : List Input) : createdIn env cfg n (i :: is) =
    ((step env cfg n i).2.countP fun x => x.response.created) + createdIn env cfg (step env cfg n i).1 is :=
  List.countP_append

/-- The jobs of a tick, submitted one by one. -/
theorem total_submitJobs {s : Server σ} (hs : s.Sound) (jobs : List CronJob) :
    Store.total (s.withEngine (jobs.foldl (fun en c => (en.submitJob none c.type c.priority).2) s.engine)).store =
      Store.total s.store + jobs.length := by
  induction jobs generalizing s with
  | nil => rfl
  | cons c jobs ih =>
    have hrest := ih (Server.step_sound hs (.submitJob c.type c.priority))
    rw [Server.total_submitJob hs] at hrest
    rw [List.length_cons, Nat.add_comm jobs.length, ← Nat.add_assoc]
    exact hrest

theorem step_accounted {n : ControlNode σ} (hs : n.server.Sound) {i : Input} (hi : i.standalone = true) :
    Store.total (step env cfg n i).1.store =
      Store.total n.store + ((step env cfg n i).2.countP fun x => x.response.created) + due n i := by
  cases i with
  | request rd r =>
    have h := serve_accounted env cfg hs (Option.isNone_iff_eq_none.1 hi) r
    rw [Accounted] at h
    rw [step, h, List.countP_cons, List.countP_nil, due]
    cases (serve env cfg rd r n).1.created <;> rfl
  | act a ha =>
    unfold ControlNode.store
    rw [step_act_server]
    refine Server.total_step hs (fun j hadd => ?_) ?_
    · cases hadd <;> cases ha
    · rintro id rfl
      cases ha
  | tick raft now ord =>
    obtain rfl : raft = none := Option.isNone_iff_eq_none.1 hi
    exact total_submitJobs hs (n.cronScheduler.tick ord now).2
  | worker timeout a => rfl

theorem exec_accounted {n : ControlNode σ} (hidle : n.server.submitting = none) (hn : n.server.Faithful)
    {inputs : List Input} (hinputs : ∀ i ∈ inputs, i.standalone = true) :
    Store.total ((api env cfg).exec n inputs).store =
      Store.total n.store + createdIn env cfg n inputs + dueIn env cfg n inputs := by
  induction inputs generalizing n with
  | nil => rfl
  | cons i inputs ih =>
    obtain ⟨hi, hrest⟩ := List.forall_mem_cons.1 hinputs
    obtain ⟨hidle', hn'⟩ := step_stable env cfg Server.stable_faithful hidle hn hi
    have hstep := step_accounted env cfg hn.sound hi
    have htail := ih hidle' hn' hrest
    rw [createdIn_cons, dueIn]
    change Store.total ((api env cfg).exec (step env cfg n i).1 inputs).store = _
    omega

/-! ## The counts -/

omit [TableStore σ] in
/-- The four counts leave no job out if all statuses are defined ones. -/
theorem counts_eq_length {jobs : List Job} (h : ∀ j ∈ jobs, j.status.toString ∈ statusNames) :
    (jobs.countP fun j => j.status = .pending ∨ j.status = .scheduled) + (jobs.countP fun j => j.status = .completed) +
      (jobs.countP fun j => j.status = .failed) + (jobs.countP fun j => j.status = .cancelled) = jobs.length := by
  induction jobs with
  | nil => rfl
  | cons j jobs ih =>
    obtain ⟨hj, hjobs⟩ := List.forall_mem_cons.1 h
    simp only [List.countP_cons, List.length_cons, ← ih hjobs]
    cases hstatus : j.status with
    | other name hundefined =>
      rw [hstatus] at hj
      exact absurd hj hundefined
    | pending | scheduled | completed | failed | cancelled =>
      simp
      omega

/-- Between two requests `GET /cluster/status` the number of jobs grows by the submissions that were answered with 201
and the cron jobs that came due. The counts of the jobs that are completed, failed or cancelled never go down, and
with what is pending they are all jobs if the store had no foreign status in it. -/
theorem jobs_accounted {n : ControlNode σ} (hn : Reached env cfg n) (rd rd' : Reading) {inputs : List Input}
    (halone : ∀ i ∈ inputs, i.standalone = true) :
    let s := clusterStatus rd n
    let s' := clusterStatus rd' ((api env cfg).exec n inputs)
    s'.totalJobs = s.totalJobs + createdIn env cfg n inputs + dueIn env cfg n inputs ∧
      s.completedJobs ≤ s'.completedJobs ∧ s.failedJobs ≤ s'.failedJobs ∧ s.cancelledJobs ≤ s'.cancelledJobs ∧
      ((∀ id j, Store.get n.store id = some j → j.status.toString ∈ statusNames) →
        s'.pendingJobs + s'.completedJobs + s'.failedJobs + s'.cancelledJobs = s'.totalJobs) := by
  obtain ⟨hidle, hfaithful⟩ := hn.faithful
  have hk : Store.Keyed n.store := Store.keyed_of_wf hfaithful.sound.wf
  have hsound := (exec_stable env cfg Server.stable_faithful hidle hfaithful halone).2.sound
  have hk' : Store.Keyed ((api env cfg).exec n inputs).store := Store.keyed_of_wf hsound.wf
  have hended : ∀ {status : Status}, status.isTerminal = true →
      (Store.list rd.jobs n.store).countP (fun j => j.status = status) ≤
        (Store.list rd'.jobs ((api env cfg).exec n inputs).store).countP (fun j => j.status = status) := by
    intro status hterminal
    refine Store.countP_status_le hk hk' (fun id j hj hstatus => ?_) rd.jobs rd'.jobs
    exact (exec_stable env cfg (Server.stable_ended hterminal id) hidle ⟨hfaithful.sound, j, hj, hstatus⟩ halone).2.2
  refine ⟨?_, hended rfl, hended rfl, hended rfl, fun hdefined => ?_⟩
  · have hrun := exec_accounted env cfg hidle hfaithful halone
    rw [← Store.length_list hk' rd'.jobs, ← Store.length_list hk rd.jobs] at hrun
    exact hrun
  · have hdefined' := (exec_stable env cfg Server.stable_defined hidle ⟨hfaithful.sound, hdefined⟩ halone).2.2
    exact counts_eq_length fun j hj => hdefined' j.id j ((Store.mem_list_iff hk').1 hj)

end

/-- One submission, a cron job that comes due twice, a cancellation and a new start of the process. -/
def busyDay : List Input :=
  [.request standalone ⟨"POST", ["jobs"], "", mailText⟩, .request standalone ⟨"POST", ["cron"], "", mailCronText⟩,
    .tick none 60000000000 .stored, .request standalone (aboutOne "DELETE"), .tick none 120000000000 .stored, rebooted,
    .act .takeReady rfl]

theorem busyDay_accounted :
    let s := clusterStatus standalone ((api operatorEnv openConfig).exec freshNode busyDay)
    createdIn operatorEnv openConfig freshNode busyDay = 1 ∧ dueIn operatorEnv openConfig freshNode busyDay = 2 ∧
      s.totalJobs = 3 ∧ s.pendingJobs + s.completedJobs + s.failedJobs + s.cancelledJobs = 3 := by
  have hn : Reached operatorEnv openConfig freshNode := reached_freshNode [] (List.forall_mem_nil _)
  have hcreated : createdIn operatorEnv openConfig freshNode busyDay = 1 := by decide +kernel
  have hdue : dueIn operatorEnv openConfig freshNode busyDay = 2 := by decide +kernel
  have halone : ∀ i ∈ busyDay, i.standalone = true := by simp [busyDay, Input.standalone, standalone, rebooted]
  obtain ⟨htotal, -, -, -, hparts⟩ := jobs_accounted operatorEnv openConfig hn standalone standalone halone
  rw [hcreated, hdue] at htotal
  have hstart : (clusterStatus standalone freshNode).totalJobs = 0 := by decide +kernel
  rw [hstart] at htotal
  refine ⟨hcreated, hdue, htotal, (hparts fun id j hj => ?_).trans htotal⟩
  cases (LawfulStore.get_empty id).symm.trans hj

end Http

end Quorum
