/-
What the answers of the HTTP API about jobs promise on a standalone node. A run has requests of anybody, one after the
other, and between them the loops, the cron scheduler, the workers and restarts of the process on the same store. A
job that a request was told of is never lost, its id is given to no other job, and a job that was cancelled stays so.
-/
import Quorum.Engine.Terminal
import Quorum.Handlers.Access

namespace Quorum

/-! ## What the server keeps -/

/-- The stores differ by one write to the cron jobs at most. -/
inductive Store.CronsOnly {σ : Type} [Store σ] (st : σ) : σ → Prop
  | same : CronsOnly st st
  | added {c : CronJob} {st' : σ} : Store.addCron st c = .ok st' → CronsOnly st st'
  | deleted (id : String) : CronsOnly st (Store.deleteCron st id).2

namespace Store.CronsOnly

variable {σ : Type} [LawfulStore σ] {st st' : σ}

theorem get (h : CronsOnly st st') (id : Int) : Store.get st' id = Store.get st id := by
  cases h with
  | same => rfl
  | added hadd => exact LawfulStore.get_addCron hadd id
  | deleted cron => exact LawfulStore.get_deleteCron st cron id

theorem wf (h : CronsOnly st st') (hst : LawfulStore.WF st) : LawfulStore.WF st' := by
  cases h with
  | same => exact hst
  | added hadd => exact LawfulStore.wf_addCron hst hadd
  | deleted cron => exact LawfulStore.wf_deleteCron cron hst

end Store.CronsOnly

namespace Server

variable {σ : Type} [LawfulStore σ]

/-- A property that the acts of the server keep, deletions aside, and that does not look at cron jobs. -/
structure Stable (Q : Server σ → Prop) : Prop where
  act : ∀ {s : Server σ} {a : Act}, (∀ id, a ≠ .deleteJob id) → Q s → Q (s.step a).1
  crons : ∀ {s : Server σ} {st : σ}, Q s → Store.CronsOnly s.store st → Q (s.withEngine (s.engine.withStore st))

theorem Stable.exec {Q : Server σ → Prop} (hQ : Stable Q) {s : Server σ} (hs : Q s) {acts : List Act}
    (hacts : ∀ a ∈ acts, ∀ id, a ≠ .deleteJob id) : Q (server.exec s acts) := by
  have hevery : server.EveryStep (fun _ _ a => ∀ id, a ≠ .deleteJob id) s acts := by
    rintro pre a post rfl
    exact hacts a (List.mem_append_right _ List.mem_cons_self)
  exact hevery.inv (P := fun _ s => Q s) hs fun _ _ _ hs ha => hQ.act ha hs

theorem Sound.crons {s : Server σ} (h : s.Sound) {st : σ} (hst : Store.CronsOnly s.store st) :
    (s.withEngine (s.engine.withStore st)).Sound :=
  ⟨hst.wf h.wf, fun id j hj => h.stored id j ((hst.get id).symm.trans hj), h.held⟩

/-- The job under `id` is stored with this status. -/
def Ended (status : Status) (id : Int) (s : Server σ) : Prop :=
  s.Sound ∧ ∃ j, Store.get s.store id = some j ∧ j.status = status

theorem stable_ended {status : Status} (hterminal : status.isTerminal = true) (id : Int) :
    Stable (fun s : Server σ => s.Ended status id) where
  act := by
    rintro s a ha ⟨hs, j, hj, hstatus⟩
    obtain ⟨j', hj', hsame⟩ := (step_job hs.wf a id).terminal hs hj (by rw [hstatus, hterminal]) (ha id)
    exact ⟨step_sound hs a, j', hj', hsame.trans hstatus⟩
  crons := by
    rintro s st ⟨hs, j, hj, hstatus⟩ hst
    exact ⟨hs.crons hst, j, (hst.get id).trans hj, hstatus⟩

omit [LawfulStore σ] in
theorem WritesBack.asked {s : Server σ} {a : Act} {c j : Job} (h : s.WritesBack a c j) :
    j.type = c.type ∧ j.priority = c.priority := by
  cases h with
  | completed _ | retried _ | failed _ | promoted _ => exact ⟨rfl, rfl⟩
  | @finished n err c _ =>
    cases err with
    | none => exact ⟨rfl, rfl⟩
    | some e => simp only [Runner.finish]; split <;> exact ⟨rfl, rfl⟩

/-- The copies that the loops and the runners hold have the type and the priority of the stored job. -/
structure Faithful (s : Server σ) : Prop where
  sound : s.Sound
  copies : ∀ c ∈ s.held, ∀ x, Store.get s.store c.id = some x → x.type = c.type ∧ x.priority = c.priority

/-- A job that stays stored keeps its type and its priority. -/
theorem Faithful.asked_step {s : Server σ} (h : s.Faithful) (a : Act) {id : Int} {x y : Job}
    (hx : Store.get s.store id = some x) (hy : Store.get (s.step a).1.store id = some y) :
    y.type = x.type ∧ y.priority = x.priority := by
  have hch := step_job h.sound.wf a id
  rw [hy] at hch
  generalize hz : some y = z at hch
  cases hch with
  | same =>
    cases hz.trans hx
    exact ⟨rfl, rfl⟩
  | added hadd hid =>
    rw [← hid, h.sound.fresh hadd] at hx
    cases hx
  | written hw hid hold _ =>
    cases hz
    cases hx.symm.trans hold
    have hcopy := h.copies _ hw.held x (by rw [← hw.id_eq, hid]; exact hx)
    exact ⟨hw.asked.1.trans hcopy.1.symm, hw.asked.2.trans hcopy.2.symm⟩
  | cancelled _ hold _ =>
    cases hz
    cases hx.symm.trans hold
    exact ⟨rfl, rfl⟩
  | deleted _ => cases hz

theorem Faithful.step {s : Server σ} (h : s.Faithful) (a : Act) : (s.step a).1.Faithful := by
  refine ⟨step_sound h.sound a, ?_⟩
  refine copies_step h.sound a (R := fun c x => x.type = c.type ∧ x.priority = c.priority)
    (fun _ => ⟨rfl, rfl⟩) h.copies ?_
  intro c id x y hx hy hcx
  have hxy := h.asked_step a hx hy
  exact ⟨hxy.1.trans hcx.1, hxy.2.trans hcx.2⟩

/-- The job under `id` has this type and this priority. -/
def Holds (id : Int) (jobType : String) (priority : Int) (s : Server σ) : Prop :=
  s.Faithful ∧ ∃ j, Store.get s.store id = some j ∧ j.type = jobType ∧ j.priority = priority

theorem stable_faithful : Stable (σ := σ) Faithful where
  act := fun _ h => h.step _
  crons := by
    intro s st h hst
    exact ⟨h.sound.crons hst, fun c hc x hx => h.copies c hc x ((hst.get _).symm.trans hx)⟩

theorem stable_holds (id : Int) (jobType : String) (priority : Int) : Stable (σ := σ) (Holds id jobType priority) where
  act := by
    rintro s a ha ⟨hs, j, hj, htype, hpriority⟩
    -- the job is still there, and what is there is the same job
    have hstored : ∃ y, Store.get (s.step a).1.store id = some y := by
      have hch := step_job hs.sound.wf a id
      generalize Store.get (s.step a).1.store id = z at hch
      cases hch with
      | same => exact ⟨j, hj⟩
      | added | written | cancelled => exact ⟨_, rfl⟩
      | deleted hdel => exact absurd hdel (ha id)
    obtain ⟨y, hy⟩ := hstored
    have hxy := hs.asked_step a hj hy
    exact ⟨hs.step a, y, hy, hxy.1.trans htype, hxy.2.trans hpriority⟩
  crons := by
    rintro s st ⟨hs, j, hj, hasked⟩ hst
    exact ⟨stable_faithful.crons hs hst, j, (hst.get id).trans hj, hasked⟩

end Server

namespace Http

open ServeMux Auth Middleware

/-- The input does not use Raft. -/
def Input.standalone : Input → Bool
  | .request rd _ => rd.raft.isNone
  | .tick raft _ _ => raft.isNone
  | _ => true

section
variable {σ : Type} [LawfulStore σ]

/-! ## What a node keeps -/

/-- Without Raft a new cron job is written to the store, and nothing else happens to the server. -/
theorem addCronJob_server (n : ControlNode σ) (now : Time) (id schedule jobType : String) (priority : Int) :
    ∃ st, (n.withCronEngine (n.cronEngine.addCronJob none now id schedule jobType priority).2).server =
        n.server.withEngine (n.server.engine.withStore st) ∧ Store.CronsOnly n.store st := by
  unfold CronEngine.addCronJob
  dsimp only
  cases hadd : Store.addCron n.cronEngine.store (CronEngine.newCronJob id schedule jobType priority) with
  | error err => exact ⟨n.store, rfl, .same⟩
  | ok st =>
    refine ⟨st, ?_, .added hadd⟩
    dsimp only
    split <;> rfl

theorem tick_stable {Q : Server σ → Prop} (hQ : Server.Stable Q) {n : ControlNode σ} (h : Q n.server) (now : Time)
    (ord : RangeOrder String) : Q (n.withCronEngine (n.cronEngine.tick none ord now).1).server := by
  have hfold : ∀ (due : List CronJob) (s : Server σ), Q s →
      Q (s.withEngine (due.foldl (fun en c => (en.submitJob none c.type c.priority).2) s.engine)) := by
    intro due
    induction due with
    | nil => exact fun s hs => hs
    | cons c due ih =>
      intro s hs
      exact ih (s.step (.submitJob c.type c.priority)).1 (hQ.act (by simp) hs)
  exact hfold (n.cronScheduler.tick ord now).2 n.server h

theorem call_stable {Q : Server σ → Prop} (hQ : Server.Stable Q) {n : ControlNode σ}
    (hidle : n.server.submitting = none) (h : Q n.server) {rd : Reading} (hraft : rd.raft = none) (c : Call) :
    Q (c.run rd n).server := by
  cases c with
  | submitJobAt jobType priority runAt =>
    rw [Call.run, hraft]
    exact hQ.act (a := .submitJobAt jobType priority runAt) (by simp) h
  | submitJobIdempotent key jobType priority =>
    rw [Call.run, hraft]
    obtain ⟨acts, heq, hacts⟩ := Server.submitJobIdempotent_exec hidle key jobType priority
    show Q (n.server.withEngine _)
    rw [heq]
    exact hQ.exec h hacts
  | cancelJob id =>
    rw [Call.run, hraft]
    exact hQ.act (a := .cancelJob id) (by simp) h
  | addCronJob id schedule jobType priority =>
    rw [Call.run, hraft]
    obtain ⟨st, hserver, hst⟩ := addCronJob_server n rd.now id schedule jobType priority
    rw [hserver]
    exact hQ.crons h hst
  | removeCronJob id =>
    rw [Call.run, hraft]
    exact hQ.crons h (.deleted id)
  | evict id =>
    exact hQ.act (a := .workers n.server.engine.scheduler.available
      (n.server.engine.scheduler.broker.map fun b => b.unregisterWorker id)) (by simp) h

theorem submitting_call {n : ControlNode σ} (rd : Reading) (c : Call) :
    (c.run rd n).server.submitting = n.server.submitting := by
  cases c <;> rfl

variable (env : Env) (cfg : Config)

/-- A request is refused, or it is answered as it would be without authentication. -/
theorem serve_or_refused (rd : Reading) (r : Request) (n : ControlNode σ) :
    serve env cfg rd r n = serve env cfg.unguarded rd r n ∨
      ((serve env cfg rd r n).1.code = 401 ∨ (serve env cfg rd r n).1.code = 403) ∧ (serve env cfg rd r n).2 = n := by
  cases hauth : cfg.authEnabled with
  | false =>
    have hcfg : cfg = cfg.unguarded := by rw [Config.unguarded, ← hauth]
    exact .inl (congrArg (serve env · rd r n) hcfg)
  | true =>
    have hcfg : cfg = cfg.guarded := by rw [Config.guarded, ← hauth]
    have hserve := serve_guarded env cfg rd r n
    rw [← hcfg] at hserve
    rw [hserve]
    split
    · exact .inl rfl
    · exact .inr ⟨refusal_code _ _, rfl⟩

theorem step_act_server (n : ControlNode σ) {a : Server.Act} (ha : isInternal a = true) :
    (step env cfg n (.act a ha)).1.server = (n.server.step a).1 := by
  dsimp only [step]
  split <;> rfl

theorem step_stable {Q : Server σ → Prop} (hQ : Server.Stable Q) {n : ControlNode σ}
    (hidle : n.server.submitting = none) (h : Q n.server) {i : Input} (hi : i.standalone = true) :
    (step env cfg n i).1.server.submitting = none ∧ Q (step env cfg n i).1.server := by
  cases i with
  | request rd r =>
    have hraft : rd.raft = none := Option.isNone_iff_eq_none.1 hi
    show (serve env cfg rd r n).2.server.submitting = none ∧ Q (serve env cfg rd r n).2.server
    rcases serve_or_refused env cfg rd r n with hserve | ⟨-, hserve⟩
    · rw [hserve, serve_unguarded_call]
      cases requested env rd r with
      | none => exact ⟨hidle, h⟩
      | some c => exact ⟨(submitting_call rd c).trans hidle, call_stable hQ hidle h hraft c⟩
    · rw [hserve]
      exact ⟨hidle, h⟩
  | act a ha =>
    rw [step_act_server]
    refine ⟨Server.submitting_step_none hidle ?_, hQ.act ?_ h⟩
    · cases a <;> first | rfl | cases ha
    · rintro id rfl
      cases ha
  | tick raft now ord =>
    have hraft : raft = none := Option.isNone_iff_eq_none.1 hi
    subst hraft
    exact ⟨hidle, tick_stable hQ h now ord⟩
  | worker timeout a =>
    exact ⟨hidle, hQ.act (a := .workers n.server.engine.scheduler.available
      (n.server.engine.scheduler.broker.map fun b => brokerAfter b a)) (by simp) h⟩

/-- What a stable property says of the server holds at the end of every run. -/
theorem exec_stable {Q : Server σ → Prop} (hQ : Server.Stable Q) {n : ControlNode σ}
    (hidle : n.server.submitting = none) (h : Q n.server) {inputs : List Input}
    (hinputs : ∀ i ∈ inputs, i.standalone = true) :
    ((api env cfg).exec n inputs).server.submitting = none ∧ Q ((api env cfg).exec n inputs).server := by
  have hevery : (api env cfg).EveryStep (fun _ _ i => i.standalone = true) n inputs := by
    rintro pre i post rfl
    exact hinputs i (List.mem_append_right _ List.mem_cons_self)
  exact hevery.inv (P := fun _ n => n.server.submitting = none ∧ Q n.server) ⟨hidle, h⟩
    fun _ n i hn hi => step_stable env cfg hQ hn.1 hn.2 hi

/-! ## Requests about one job -/

/-- A request `GET /jobs/{id}` or `DELETE /jobs/{id}`. -/
def Request.isFor (method : String) (id : Int) (r : Request) : Prop :=
  r.method = method ∧ ∃ s, r.path = ["jobs", s] ∧ Cron.atoi s.toList = some id

omit [LawfulStore σ] in
theorem clean_job {s : String} {id : Int} (h : Cron.atoi s.toList = some id) :
    clean ["jobs", s] = ["jobs", s] ∧ s ≠ "leases" ∧ s ≠ "" := by
  have hno : ∀ t : String, Cron.atoi t.toList = none → s ≠ t := by
    rintro t ht rfl
    cases ht.symm.trans h
  have hempty := hno "" (by decide +kernel)
  have hdot := hno "." (by decide +kernel)
  have hdots := hno ".." (by decide +kernel)
  refine ⟨?_, hno "leases" (by decide +kernel), hempty⟩
  simp [clean, hempty, hdot, hdots]

theorem endpointOf_get {r : Request} {id : Int} (h : r.isFor "GET" id) :
    ∃ s, endpointOf r = some (.job, [s]) ∧ Cron.atoi s.toList = some id := by
  obtain ⟨hmethod, s, hpath, hatoi⟩ := h
  obtain ⟨hclean, hleases, hempty⟩ := clean_job hatoi
  refine ⟨s, ?_, hatoi⟩
  rw [endpointOf, hpath, hclean, if_neg (not_not.2 rfl), hmethod]
  simp [find, matchPath, root, routes, child, Branch.below, leaf, hleases.symm, hempty]

theorem endpointOf_delete {r : Request} {id : Int} (h : r.isFor "DELETE" id) :
    ∃ s, endpointOf r = some (.cancelJob, [s]) ∧ Cron.atoi s.toList = some id := by
  obtain ⟨hmethod, s, hpath, hatoi⟩ := h
  obtain ⟨hclean, hleases, hempty⟩ := clean_job hatoi
  refine ⟨s, ?_, hatoi⟩
  rw [endpointOf, hpath, hclean, if_neg (not_not.2 rfl), hmethod]
  simp [find, matchPath, root, routes, child, Branch.below, leaf, hempty]

/-- Without authentication the handler is all there is between a request and its answer. -/
theorem serve_unguarded {r : Request} {endpoint : Endpoint} {ids : List String}
    (h : endpointOf r = some (endpoint, ids)) (rd : Reading) (n : ControlNode σ) :
    serve env cfg.unguarded rd r n = handle env cfg.unguarded endpoint none rd r ids n := by
  rw [serve_eq, h]

theorem serve_get {r : Request} {id : Int} (h : r.isFor "GET" id) (rd : Reading) {n : ControlNode σ} {j : Job}
    (hj : Store.get n.store id = some j) : (serve env cfg.unguarded rd r n).1 = ⟨200, .job j⟩ := by
  obtain ⟨s, hend, hatoi⟩ := endpointOf_get h
  rw [serve_unguarded env cfg hend]
  show getJobHandler s n = _
  rw [getJobHandler, hatoi]
  dsimp only
  rw [hj]

theorem serve_delete {r : Request} {id : Int} (h : r.isFor "DELETE" id) {rd : Reading} (hraft : rd.raft = none)
    (n : ControlNode σ) :
    (∃ st, Store.cancel n.store id = .ok st ∧ serve env cfg.unguarded rd r n =
        (⟨200, .status "cancelled" none⟩, n.withEngine (n.server.engine.withStore st))) ∨
      ∃ err, Store.cancel n.store id = .error err ∧ (serve env cfg.unguarded rd r n).1 = textError err 409 := by
  obtain ⟨s, hend, hatoi⟩ := endpointOf_delete h
  rw [serve_unguarded env cfg hend]
  change (∃ st, _ ∧ cancelJobHandler rd s n = _) ∨ ∃ err, _ ∧ (cancelJobHandler rd s n).1 = _
  rw [cancelJobHandler, hatoi, hraft]
  dsimp only [Engine.cancelJob]
  cases hcancel : Store.cancel n.server.engine.scheduler.store id with
  | ok st => exact .inl ⟨st, hcancel, rfl⟩
  | error err => exact .inr ⟨err, hcancel, rfl⟩

/-- The node has come out of a run without Raft since a start of the process on a store. -/
def Reached (n : ControlNode σ) : Prop :=
  ∃ (st : σ) (available : Chan WorkerClient) (broker : Option Broker) (ord ord₁ ord₂ ord₃ ord₄ : RangeOrder Int)
    (inputs : List Input), LawfulStore.WF st ∧ (∀ i ∈ inputs, i.standalone = true) ∧
      n = (api env cfg).exec ⟨Server.start st available broker ord ord₁ ord₂ ord₃ ord₄, .new, .new⟩ inputs

/-- A request that is not let through. -/
def Response.Refused (x : Response) : Prop := x.code = 401 ∨ x.code = 403

variable {env cfg}

theorem Reached.faithful {n : ControlNode σ} (h : Reached env cfg n) :
    n.server.submitting = none ∧ n.server.Faithful := by
  obtain ⟨st, available, broker, ord, ord₁, ord₂, ord₃, ord₄, inputs, hst, hinputs, rfl⟩ := h
  exact exec_stable env cfg Server.stable_faithful rfl
    ⟨Server.start_sound hst available broker ord ord₁ ord₂ ord₃ ord₄, fun c hc => by cases hc⟩ hinputs

/-- A stable property that a request brings about holds after every run from there. -/
theorem Reached.after {n : ControlNode σ} (h : Reached env cfg n) {Q : Server σ → Prop} (hQ : Server.Stable Q)
    {rd : Reading} (hraft : rd.raft = none) {r : Request} (hserved : Q (serve env cfg rd r n).2.server)
    {later : List Input} (halone : ∀ i ∈ later, i.standalone = true) :
    Q ((api env cfg).exec (serve env cfg rd r n).2 later).server := by
  have hi : (Input.request rd r).standalone = true := by rw [Input.standalone, hraft]; rfl
  have hidle := (step_stable env cfg Server.stable_faithful h.faithful.1 h.faithful.2 hi).1
  exact (exec_stable env cfg hQ hidle hserved halone).2

theorem serve_cancelled {n : ControlNode σ} (hn : n.server.Sound) {rd : Reading} (hraft : rd.raft = none)
    {r : Request} {id : Int} (hdelete : r.isFor "DELETE" id) (hok : (serve env cfg rd r n).1.code = 200) :
    (serve env cfg rd r n).2.server.Ended .cancelled id := by
  rcases serve_or_refused env cfg rd r n with hserve | ⟨hcode, -⟩
  · rw [hserve] at hok ⊢
    rcases serve_delete env cfg hdelete hraft n with ⟨st, hcancel, heq⟩ | ⟨err, -, heq⟩
    · rw [heq]
      obtain ⟨j, hj, -, hget⟩ := LawfulStore.cancel_ok hcancel
      have hsound := Server.step_sound hn (.cancelJob id)
      have hstore : (n.server.step (.cancelJob id)).1 = n.server.withEngine (n.server.engine.withStore st) := by
        show n.server.withEngine (n.server.engine.cancelJob none id).2 = _
        unfold Engine.cancelJob
        rw [show Store.cancel n.server.engine.scheduler.store id = .ok st from hcancel]
        rfl
      rw [hstore] at hsound
      refine ⟨hsound, { j with status := .cancelled }, ?_, rfl⟩
      exact (hget (LawfulStore.get_id hn.wf hj) id).trans (if_pos rfl)
    · rw [heq] at hok
      cases hok
  · rcases hcode with hcode | hcode <;> rw [hok] at hcode <;> cases hcode

variable (env cfg)

/-- Once `DELETE /jobs/{id}` was answered with 200, `GET /jobs/{id}` shows a cancelled job whatever happens in
between, and another `DELETE` is a conflict. -/
theorem cancelled_kept {n : ControlNode σ} (hn : Reached env cfg n) {rd rd' : Reading} (hraft : rd.raft = none)
    (hraft' : rd'.raft = none) {r r' : Request} {id : Int} (hdelete : r.isFor "DELETE" id)
    (hok : (serve env cfg rd r n).1.code = 200) {later : List Input} (halone : ∀ i ∈ later, i.standalone = true) :
    let answer := (serve env cfg rd' r' ((api env cfg).exec (serve env cfg rd r n).2 later)).1
    (r'.isFor "GET" id → answer.Refused ∨ ∃ j, answer = ⟨200, .job j⟩ ∧ j.id = id ∧ j.status = .cancelled) ∧
      (r'.isFor "DELETE" id → answer.Refused ∨ answer.code = 409) := by
  obtain ⟨hsound, j, hj, hstatus⟩ :=
    hn.after (Server.stable_ended rfl id) hraft (serve_cancelled hn.faithful.2.sound hraft hdelete hok) halone
  generalize (api env cfg).exec (serve env cfg rd r n).2 later = n' at hsound hj
  dsimp only
  rcases serve_or_refused env cfg rd' r' n' with hserve | ⟨hcode, -⟩
  · rw [hserve]
    refine ⟨fun hget => .inr ⟨j, serve_get env cfg hget rd' hj, LawfulStore.get_id hsound.wf hj, hstatus⟩,
      fun hagain => .inr ?_⟩
    rcases serve_delete env cfg hagain hraft' n' with ⟨st, hcancel, -⟩ | ⟨err, -, heq⟩
    · obtain ⟨j', hj', hactive, -⟩ := LawfulStore.cancel_ok hcancel
      cases hj.symm.trans hj'
      rw [hstatus] at hactive
      cases hactive
    · rw [heq]
      rfl
  · exact ⟨fun _ => .inl hcode, fun _ => .inl hcode⟩

end

def openConfig : Config := ⟨[], false, "node-1"⟩

/-- A node on which job 1 was submitted. -/
def busyNode : ControlNode BoltStore :=
  (api operatorEnv openConfig).exec freshNode [.request standalone operatorRequest]

theorem reached_freshNode (inputs : List Input) (h : ∀ i ∈ inputs, i.standalone = true) :
    Reached operatorEnv openConfig ((api operatorEnv openConfig).exec freshNode inputs) :=
  ⟨Store.empty, ⟨1, [], by decide⟩, none, .stored, .stored, .stored, .stored, .stored, inputs,
    LawfulStore.wf_empty, h, rfl⟩

/-- A request about job 1. -/
def aboutOne (method : String) : Request := ⟨method, ["jobs", "1"], "", []⟩

theorem aboutOne_isFor (method : String) : (aboutOne method).isFor method 1 := ⟨rfl, "1", rfl, by decide +kernel⟩

/-- The process is started again. -/
def rebooted : Input := .act (.restart ⟨1, [⟨7⟩], Nat.le_refl 1⟩ none .stored .stored .stored .stored .stored) rfl

/-- Job 1 is cancelled, and the process starts again and goes on dispatching. -/
theorem cancelled_kept_restart :
    (serve operatorEnv openConfig standalone (aboutOne "DELETE") busyNode).1.code = 200 ∧
      let answer := (serve operatorEnv openConfig standalone (aboutOne "GET") ((api operatorEnv openConfig).exec
        (serve operatorEnv openConfig standalone (aboutOne "DELETE") busyNode).2 [rebooted, .act .takeReady rfl])).1
      answer.Refused ∨ ∃ j, answer = ⟨200, .job j⟩ ∧ j.id = 1 ∧ j.status = .cancelled := by
  have hn : Reached operatorEnv openConfig busyNode :=
    reached_freshNode [.request standalone operatorRequest] (by simp [Input.standalone, standalone])
  have hok : (serve operatorEnv openConfig standalone (aboutOne "DELETE") busyNode).1.code = 200 := by decide +kernel
  exact ⟨hok, (cancelled_kept operatorEnv openConfig hn rfl rfl (aboutOne_isFor "DELETE") hok
    (by simp [rebooted, Input.standalone])).1
    (aboutOne_isFor "GET")⟩

section
variable {σ : Type} [LawfulStore σ] (env : Env) (cfg : Config)

/-! ## Jobs that were created -/

/-- Without Raft `POST /jobs` is the handler of the standalone server. -/
theorem submitJobHandler_standalone {codec : Codec} {rd : Reading} (hraft : rd.raft = none) (r : Request)
    (n : ControlNode σ) :
    submitJobHandler codec rd r n =
      (.ofJobs (Quorum.submitJobHandler codec.rfc3339 rd.now ⟨r.method, codec.submitJob r.body⟩ n.server.engine).1,
        n.withEngine
          (Quorum.submitJobHandler codec.rfc3339 rd.now ⟨r.method, codec.submitJob r.body⟩ n.server.engine).2) := by
  unfold submitJobHandler Quorum.submitJobHandler
  rw [hraft]
  split
  · rfl
  dsimp only
  cases codec.submitJob r.body with
  | none => rfl
  | some req =>
    dsimp only
    split
    · rfl
    split
    · rfl
    split
    · cases codec.rfc3339.parse req.runAt with
      | none => rfl
      | some runAt =>
        dsimp only
        split
        · rfl
        · rcases n.server.engine.submitJobAt none req.type req.priority runAt with ⟨_ | created, e⟩ <;> rfl
    · rcases n.server.engine.submitJobIdempotent none req.idempotencyKey req.type req.priority with
        ⟨_ | ⟨created, dup⟩, e⟩ <;> rfl

/-- A job that a call has made is new and in the store, with the type and the priority of the call. -/
structure Created (e e' : Engine σ) (jobType : String) (priority : Int) (status : Status) (j : Job) : Prop where
  id : j.id = e.nextJobID + 1
  stored : Store.get e'.scheduler.store j.id = some j
  asked : j.type = jobType ∧ j.priority = priority
  status : j.status = status

/-- A new job without a key is never refused. -/
theorem accept_ok {e : Engine σ} (what : String) (q : QueueRef) {j : Job}
    (hnew : Store.get e.scheduler.store j.id = none) (hkey : j.idempotencyKey = "") :
    (e.accept none what q j).1 = .ok j ∧
      Store.add e.scheduler.store j = .ok (e.accept none what q j).2.scheduler.store := by
  rcases accept_cases e what q j with ⟨err, herr⟩ | h
  · obtain ⟨st, hok⟩ := LawfulStore.add_ok hnew hkey
    unfold Engine.accept at herr
    rw [hok] at herr
    cases herr
  · exact h

theorem submitJob_ok {s : Server σ} (hs : s.Sound) (jobType : String) (priority : Int) :
    let j := Job.newJob (s.engine.nextJobID + 1) jobType priority
    (s.engine.submitJob none jobType priority).1 = .ok j ∧
      Store.add s.store j = .ok (s.engine.submitJob none jobType priority).2.scheduler.store :=
  accept_ok (e := s.engine.takeID) "add_job" .priority (hs.fresh .submitJob) rfl

theorem submitJobAt_ok {s : Server σ} (hs : s.Sound) (jobType : String) (priority : Int) (runAt : Time) :
    let j := { Job.newJob (s.engine.nextJobID + 1) jobType priority with status := .scheduled, nextRunAt := runAt }
    (s.engine.submitJobAt none jobType priority runAt).1 = .ok j ∧
      Store.add s.store j = .ok (s.engine.submitJobAt none jobType priority runAt).2.scheduler.store :=
  accept_ok (e := s.engine.takeID) "add_job_at" .delay (hs.fresh .submitJobAt) rfl

theorem accept_created {e : Engine σ} (what : String) {q : QueueRef} {j j' : Job}
    (h : (e.accept none what q j).1 = .ok j') :
    j' = j ∧ Store.get (e.accept none what q j).2.scheduler.store j.id = some j := by
  rcases accept_cases e what q j with ⟨err, herr⟩ | ⟨hok, hadd⟩
  · rw [herr] at h
    cases h
  · rw [hok] at h
    cases h
    exact ⟨rfl, Server.get_added hadd⟩

theorem submitJobAt_created {e : Engine σ} {jobType : String} {priority : Int} {runAt : Time} {j : Job}
    (h : (e.submitJobAt none jobType priority runAt).1 = .ok j) :
    Created e (e.submitJobAt none jobType priority runAt).2 jobType priority .scheduled j := by
  obtain ⟨rfl, hstored⟩ := accept_created "add_job_at" h
  exact ⟨rfl, hstored, ⟨rfl, rfl⟩, rfl⟩

theorem submitJobIdempotent_created {e : Engine σ} {key jobType : String} {priority : Int} {j : Job}
    (h : (e.submitJobIdempotent none key jobType priority).1 = .ok (j, false)) :
    Created e (e.submitJobIdempotent none key jobType priority).2 jobType priority .pending j := by
  have hnew : ∀ {x : Except String Job}, x.map (fun j => (j, false)) = .ok (j, false) → x = .ok j := by
    rintro (_ | x) hx <;> cases hx
    rfl
  unfold Engine.submitJobIdempotent at h ⊢
  by_cases hkey : key = ""
  · rw [if_pos hkey] at h ⊢
    obtain ⟨rfl, hstored⟩ := accept_created "add_job" (hnew h)
    exact ⟨rfl, hstored, ⟨rfl, rfl⟩, rfl⟩
  · rw [if_neg hkey] at h ⊢
    cases hfind : Store.findByIdempotencyKey e.scheduler.store key with
    | some existing =>
      rw [hfind] at h
      cases h
    | none =>
      rw [hfind] at h
      obtain ⟨rfl, hstored⟩ := accept_created "add_job (idempotent)" (hnew h)
      exact ⟨rfl, hstored, ⟨rfl, rfl⟩, rfl⟩

/-- `POST /jobs` answered with 201. -/
theorem serve_created {n : ControlNode σ} {rd : Reading} (hraft : rd.raft = none) {r : Request}
    (hpost : r.method = "POST") (hpath : r.path = ["jobs"]) {b : JobBody}
    (hcreated : (serve env cfg rd r n).1 = ⟨201, .jobCreated b⟩) :
    ∃ req status j, env.codec.submitJob r.body = some req ∧ j.id = b.id ∧
      Created n.server.engine (serve env cfg rd r n).2.server.engine req.type req.priority status j := by
  rcases serve_or_refused env cfg rd r n with hserve | ⟨hcode, -⟩
  · have hend : endpointOf r = some (.jobs, []) := by
      rw [endpointOf, hpath, hpost]
      decide +kernel
    have hhandler : serve env cfg.unguarded rd r n = submitJobHandler env.codec rd r n := by
      rw [serve_unguarded env cfg hend, handle]
      exact if_pos hpost
    rw [hserve, hhandler] at hcreated ⊢
    have hsubmits : Submits env.codec rd r n (submitJobHandler env.codec rd r n) := submitJobHandler_submits r
    generalize submitJobHandler env.codec rd r n = p at hsubmits hcreated
    cases hsubmits with
    | rejected | failedAt | failed => cases congrArg Response.body hcreated
    | scheduled hcall hres =>
      cases hcreated
      obtain ⟨req, hbody, ⟨_, heq⟩ | heq⟩ := submitCall_cases hcall <;> cases heq
      rw [hraft] at hres ⊢
      exact ⟨req, _, _, hbody, rfl, submitJobAt_created hres⟩
    | @submitted _ _ _ created wasDuplicate hcall hres =>
      cases wasDuplicate with
      | true => cases hcreated
      | false =>
        cases hcreated
        obtain ⟨req, hbody, ⟨_, heq⟩ | heq⟩ := submitCall_cases hcall <;> cases heq
        rw [hraft] at hres ⊢
        exact ⟨req, _, created, hbody, rfl, submitJobIdempotent_created hres⟩
  · rw [hcreated] at hcode
    rcases hcode with hcode | hcode <;> cases hcode

/-- Once `POST /jobs` was answered with 201, `GET /jobs/{id}` shows the job with the type and the priority of the
request whatever happens in between, and no other `POST` is answered with 201 and its id. -/
theorem created_kept {n : ControlNode σ} (hn : Reached env cfg n) {rd rd' : Reading} (hraft : rd.raft = none)
    (hraft' : rd'.raft = none) {r r' : Request} (hpost : r.method = "POST") (hpath : r.path = ["jobs"]) {b : JobBody}
    (hcreated : (serve env cfg rd r n).1 = ⟨201, .jobCreated b⟩) {later : List Input}
    (halone : ∀ i ∈ later, i.standalone = true) :
    let answer := (serve env cfg rd' r' ((api env cfg).exec (serve env cfg rd r n).2 later)).1
    (r'.isFor "GET" b.id → answer.Refused ∨ ∃ req j, env.codec.submitJob r.body = some req ∧ answer = ⟨200, .job j⟩ ∧
        j.id = b.id ∧ j.type = req.type ∧ j.priority = req.priority) ∧
      (r'.method = "POST" → r'.path = ["jobs"] → ∀ b', answer = ⟨201, .jobCreated b'⟩ → b'.id ≠ b.id) := by
  obtain ⟨req, _, j₀, hbody, hid, hj₀⟩ := serve_created env cfg hraft hpost hpath hcreated
  have hi : (Input.request rd r).standalone = true := by rw [Input.standalone, hraft]; rfl
  have hfaithful := (step_stable env cfg Server.stable_faithful hn.faithful.1 hn.faithful.2 hi).2
  obtain ⟨hlater, j, hj, htype, hpriority⟩ := hn.after (Server.stable_holds b.id req.type req.priority) hraft
    ⟨hfaithful, j₀, hid ▸ hj₀.stored, hj₀.asked⟩ halone
  generalize (api env cfg).exec (serve env cfg rd r n).2 later = n' at hlater hj
  refine ⟨fun hget => ?_, fun hpost' hpath' b' hcreated' hsame => ?_⟩
  · rcases serve_or_refused env cfg rd' r' n' with hserve | ⟨hcode, -⟩
    · rw [hserve]
      exact .inr ⟨req, j, hbody, serve_get env cfg hget rd' hj, LawfulStore.get_id hlater.sound.wf hj, htype, hpriority⟩
    · exact .inl hcode
  · -- the new id is above those of all stored jobs
    obtain ⟨_, _, j', -, hid', hj'⟩ := serve_created env cfg hraft' hpost' hpath' hcreated'
    have hle := hlater.sound.stored b.id j hj
    have hnew := hj'.id
    omega

end

/-- Job 1 is submitted, and the process starts again before it is asked for. -/
theorem created_kept_restart :
    (serve operatorEnv openConfig standalone operatorRequest freshNode).1 =
      ⟨201, .jobCreated ⟨1, "submitted", none, none⟩⟩ ∧
      let answer := (serve operatorEnv openConfig standalone (aboutOne "GET") ((api operatorEnv openConfig).exec
        (serve operatorEnv openConfig standalone operatorRequest freshNode).2 [rebooted, .act .takeReady rfl])).1
      answer.Refused ∨ ∃ req j, operatorEnv.codec.submitJob operatorRequest.body = some req ∧
        answer = ⟨200, .job j⟩ ∧ j.id = 1 ∧ j.type = req.type ∧ j.priority = req.priority := by
  have hn : Reached operatorEnv openConfig freshNode := reached_freshNode [] (List.forall_mem_nil _)
  have hcreated : (serve operatorEnv openConfig standalone operatorRequest freshNode).1 =
      ⟨201, .jobCreated ⟨1, "submitted", none, none⟩⟩ := by decide +kernel
  exact ⟨hcreated,
    (created_kept operatorEnv openConfig hn rfl rfl rfl rfl hcreated (by simp [rebooted, Input.standalone])).1
    (aboutOne_isFor "GET")⟩

end Http

end Quorum
