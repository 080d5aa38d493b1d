/-
Who may do what through the HTTP API. `required` is the table of `docs/api.md`: the roles that a request needs. With
authentication the server is the one without it, put behind that table: requests that the table does not let through
are as if they had not been made. The requests of viewers change nothing, and every change goes back to a token that
was issued.
-/
import Quorum.Handlers.Routes

namespace Quorum

namespace Http

open ServeMux Auth Middleware

/-- The roles that a request needs, none if it is public. -/
def required (method : String) : Endpoint → Option (List String)
  | .jobs =>
    if method = "POST" then some [roleSubmitter, roleAdmin]
    else if method = "GET" then some [roleViewer, roleSubmitter, roleAdmin]
    else none
  | .cancelJob => some [roleSubmitter, roleAdmin]
  | .cron =>
    if method = "POST" then some [roleAdmin]
    else if method = "GET" then some [roleViewer, roleSubmitter, roleAdmin]
    else none
  | .node => if method = "DELETE" then some [roleAdmin] else some [roleViewer, roleSubmitter, roleAdmin]
  | .deleteCron | .failover => some [roleAdmin]
  | .job | .leases | .status | .nodes | .raft => some [roleViewer, roleSubmitter, roleAdmin]
  | .ui | .uiRedirect | .root | .metrics | .events => none

/-- The roles that a call needs. -/
def Call.roles : Call → List String
  | .submitJobAt _ _ _ | .submitJobIdempotent _ _ _ | .cancelJob _ => [roleSubmitter, roleAdmin]
  | .addCronJob _ _ _ _ | .removeCronJob _ | .evict _ => [roleAdmin]

theorem Call.roles_cases (c : Call) : c.roles = [roleSubmitter, roleAdmin] ∨ c.roles = [roleAdmin] := by
  cases c with
  | submitJobAt | submitJobIdempotent | cancelJob => exact .inl rfl
  | addCronJob | removeCronJob | evict => exact .inr rfl

/-- The same server with authentication. -/
def Config.guarded (cfg : Config) : Config := { cfg with authEnabled := true }

/-- The same server without. -/
def Config.unguarded (cfg : Config) : Config := { cfg with authEnabled := false }

/-- The endpoint of a request, with its path values; none if it gets to no handler. -/
def endpointOf (r : Request) : Option (Endpoint × List String) :=
  if clean r.path ≠ r.path then none else find routes r.method r.path

section
variable (env : Env) (cfg : Config)

/-- The table lets the request through. -/
def permitted (rd : Reading) (r : Request) : Bool :=
  match (endpointOf r).bind fun p => required r.method p.1 with
  | none => true
  | some roles => grants env.jwt cfg.jwtSecret rd.verifiedAt r.authorization roles

/-- The call of a request. -/
def requested (rd : Reading) (r : Request) : Option Call :=
  (endpointOf r).bind fun p => callOf env.codec rd.now r p.2 p.1

variable {σ : Type}

/-- An answer behind the roles it needs. -/
def gate (rd : Reading) (r : Request) (n : ControlNode σ) (roles : Option (List String))
    (answer : Response × ControlNode σ) :
    Response × ControlNode σ :=
  match roles with
  | none => answer
  | some roles =>
    if grants env.jwt cfg.jwtSecret rd.verifiedAt r.authorization roles then answer
    else (refusal env.jwt cfg.jwtSecret rd.verifiedAt r.authorization, n)

theorem requireRoles_guarded (roles : List String)
    (h : Reading → Request → List String → ControlNode σ → Response × ControlNode σ) (ctx : Option Claims)
    (rd : Reading) (r : Request) (ids : List String) (n : ControlNode σ) :
    requireRoles env cfg.guarded roles (fun _ => h) ctx rd r ids n =
      gate env cfg rd r n (some roles) (requireRoles env cfg.unguarded roles (fun _ => h) ctx rd r ids n) :=
  requireRoles_eq roles h ctx rd r ids n

/-- Every handler is registered behind the roles of the table. -/
theorem handle_guarded [LawfulStore σ] (endpoint : Endpoint) (ctx : Option Claims) (rd : Reading) (r : Request)
    (ids : List String) (n : ControlNode σ) :
    handle env cfg.guarded endpoint ctx rd r ids n =
      gate env cfg rd r n (required r.method endpoint) (handle env cfg.unguarded endpoint ctx rd r ids n) := by
  have hroles := fun roles h => requireRoles_guarded (σ := σ) env cfg roles h ctx rd r ids n
  cases endpoint with
  | ui | uiRedirect | root | metrics | events => rfl
  | job | leases | status | nodes | raft | failover => exact hroles _ _
  | cancelJob => exact hroles _ fun rd _ ids n => cancelJobHandler rd (pathValue ids) n
  | deleteCron => exact hroles _ fun rd _ ids n => deleteCronJobHandler rd (pathValue ids) n
  | jobs =>
    dsimp only [handle, required]
    by_cases hpost : r.method = "POST"
    · rw [if_pos hpost, if_pos hpost, if_pos hpost]
      exact hroles _ fun rd r _ n => submitJobHandler env.codec rd r n
    · rw [if_neg hpost, if_neg hpost, if_neg hpost]
      by_cases hget : r.method = "GET"
      · rw [if_pos hget, if_pos hget, if_pos hget]
        exact hroles _ _
      · rw [if_neg hget, if_neg hget, if_neg hget]
        rfl
  | cron =>
    dsimp only [handle, required]
    by_cases hpost : r.method = "POST"
    · rw [if_pos hpost, if_pos hpost, if_pos hpost]
      exact hroles _ fun rd r _ n => createCronJobHandler env.codec rd r n
    · rw [if_neg hpost, if_neg hpost, if_neg hpost]
      by_cases hget : r.method = "GET"
      · rw [if_pos hget, if_pos hget, if_pos hget]
        exact hroles _ _
      · rw [if_neg hget, if_neg hget, if_neg hget]
        rfl
  | node =>
    dsimp only [handle, required]
    by_cases hdelete : r.method = "DELETE"
    · rw [if_pos hdelete, if_pos hdelete, if_pos hdelete]
      exact hroles _ fun rd r _ n => nodeRoute rd r n
    · rw [if_neg hdelete, if_neg hdelete, if_neg hdelete]
      exact hroles _ fun rd r _ n => nodeRoute rd r n

/-- An answer to a request that gets to no handler. -/
def unrouted (r : Request) : Response :=
  if clean r.path ≠ r.path then ⟨env.redirectCode, .location ("/" ++ "/".intercalate (clean r.path))⟩
  else textError "404 page not found" 404

theorem serve_eq [LawfulStore σ] (rd : Reading) (r : Request) (n : ControlNode σ) :
    serve env cfg rd r n =
      match endpointOf r with
      | none => (unrouted env r, n)
      | some p => handle env cfg p.1 none rd r p.2 n := by
  unfold serve endpointOf unrouted
  by_cases hclean : clean r.path = r.path
  · rw [if_neg (not_not.2 hclean), if_neg (not_not.2 hclean), if_neg (not_not.2 hclean)]
    cases find routes r.method r.path with
    | none => rfl
    | some p => rfl
  · rw [if_pos hclean, if_pos hclean, if_pos hclean]

/-- A request that the table does not let through is refused, and any other gets the answer it would get without
authentication. -/
theorem serve_guarded [LawfulStore σ] (rd : Reading) (r : Request) (n : ControlNode σ) :
    serve env cfg.guarded rd r n =
      if permitted env cfg rd r then serve env cfg.unguarded rd r n
      else (refusal env.jwt cfg.jwtSecret rd.verifiedAt r.authorization, n) := by
  rw [serve_eq, serve_eq]
  cases hend : endpointOf r with
  | none =>
    have hpermitted : permitted env cfg rd r = true := by rw [permitted, hend]; rfl
    rw [if_pos hpermitted]
  | some p =>
    dsimp only
    rw [handle_guarded]
    cases hroles : required r.method p.1 with
    | none =>
      have hpermitted : permitted env cfg rd r = true := by rw [permitted, hend, Option.bind_some, hroles]
      rw [if_pos hpermitted]
      rfl
    | some roles =>
      have hpermitted : permitted env cfg rd r = grants env.jwt cfg.jwtSecret rd.verifiedAt r.authorization roles := by
        rw [permitted, hend, Option.bind_some, hroles]
      rw [hpermitted]
      rfl

theorem serve_unguarded_call [LawfulStore σ] (rd : Reading) (r : Request) (n : ControlNode σ) :
    (serve env cfg.unguarded rd r n).2 = perform rd n (requested env rd r) := by
  rw [serve_eq]
  unfold requested
  cases endpointOf r with
  | none => rfl
  | some p => exact handle_call env rfl p.1 none r p.2

/-! ## Runs -/

/-- The table lets the input through. -/
def Input.admitted : Input → Bool
  | .request rd r => permitted env cfg rd r
  | _ => true

theorem step_admitted [LawfulStore σ] (n : ControlNode σ) {i : Input} (h : i.admitted env cfg = true) :
    step env cfg.guarded n i = step env cfg.unguarded n i := by
  cases i with
  | request rd r =>
    change permitted env cfg rd r = true at h
    rw [step, serve_guarded, if_pos h, step]
  | act | tick | worker => rfl

theorem step_refused [LawfulStore σ] (n : ControlNode σ) {i : Input} (h : i.admitted env cfg = false) :
    ∃ rd r, i = .request rd r ∧
      step env cfg.guarded n i = (n, [⟨rd, r, refusal env.jwt cfg.jwtSecret rd.verifiedAt r.authorization⟩]) := by
  cases i with
  | request rd r =>
    change permitted env cfg rd r = false at h
    refine ⟨rd, r, rfl, ?_⟩
    rw [step, serve_guarded, if_neg (Bool.eq_false_iff.1 h)]
  | act | tick | worker => cases h

/-- What a step shows is its own request. -/
theorem shown_step [LawfulStore σ] {n : ControlNode σ} {i : Input} {x : Exchange} (h : x ∈ (step env cfg n i).2) :
    i = .request x.reading x.request ∧ x.response = (serve env cfg x.reading x.request n).1 := by
  cases i with
  | request rd r =>
    obtain rfl := List.mem_singleton.1 h
    exact ⟨rfl, rfl⟩
  | act | tick | worker => cases h

/-- With authentication a run is the run without it on the inputs that the table lets through: the node ends the same
and the requests that get through have the same answers. The others are answered with 401 or 403. -/
theorem guarded_run [LawfulStore σ] (n : ControlNode σ) (inputs : List Input) :
    (api env cfg.guarded).exec n inputs = (api env cfg.unguarded).exec n (inputs.filter (Input.admitted env cfg)) ∧
      ((api env cfg.guarded).trace n inputs).filter (fun x => permitted env cfg x.reading x.request) =
        (api env cfg.unguarded).trace n (inputs.filter (Input.admitted env cfg)) ∧
      ∀ x ∈ (api env cfg.guarded).trace n inputs, permitted env cfg x.reading x.request = false →
        x.response.code = 401 ∨ x.response.code = 403 := by
  have hin : ∀ n i, Input.admitted env cfg i = true →
      (step (σ := σ) env cfg.guarded n i).1 = (step env cfg.unguarded n i).1 ∧
      (step env cfg.guarded n i).2.filter (fun x => permitted env cfg x.reading x.request) =
        (step env cfg.unguarded n i).2 := by
    intro n i hadmitted
    rw [step_admitted env cfg n hadmitted]
    refine ⟨rfl, List.filter_eq_self.2 fun x hx => ?_⟩
    obtain ⟨rfl, -⟩ := shown_step env cfg.unguarded hx
    exact hadmitted
  have hout : ∀ n i, Input.admitted env cfg i = false → (step (σ := σ) env cfg.guarded n i).1 = n ∧
      (step env cfg.guarded n i).2.filter (fun x => permitted env cfg x.reading x.request) = [] := by
    intro n i hadmitted
    refine ⟨?_, List.filter_eq_nil_iff.2 fun x hx => ?_⟩
    · obtain ⟨rd, r, -, hstep⟩ := step_refused env cfg n hadmitted
      rw [hstep]
    · obtain ⟨rfl, -⟩ := shown_step env cfg.guarded hx
      exact Bool.eq_false_iff.1 hadmitted
  have hrun := Machine.run_filter (M := api env cfg.guarded) (N := api env cfg.unguarded) hin hout n inputs
  refine ⟨hrun.1, hrun.2, fun x hx hdenied => ?_⟩
  obtain ⟨pre, i, post, -, hshown⟩ := Machine.mem_trace.1 hx
  obtain ⟨rfl, hresponse⟩ := shown_step env cfg.guarded hshown
  rw [hresponse, serve_guarded, if_neg (Bool.eq_false_iff.1 hdenied)]
  exact refusal_code _ _

/-! ## Who changes the node -/

theorem callOf_roles {codec : Codec} {now : Time} {r : Request} {ids : List String} {endpoint : Endpoint} {c : Call}
    (h : callOf codec now r ids endpoint = some c) : required r.method endpoint = some c.roles := by
  obtain ⟨rfl, hmethod⟩ := callOf_endpoint h
  cases c with
  | submitJobAt | submitJobIdempotent | addCronJob | evict => exact if_pos (hmethod _ rfl)
  | cancelJob | removeCronJob => rfl

/-- A call that was let through was asked for with one of its roles. -/
theorem grants_of_requested {rd : Reading} {r : Request} {c : Call} (hcall : requested env rd r = some c)
    (hpermitted : permitted env cfg rd r = true) :
    ∃ claims, claimsOf env.jwt cfg.jwtSecret rd.verifiedAt r.authorization = .ok claims ∧
      roleSatisfies claims.role c.roles = true := by
  obtain ⟨p, hend, hcall⟩ := Option.bind_eq_some_iff.1 hcall
  unfold permitted at hpermitted
  rw [hend, Option.bind_some, callOf_roles hcall] at hpermitted
  dsimp only [grants] at hpermitted
  split at hpermitted
  · exact ⟨_, ‹_›, hpermitted⟩
  · cases hpermitted

/-- What changes the node is a call that was let through. -/
theorem call_of_changed [LawfulStore σ] {rd : Reading} {r : Request} {n : ControlNode σ}
    (h : (serve env cfg.guarded rd r n).2 ≠ n) :
    ∃ c claims, requested env rd r = some c ∧
      claimsOf env.jwt cfg.jwtSecret rd.verifiedAt r.authorization = .ok claims ∧
      roleSatisfies claims.role c.roles = true := by
  rw [serve_guarded] at h
  split at h
  · rename_i hpermitted
    rw [serve_unguarded_call] at h
    cases hcall : requested env rd r with
    | none =>
      rw [hcall] at h
      exact absurd rfl h
    | some c =>
      obtain ⟨claims, hclaims, hrole⟩ := grants_of_requested env cfg hcall hpermitted
      exact ⟨c, claims, rfl, hclaims, hrole⟩
  · exact absurd rfl h

/-- The request is one of a viewer, or of nobody. -/
def onlooker (rd : Reading) (r : Request) : Bool :=
  match claimsOf env.jwt cfg.jwtSecret rd.verifiedAt r.authorization with
  | .ok claims => claims.role = roleViewer
  | .error _ => true

/-- The input is not the request of an onlooker. -/
def Input.acting : Input → Bool
  | .request rd r => !onlooker env cfg rd r
  | _ => true

theorem serve_onlooker [LawfulStore σ] {rd : Reading} {r : Request} (h : onlooker env cfg rd r = true)
    (n : ControlNode σ) :
    (serve env cfg.guarded rd r n).2 = n := by
  by_contra hchanged
  obtain ⟨c, claims, -, hclaims, hrole⟩ := call_of_changed env cfg hchanged
  rw [onlooker, hclaims, decide_eq_true_eq] at h
  rw [h] at hrole
  rcases c.roles_cases with heq | heq <;> rw [heq] at hrole <;> exact absurd hrole (by decide +kernel)

theorem run_acting [LawfulStore σ] (n : ControlNode σ) (inputs : List Input) :
    (api env cfg.guarded).exec n inputs = (api env cfg.guarded).exec n (inputs.filter (Input.acting env cfg)) ∧
      ((api env cfg.guarded).trace n inputs).filter (fun x => !onlooker env cfg x.reading x.request) =
        (api env cfg.guarded).trace n (inputs.filter (Input.acting env cfg)) := by
  refine Machine.run_filter (M := api env cfg.guarded) (N := api env cfg.guarded) ?_ ?_ n inputs
  · intro n i hacting
    refine ⟨rfl, List.filter_eq_self.2 fun x hx => ?_⟩
    obtain ⟨rfl, -⟩ := shown_step env cfg.guarded hx
    exact hacting
  · intro n i honlooker
    cases i with
    | request rd r =>
      have h : onlooker env cfg rd r = true := by simpa [Input.acting] using honlooker
      refine ⟨serve_onlooker env cfg h n, List.filter_eq_nil_iff.2 fun x hx => ?_⟩
      obtain ⟨heq, -⟩ := shown_step env cfg.guarded hx
      cases heq
      rw [h]
      exact Bool.false_ne_true
    | act | tick | worker => cases honlooker

/-- The request is one for `/metrics`, whose page is not made from the node. -/
def Request.isScrape (r : Request) : Bool := (endpointOf r).any fun p => p.1 = .metrics

/-- Taking the requests of onlookers out of a run changes neither the node nor any answer to the others, those to
`/metrics` apart. -/
theorem onlookers_purged [LawfulStore σ] (n : ControlNode σ) (inputs : List Input) :
    (api env cfg.guarded).exec n inputs = (api env cfg.guarded).exec n (inputs.filter (Input.acting env cfg)) ∧
      ((api env cfg.guarded).trace n inputs).filter
          (fun x => !x.request.isScrape && !onlooker env cfg x.reading x.request) =
        ((api env cfg.guarded).trace n (inputs.filter (Input.acting env cfg))).filter
          (fun x => !x.request.isScrape) := by
  obtain ⟨hnode, hanswers⟩ := run_acting env cfg n inputs
  refine ⟨hnode, ?_⟩
  rw [← hanswers, List.filter_filter]

/-! ## Where a call comes from -/

/-- Only two requests make calls that do not need an administrator. -/
theorem requested_place {rd : Reading} {r : Request} {c : Call} (h : requested env rd r = some c) :
    c.roles = [roleAdmin] ∨ r.method = "POST" ∧ r.path = ["jobs"] ∨
      r.method = "DELETE" ∧ ∃ id, r.path = ["jobs", id] := by
  obtain ⟨⟨endpoint, ids⟩, hend, hcall⟩ := Option.bind_eq_some_iff.1 h
  have hfind : find routes r.method r.path = some (endpoint, ids) := by
    unfold endpointOf at hend
    split at hend
    · cases hend
    · exact hend
  obtain ⟨p, hmem, htakes, hfits⟩ := find_fits hfind
  cases endpoint with
  | jobs =>
    dsimp only [callOf] at hcall
    split at hcall
    · rename_i hpost
      have hp : p = ⟨none, [.literal "jobs"], false⟩ := by simpa [routes] using hmem
      subst hp
      obtain ⟨rest, hpath, hrest⟩ := fits_literal.1 hfits
      rw [(fits_nil.1 hrest).1] at hpath
      exact .inr (.inl ⟨hpost, hpath⟩)
    · cases hcall
  | cancelJob =>
    have hp : p = ⟨some "DELETE", [.literal "jobs", .wildcard], false⟩ := by simpa [routes] using hmem
    subst hp
    obtain ⟨rest, hpath, hrest⟩ := fits_literal.1 hfits
    obtain ⟨id, rest, ids', -, rfl, -, hrest⟩ := fits_wildcard.1 hrest
    rw [(fits_nil.1 hrest).1] at hpath
    have hmethod : r.method = "DELETE" := by simpa [Takes, eq_comm] using htakes
    exact .inr (.inr ⟨hmethod, id, hpath⟩)
  | cron =>
    dsimp only [callOf] at hcall
    split at hcall
    · obtain ⟨id, schedule, jobType, priority, rfl⟩ := createCronCall_cases hcall
      exact .inl rfl
    · cases hcall
  | deleteCron =>
    dsimp only [callOf, deleteCronCall] at hcall
    split at hcall
    · cases hcall
    · cases hcall
      exact .inl rfl
  | node =>
    obtain ⟨-, id, rfl⟩ := nodeCall_cases hcall
    exact .inl rfl
  | ui | uiRedirect | root | job | status | nodes | raft | failover | leases | metrics | events => cases hcall

/-- Every request that changes the node carries a token that was issued and has not expired. Its role is `admin`, or
it is `submitter` and the request is one to submit or to cancel a job. -/
theorem changes_attributed [LawfulStore σ] {issued : Claims → Prop}
    (hjson : ∀ claims, issued claims → env.jwt.unmarshalClaims (env.jwt.marshalClaims claims) = some claims)
    {r : Request}
    (hgenuine : ∀ token, bearerToken r.authorization = some token → Genuine env.jwt cfg.jwtSecret issued token)
    {rd : Reading}
    {n : ControlNode σ} (hchanged : (serve env cfg.guarded rd r n).2 ≠ n) :
    ∃ claims, issued claims ∧ (0 < claims.expiresAt → unix rd.verifiedAt ≤ claims.expiresAt) ∧
      (claims.role = roleAdmin ∨ claims.role = roleSubmitter ∧
        (r.method = "POST" ∧ r.path = ["jobs"] ∨ r.method = "DELETE" ∧ ∃ id, r.path = ["jobs", id])) := by
  obtain ⟨c, claims, hcall, hclaims, hrole⟩ := call_of_changed env cfg hchanged
  obtain ⟨token, htoken, hverify⟩ := claimsOf_ok hclaims
  obtain ⟨hissued, hexpires, -⟩ := verifyToken_genuine hjson (hgenuine token htoken) hverify
  refine ⟨claims, hissued, hexpires, ?_⟩
  have hadmin : c.roles = [roleAdmin] → claims.role = roleAdmin := by
    intro hroles
    simpa [roleSatisfies, hroles] using hrole
  rcases requested_place env hcall with hroles | hplace
  · exact .inl (hadmin hroles)
  rcases c.roles_cases with hroles | hroles
  · have hboth : claims.role = roleAdmin ∨ claims.role = roleSubmitter := by
      simp only [roleSatisfies, hroles, List.any_cons, List.any_nil, Bool.or_false] at hrole
      split at hrole
      · exact .inl ‹_›
      · rcases Bool.or_eq_true_iff.1 hrole with h | h
        · exact .inr (of_decide_eq_true h)
        · exact .inl (of_decide_eq_true h)
    exact hboth.imp_right fun hsubmitter => ⟨hsubmitter, hplace⟩
  · exact .inl (hadmin hroles)

end

/-- The bodies of two requests, one for a job and one for a cron job that comes due every minute. -/
def mailText : List UInt8 := "\x7b\"type\":\"email\",\"priority\":1\x7d".toUTF8.toList

def mailCronText : List UInt8 :=
  "\x7b\"id\":\"mail\",\"schedule\":\"* * * * *\",\"type\":\"email\",\"priority\":1\x7d".toUTF8.toList

/-- The libraries, as far as the operator needs them. -/
def operatorEnv : Env where
  jwt := operatorLibrary
  codec :=
    { submitJob := fun body => if body = mailText then some ⟨"email", 1, "", ""⟩ else none
      createCronJob := fun body => if body = mailCronText then some ⟨"mail", "* * * * *", "email", 1⟩ else none
      rfc3339 := Server.newYear }
  redirectCode := 301

def operatorConfig : Config := ⟨[1], true, "node-1"⟩

/-- The token of the operator. -/
def operatorToken : List UInt8 :=
  signingInput operatorLibrary operatorClaims ++
    dot :: Base64.encode
      (signHS256 operatorLibrary (signingInput operatorLibrary operatorClaims) operatorConfig.jwtSecret)

/-- The operator submits a job. -/
def operatorRequest : Request := ⟨"POST", ["jobs"], bearerHeader operatorToken, mailText⟩

def standalone : Reading := ⟨0, 0, none, ⟨false, 0, ""⟩, .stored, .stored, .stored, .stored, 200, []⟩

/-- The start of the hour for which the token is valid. -/
def issuedAt : Time := (62135596800 + 1700000000) * second

def freshNode : ControlNode BoltStore :=
  ⟨.start Store.empty ⟨1, [], by decide⟩ none .stored .stored .stored .stored .stored, .new, .new⟩

/-- The operator submits a job with the token that `GenerateToken` made. -/
theorem operator_attributed :
    let rd := { standalone with verifiedAt := issuedAt, now := issuedAt }
    generateToken operatorLibrary issuedAt operatorConfig.jwtSecret "ops.team.7" roleSubmitter (3600 * second) =
      .ok operatorToken ∧
      (serve operatorEnv operatorConfig.guarded rd operatorRequest freshNode).2 ≠ freshNode ∧
      ∃ claims, claims = operatorClaims ∧ (0 < claims.expiresAt → unix rd.verifiedAt ≤ claims.expiresAt) ∧
        (claims.role = roleAdmin ∨ claims.role = roleSubmitter ∧
          (operatorRequest.method = "POST" ∧ operatorRequest.path = ["jobs"] ∨
            operatorRequest.method = "DELETE" ∧ ∃ id, operatorRequest.path = ["jobs", id])) := by
  intro rd
  have hjson : operatorLibrary.unmarshalClaims (operatorLibrary.marshalClaims operatorClaims) =
      some operatorClaims := by
    unfold operatorLibrary
    dsimp only
    rw [if_pos rfl, if_pos rfl]
  have hclaims : claimsOf operatorLibrary operatorConfig.jwtSecret issuedAt operatorRequest.authorization =
      .ok operatorClaims := by
    refine claimsOf_bearerHeader isVisible_token ((verifyToken_right (by decide) issuedAt hjson).trans ?_)
    decide +kernel
  have hpermitted : permitted operatorEnv operatorConfig rd operatorRequest = true := by
    show grants operatorLibrary operatorConfig.jwtSecret issuedAt operatorRequest.authorization
      [roleSubmitter, roleAdmin] = true
    rw [grants, hclaims]
    decide +kernel
  have hchanged : (serve operatorEnv operatorConfig.guarded rd operatorRequest freshNode).2 ≠ freshNode := by
    rw [serve_guarded, if_pos hpermitted]
    intro heq
    have hid := congrArg (fun n : ControlNode BoltStore => n.server.engine.nextJobID) heq
    exact absurd hid (by decide +kernel)
  refine ⟨rfl, hchanged, changes_attributed operatorEnv operatorConfig ?_ ?_ hchanged⟩
  · rintro claims rfl
    exact hjson
  · intro token htoken headerB64 claimsB64 sigB64 hparts _
    obtain rfl : operatorToken = token := Option.some.inj ((bearerToken_bearerHeader isVisible_token).symm.trans htoken)
    have hsplit : operatorToken.splitOn dot = _ :=
      splitOn_dots (dot_not_mem_encode _) (dot_not_mem_encode _) (dot_not_mem_encode _)
    rw [hsplit] at hparts
    cases hparts
    exact ⟨operatorClaims, rfl, rfl⟩

end Http

end Quorum
