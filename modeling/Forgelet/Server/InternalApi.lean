import Forgelet.Server.Secrets

/-!
# The internal API

The endpoints below `/internal/jobruns/{id}` (`internal/server/server.go`), with the middleware that authenticates
them. A request is what is left of it after the decoding of its body. Reports and metrics follow a projection and are
left out.
-/

namespace Forgelet.Server

open Policy

/-- The object storage (`internal/storage/s3/store.go`): the key that is hit, and URLs. -/
structure S3 where
  cacheResolve : RepositoryRef → String → List String → Except Err (Bool × String)
  cachePutURL : RepositoryRef → String → Except Err String
  cacheGetURL : String → Except Err String
  artifactPutURL : RepositoryRef → RunID → String → Except Err String
  artifactGetURL : RepositoryRef → RunID → String → Except Err String

/-- The body of a request for a cache. -/
structure CacheQuery where
  key : String
  restoreKeys : List String

/-- The endpoints, with the rest of the path and the body, `none` if it does not decode. -/
inductive Endpoint
  | plan
  | secrets (body : Option (List Ref))
  | status (success : Option Bool)
  | observed (phase : Option ObservedPhase)
  | cacheResolve (body : Option CacheQuery)
  | artifactUpload (name : String)
  | artifactDownload (name : String)

/-- A request, with the wiring of the server and the reading of the clock. -/
structure Exchange where
  verify : String → Except Err Identity
  secrets : SecretSource
  s3 : Option S3
  now : Time
  authorization : String
  id : JobRunID
  endpoint : Endpoint

/-- What the internal API answers. -/
inductive Reply
  | httpError (text : String) (code : Nat)
  | plan (p : Plan)
  | secrets (out : GoMap String String)
  | ok
  | cache (hit : Bool) (putURL : String) (getURL : Option String)
  | uploadURL (u : String)
  | downloadURL (u : String)

/-- `auth`: the identity of the bearer of a token. -/
def auth (verify : String → Except Err Identity) (header : String) : Except Reply Identity :=
  if GoString.hasPrefix header "Bearer " = false then .error (.httpError "missing bearer token" 401)
  else
    match verify (GoString.trimPrefix header "Bearer ") with
    | .error _ => .error (.httpError "invalid token" 401)
    | .ok ident => .ok ident

/-- `jobFromPath`: the identity, if it is bound to the job of the path. -/
def jobFromPath (id : JobRunID) (ident : Option Identity) : Except Reply Identity :=
  if id = "" then .error (.httpError "missing job run id" 400)
  else
    match ident with
    | none => .error (.httpError "missing identity" 401)
    | some ident =>
      match authorizeExecution ident id with
      | .error _ => .error (.httpError "identity not bound to this job run" 403)
      | .ok () => .ok ident

/-- The request for a plan. -/
def handlePlan (id : JobRunID) (ident : Option Identity) (st : State) : Reply :=
  match jobFromPath id ident with
  | .error reply => reply
  | .ok ident =>
    if ident.hasScope scopePlanRead = false then .httpError "missing scope plan:read" 403
    else
      match st.plans.lookup id with
      | none => .httpError "plan not found" 404
      | some p => .plan p

/-- The answer of `handleSecrets`. -/
def Response.reply : Response → Reply
  | .httpError text code => .httpError text code
  | .secrets out => .secrets out

/-- The end of `handleStatus` and `handleObserved`. -/
def project (id : JobRunID) (phase : ObservedPhase) (now : Time) (st : State) : Reply × State :=
  match projectObserved st.durable id phase now with
  | (.error _, s) => (.httpError "projection failed" 500, st.withDurable s)
  | (.ok (), s) => (.ok, st.withDurable s)

/-- The phase that a result stands for. -/
def resultPhase (success : Bool) : ObservedPhase := if success then .succeeded else .failed

/-- The report of a result. -/
def handleStatus (id : JobRunID) (ident : Option Identity) (success : Option Bool) (now : Time) (st : State) :
    Reply × State :=
  match jobFromPath id ident with
  | .error reply => (reply, st)
  | .ok ident =>
    if ident.hasScope scopeStatusWrite = false then (.httpError "missing scope status:write" 403, st)
    else
      match success with
      | none => (.httpError "malformed result" 400, st)
      | some success => project id (resultPhase success) now st

/-- The report of a phase. -/
def handleObserved (id : JobRunID) (ident : Option Identity) (phase : Option ObservedPhase) (now : Time) (st : State) :
    Reply × State :=
  if id = "" then (.httpError "missing job run id" 400, st)
  else
    match ident with
    | none => (.httpError "missing identity" 401, st)
    | some ident =>
      match authorizeObservation ident id with
      | .error _ => (.httpError "identity may not observe this job run" 403, st)
      | .ok () =>
        match phase with
        | none => (.httpError "malformed body" 400, st)
        | some phase => project id phase now st

/-- The job and its run. -/
def jobAndRun (s : DurableStore) (id : JobRunID) : Except Reply (JobRunRecord × RunRecord) :=
  match s.getJobRun id with
  | .error _ => .error (.httpError "job not found" 404)
  | .ok job =>
    match s.getRun job.runID with
    | .error _ => .error (.httpError "run not found" 404)
    | .ok run => .ok (job, run)

/-- The last part of `handleCacheResolve`. -/
def resolveCache (s3 : S3) (repo : RepositoryRef) (body : CacheQuery) : Reply :=
  match s3.cacheResolve repo body.key body.restoreKeys with
  | .error _ => .httpError "cache resolve failed" 500
  | .ok (hit, hitKey) =>
    match s3.cachePutURL repo body.key with
    | .error _ => .httpError "presign put failed" 500
    | .ok putURL =>
      if hit then
        match s3.cacheGetURL hitKey with
        | .error _ => .httpError "presign get failed" 500
        | .ok getURL => .cache hit putURL (some getURL)
      else .cache hit putURL none

/-- The request for a cache. -/
def handleCacheResolve (s3 : Option S3) (id : JobRunID) (ident : Option Identity) (body : Option CacheQuery)
    (st : State) : Reply :=
  match jobFromPath id ident with
  | .error reply => reply
  | .ok ident =>
    if ident.hasScope scopePlanRead = false ∧ ident.hasScope scopeStatusWrite = false then
      .httpError "missing scope" 403
    else
      match s3 with
      | none => .httpError "cache storage not configured" 501
      | some s3 =>
        match body with
        | none => .httpError "malformed body" 400
        | some body =>
          if body.key = "" then .httpError "key is required" 400
          else
            match jobAndRun st.durable id with
            | .error reply => reply
            | .ok (_, run) => resolveCache s3 run.event.repository body

/-- An artifact is uploaded or downloaded with a URL that needs a scope. -/
def handleArtifact (scope : String) (url : S3 → RepositoryRef → RunID → String → Except Err String)
    (reply : String → Reply) (s3 : Option S3) (id : JobRunID) (ident : Option Identity) (name : String)
    (st : State) : Reply :=
  match jobFromPath id ident with
  | .error reply => reply
  | .ok ident =>
    if ident.hasScope scope = false then .httpError ("missing scope " ++ scope) 403
    else
      match s3 with
      | none => .httpError "artifact storage not configured" 501
      | some s3 =>
        if name = "" ∨ GoString.contains name "/" ∨ GoString.contains name ".." then
          .httpError "invalid artifact name" 400
        else
          match jobAndRun st.durable id with
          | .error reply => reply
          | .ok (job, run) =>
            match url s3 run.event.repository job.runID name with
            | .error _ => .httpError "presign failed" 500
            | .ok u => reply u

/-- The request for a place to upload to. -/
def handleArtifactUpload : Option S3 → JobRunID → Option Identity → String → State → Reply :=
  handleArtifact scopeStatusWrite S3.artifactPutURL .uploadURL

/-- The request for a place to download from. -/
def handleArtifactDownload : Option S3 → JobRunID → Option Identity → String → State → Reply :=
  handleArtifact scopePlanRead S3.artifactGetURL .downloadURL

/-- The route of an endpoint, for a request whose identity is verified. -/
def Exchange.route (x : Exchange) (ident : Identity) (st : State) : Reply × State :=
  match x.endpoint with
  | .plan => (handlePlan x.id (some ident) st, st)
  | .secrets body => ((handleSecrets x.secrets ⟨x.id, some ident, body⟩ st).reply, st)
  | .status success => handleStatus x.id (some ident) success x.now st
  | .observed phase => handleObserved x.id (some ident) phase x.now st
  | .cacheResolve body => (handleCacheResolve x.s3 x.id (some ident) body st, st)
  | .artifactUpload name => (handleArtifactUpload x.s3 x.id (some ident) name st, st)
  | .artifactDownload name => (handleArtifactDownload x.s3 x.id (some ident) name st, st)

/-- The handler behind the authentication. -/
def Exchange.serve (x : Exchange) (st : State) : Reply × State :=
  match auth x.verify x.authorization with
  | .error reply => (reply, st)
  | .ok ident => x.route ident st

/-- Requests, one after the other. -/
def serveAll (st : State) (xs : List Exchange) : State := xs.foldl (fun st x => (x.serve st).2) st

/-- The status of a job. -/
def State.status (st : State) (id : JobRunID) : Option JobRunStatus := (st.durable.jobs.lookup id).map (·.status)

/-- The authenticated caller. -/
def Exchange.caller (x : Exchange) : Option Identity := (auth x.verify x.authorization).toOption

/-- The identity may observe every job, or report the one it is bound to. -/
def MayChange (ident : Identity) (id : JobRunID) : Prop :=
  ident.hasScope scopeObservedWrite ∨ ident.jobRunID = id ∧ ident.hasScope scopeStatusWrite

/-- The identity that a request is made with, if there is one, has neither scope. -/
def Exchange.Powerless (x : Exchange) : Prop :=
  ∀ ident, x.caller = some ident →
    ident.hasScope scopeObservedWrite = false ∧ ident.hasScope scopeStatusWrite = false

/-- The statuses that a request changes are those its caller may change. -/
def Exchange.Authorized (st : State) (x : Exchange) : Prop :=
  ∀ id, (x.serve st).2.status id ≠ st.status id → ∃ ident, x.caller = some ident ∧ MayChange ident id

/-- Whether the phase changes the status of the job. -/
def moves (s : DurableStore) (id : JobRunID) (phase : ObservedPhase) : Bool :=
  match s.jobs.lookup id, jobStatusFromPhase phase with
  | some job, some target => !job.status.isTerminal && canAdvanceJob job.status target && job.status != target
  | _, _ => false

/-- An identity with neither scope observes a phase that moves its job. -/
def Exchange.Unscoped (st : State) (x : Exchange) : Prop :=
  ∃ ident phase, x.caller = some ident ∧ x.endpoint = .observed (some phase) ∧ x.id ≠ "" ∧
    ident.jobRunID = x.id ∧ ident.hasScope scopeObservedWrite = false ∧ ident.hasScope scopeStatusWrite = false ∧
    moves st.durable x.id phase

/-- Every request of a sequence has a property in the state that it arrives in. -/
def EachArrives (P : State → Exchange → Prop) : State → List Exchange → Prop
  | _, [] => True
  | st, x :: rest => P st x ∧ EachArrives P (x.serve st).2 rest

end Forgelet.Server
