import Forgelet.Scheduler.Port

/-!
# Authorization

The decisions of `internal/security/policy/policy.go`, for the identities of
`internal/security/identity/identity.go`. Of an identity only the claims that the decisions read are kept.
-/

namespace Forgelet

/-- How far the code of a run is trusted. -/
inductive TrustLevel
  | trusted
  | sameRepo
  | fork
deriving DecidableEq, Repr

namespace Policy

/-- To read the plan. -/
def scopePlanRead : String := "plan:read"

/-- To read secrets. -/
def scopeSecretsRead : String := "secrets:read"

/-- To report. -/
def scopeStatusWrite : String := "status:write"

/-- The scope that allows to project observed phases of every job. -/
def scopeObservedWrite : String := "observed:write"

/-- The verified claims of a token. -/
structure Identity where
  jobRunID : JobRunID
  scopes : List String
deriving DecidableEq, Repr

/-- Whether the caller may do it. -/
def Identity.hasScope (id : Identity) (scope : String) : Bool := id.scopes.contains scope

/-- A secret, by scope and name. -/
structure Ref where
  scope : String
  name : String
deriving DecidableEq, Repr

/-- `AuthorizeExecution`: the identity is bound to the job. -/
def authorizeExecution (id : Identity) (jobRun : JobRunID) : Except Err Unit :=
  if id.jobRunID ≠ jobRun then
    .error (.errorf ("policy: not authorized: identity bound to job run " ++ id.jobRunID ++ ", requested " ++
      jobRun))
  else .ok ()

/-- `AuthorizeObservation`: of every job, or of the job it is bound to. -/
def authorizeObservation (id : Identity) (jobRun : JobRunID) : Except Err Unit :=
  if id.hasScope scopeObservedWrite then .ok ()
  else if id.jobRunID = jobRun then .ok ()
  else
    .error (.errorf ("policy: not authorized: identity bound to job run " ++ id.jobRunID ++ ", requested " ++
      jobRun))

/-- A secret that was refused, with the reason. -/
structure DeniedRef where
  ref : Ref
  reason : String
deriving DecidableEq, Repr

/-- The outcome of a request for secrets. -/
structure Decision where
  allowed : List Ref
  denied : List DeniedRef
deriving DecidableEq, Repr

/-- No reference is allowed. -/
def denyAll (requested : List Ref) (reason : String) : Decision where
  allowed := []
  denied := requested.map fun r => { ref := r, reason := reason }

/-- `DecideSecrets`. A job without a trust level has the zero value, here `none`. -/
def decideSecrets (id : Identity) (requested planRefs : List Ref) (trust : Option TrustLevel) : Decision :=
  if id.hasScope scopeSecretsRead = false then
    denyAll requested ("identity lacks scope " ++ scopeSecretsRead)
  else if trust = some .fork then denyAll requested "fork-pull-request runs receive no secrets"
  else
    { allowed := requested.filter (· ∈ planRefs)
      denied := (requested.filter (· ∉ planRefs)).map fun r =>
        { ref := r, reason := "not referenced by the job plan" } }

end Policy

end Forgelet
