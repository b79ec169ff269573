import Forgelet.Lib.GoMap
import Forgelet.Lib.Strings
import Forgelet.Run.Status

/-!
# The durable records

The record types of `internal/run/model/run.go`. Go maps are association lists with distinct keys, `time.Time` is the
number of nanoseconds since the epoch, and a nil pointer, a nil map or an empty id that stands for "not set" is `none`.
-/

namespace Forgelet

/-- Nanoseconds. -/
abbrev Time := Int

/-- The id of a workflow run. -/
abbrev RunID := String

/-- The id of a job run. -/
abbrev JobRunID := String

/-- A repository of a provider. -/
structure RepositoryRef where
  provider : String
  owner : String
  name : String
deriving DecidableEq, Repr

/-- The unique idempotency key of a provider delivery. -/
structure DeliveryKey where
  provider : String
  deliveryID : String
deriving DecidableEq, Repr

/-- `DeliveryKey.String`. -/
def DeliveryKey.text (k : DeliveryKey) : String := k.provider ++ ":" ++ k.deliveryID

/-- The trigger: `"push"`, `"pull_request"`, `"workflow_dispatch"` or `"schedule"`. -/
structure Event where
  provider : String
  name : String
  deliveryID : String
  repository : RepositoryRef
  ref : String
  sha : String
  actor : String
deriving DecidableEq, Repr

/-- The body of a webhook. -/
abbrev Payload := List UInt8

/-- A webhook as it is ingested. -/
structure Delivery where
  key : DeliveryKey
  event : Event
  payload : Payload
deriving DecidableEq

/-- The receipt of a `Delivery`; `runID` is `none` until a run is created. -/
structure DeliveryRecord where
  key : DeliveryKey
  event : Event
  payload : Payload
  receivedAt : Time
  runID : Option RunID
deriving DecidableEq

/-- A compiled job to persist. An empty `condition` means `success()`. -/
structure JobIntent where
  jobKey : String
  runnerClass : String
  dependsOn : List String
  matrix : Option (GoMap String String)
  planDigest : String
  condition : String
deriving DecidableEq

/-- The durable intent for one workflow run. -/
structure RunSeed where
  delivery : DeliveryKey
  event : Event
  jobs : List JobIntent
deriving DecidableEq

/-- The record of a workflow run. -/
structure RunRecord where
  id : RunID
  event : Event
  delivery : DeliveryKey
  status : WorkflowRunStatus
  createdAt : Time
  finishedAt : Option Time
deriving DecidableEq

/-- The record of one attempt at a job. -/
structure JobRunRecord where
  id : JobRunID
  runID : RunID
  jobKey : String
  runnerClass : String
  dependsOn : List String
  matrix : Option (GoMap String String)
  planDigest : String
  condition : String
  status : JobRunStatus
  attempt : Nat
  activeName : String
  activeUID : String
  createdAt : Time
  dispatchedAt : Option Time
  startedAt : Option Time
  finishedAt : Option Time
  activeCollectedAt : Option Time
deriving DecidableEq

/-- The deterministic Kubernetes resource name of a JobRun. -/
def crName (id : JobRunID) : String := "jobrun-" ++ GoString.toLower id

/-- The observed state of the execution; `skipped` is a scheduling decision, `other` any other string. -/
inductive ObservedPhase
  | pending
  | running
  | succeeded
  | failed
  | skipped
  | other (text : String)
deriving DecidableEq, Repr

/-- The phase as the internal API spells it. -/
def ObservedPhase.text : ObservedPhase → String
  | pending => "pending"
  | running => "running"
  | succeeded => "succeeded"
  | failed => "failed"
  | skipped => "skipped"
  | other text => text

/-- The durable status an observed phase implies, if it implies a change. -/
def jobStatusFromPhase : ObservedPhase → Option JobRunStatus
  | .pending => none
  | .running => some .running
  | .succeeded => some .succeeded
  | .failed => some .failed
  | .skipped => some .skipped
  | .other _ => none

/-- `JobIntent.Validate`: the text of the error, if there is one. -/
def JobIntent.validate (j : JobIntent) : Except String Unit :=
  if GoString.trimSpace j.jobKey = "" then .error "job intent: empty job key"
  else if GoString.trimSpace j.runnerClass = "" then
    .error ("job intent " ++ GoString.quote j.jobKey ++ ": empty runner class")
  else .ok ()

end Forgelet
