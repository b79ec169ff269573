
/-!
# The durable run state machine

The statuses of a WorkflowRun and of a JobRun, the legal transitions between them, and the aggregation of job statuses
into a run status (`internal/run/model/status.go`).
-/

namespace Forgelet

/-- The status of a workflow run. -/
inductive WorkflowRunStatus
  | queued
  | running
  | succeeded
  | failed
  | cancelled
deriving DecidableEq, Repr

namespace WorkflowRunStatus

/-- The status as it is stored. -/
def text : WorkflowRunStatus → String
  | queued => "queued"
  | running => "running"
  | succeeded => "succeeded"
  | failed => "failed"
  | cancelled => "cancelled"

/-- Whether the status is a final state that must never change. -/
def isTerminal : WorkflowRunStatus → Bool
  | succeeded | failed | cancelled => true
  | _ => false

end WorkflowRunStatus

/-- The durable status of a JobRun; `skipped` for one that never executes. -/
inductive JobRunStatus
  | queued
  | dispatched
  | running
  | succeeded
  | failed
  | cancelled
  | skipped
deriving DecidableEq, Repr

namespace JobRunStatus

/-- The status as it is stored. -/
def text : JobRunStatus → String
  | queued => "queued"
  | dispatched => "dispatched"
  | running => "running"
  | succeeded => "succeeded"
  | failed => "failed"
  | cancelled => "cancelled"
  | skipped => "skipped"

/-- Whether the status is a final state that must never change. -/
def isTerminal : JobRunStatus → Bool
  | succeeded | failed | cancelled | skipped => true
  | _ => false

end JobRunStatus

/-- Orders non-terminal progress; the terminal statuses share the highest rank. -/
def jobRank : JobRunStatus → Nat
  | .queued => 0
  | .dispatched => 1
  | .running => 2
  | _ => 3

/-- The order in which a run moves forward. -/
def runRank : WorkflowRunStatus → Nat
  | .queued => 0
  | .running => 1
  | _ => 2

/-- An illegal state transition; `kind` is `"jobrun"` or `"workflowrun"`. -/
structure TransitionError where
  kind : String
  fromStatus : String
  toStatus : String
deriving DecidableEq, Repr

/-- Whether `src -> dst` is a legal transition. Terminal states are sticky. -/
def canTransitionJob (src dst : JobRunStatus) : Bool :=
  if src.isTerminal then false
  else match dst with
    | .cancelled | .skipped => true
    | .dispatched => src == .queued
    | .running => src == .dispatched || src == .running
    | .succeeded | .failed => src == .dispatched || src == .running
    | .queued => false

/-- Validates `src -> dst` and returns `dst`, or a `TransitionError`. -/
def transitionJob (src dst : JobRunStatus) : Except TransitionError JobRunStatus :=
  if canTransitionJob src dst then .ok dst
  else .error { kind := "jobrun", fromStatus := src.text, toStatus := dst.text }

/-- Whether `src -> dst` is a forward step. Cancellation is an intent, no observation. -/
def canAdvanceJob (src dst : JobRunStatus) : Bool :=
  if dst == .cancelled then false
  else if src == dst then true
  else jobRank dst > jobRank src

/-- Whether `src -> dst` is forward-only for monotonic run updates. -/
def canAdvanceRun (src dst : WorkflowRunStatus) : Bool :=
  if src == dst then true
  else if src.isTerminal then false
  else if dst.isTerminal then true
  else runRank dst > runRank src

/-- The accumulators of the loop of `AggregateRunStatus`. -/
structure Tally where
  running : Bool
  started : Bool
  allTerminal : Bool
  anyFailed : Bool
  anyCancelled : Bool
  anySucceeded : Bool
  anySkipped : Bool
deriving DecidableEq, Repr

namespace Tally

/-- No job is counted. -/
def init : Tally where
  running := false
  started := false
  allTerminal := true
  anyFailed := false
  anyCancelled := false
  anySucceeded := false
  anySkipped := false

/-- One more job is counted. -/
def add (t : Tally) : JobRunStatus → Tally
  | .running => { t with running := true, started := true, allTerminal := false }
  | .dispatched => { t with started := true, allTerminal := false }
  | .queued => { t with allTerminal := false }
  | .failed => { t with anyFailed := true }
  | .cancelled => { t with anyCancelled := true }
  | .skipped => { t with anySkipped := true }
  | .succeeded => { t with anySucceeded := true }

end Tally

/-- The WorkflowRun status. A non-terminal job keeps the run open; terminal ones aggregate worst-first. -/
def aggregateRunStatus (jobs : List JobRunStatus) : WorkflowRunStatus :=
  let t := jobs.foldl Tally.add Tally.init
  if jobs.isEmpty then .queued
  else if t.running then .running
  else if !t.allTerminal then
    -- only queued and dispatched jobs remain: dispatched counts as started
    if t.started then .running else .queued
  else if t.anyFailed then .failed
  else if t.anyCancelled then .cancelled
  else if t.anySucceeded || t.anySkipped then .succeeded
  else .queued

end Forgelet
