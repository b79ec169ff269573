import Forgelet.Scheduler.Port

/-!
# Check reports

How the state of a job is shown at a provider (`internal/report/report.go`): a check for each job, and the mapping
from the durable status to the status and the conclusion of the check.
-/

namespace Forgelet.Report

/-- The status of a check. -/
inductive CheckStatus
  | queued
  | inProgress
  | completed
deriving DecidableEq, Repr

/-- The status as GitHub spells it. -/
def CheckStatus.text : CheckStatus → String
  | queued => "queued"
  | inProgress => "in_progress"
  | completed => "completed"

/-- The conclusion of a completed check. -/
inductive CheckConclusion
  | success
  | failure
  | cancelled
  | skipped
deriving DecidableEq, Repr

/-- The conclusion as GitHub spells it. -/
def CheckConclusion.text : CheckConclusion → String
  | success => "success"
  | failure => "failure"
  | cancelled => "cancelled"
  | skipped => "skipped"

/-- A reportable state of a job; an empty conclusion is `none`. -/
structure Check where
  runID : RunID
  jobRunID : JobRunID
  name : String
  externalID : String
  detailsURL : String
  status : CheckStatus
  conclusion : Option CheckConclusion
  startedAt : Option Time
  completedAt : Option Time
deriving DecidableEq

/-- The conclusion, empty while there is none. -/
def Check.conclusionText (c : Check) : String := (c.conclusion.map CheckConclusion.text).getD ""

/-- `MapJobRun` builds the check for the durable record of a job. -/
def mapJobRun (job : JobRunRecord) (detailsBase : String) : Except Err Check :=
  if job.jobKey = "" then .error (.errorf ("report: job " ++ job.id ++ " has empty job key"))
  else
    let c : Check :=
      { runID := job.runID
        jobRunID := job.id
        name := job.jobKey
        externalID := job.id
        detailsURL := detailsBase ++ "/runs/" ++ job.runID ++ "/jobs/" ++ job.jobKey
        status := .queued
        conclusion := none
        startedAt := job.startedAt
        completedAt := none }
    match job.status with
    | .queued => .ok { c with status := .queued }
    | .dispatched | .running => .ok { c with status := .inProgress }
    | .succeeded =>
      .ok { c with status := .completed, conclusion := some .success, completedAt := job.finishedAt }
    | .failed => .ok { c with status := .completed, conclusion := some .failure, completedAt := job.finishedAt }
    | .cancelled =>
      .ok { c with status := .completed, conclusion := some .cancelled, completedAt := job.finishedAt }
    | .skipped => .ok { c with status := .completed, conclusion := some .skipped }

end Forgelet.Report
