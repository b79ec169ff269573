import Forgelet.Lib.ReadCommitted
import Forgelet.Scheduler.Port

/-!
# The PostgreSQL store: AckDispatched, ApplyObserved and CancelRun

The transactions of `internal/storage/postgres/store.go` that move the statuses of jobs and runs, statement by
statement, under READ COMMITTED. A transaction is its operation, the point it has reached with its local values, and
its locks and uncommitted writes. `exec` runs its next statement, and is `none` while that waits for a lock.
-/

namespace Forgelet.Postgres

open ReadCommitted

/-- A row of `job_runs`. -/
structure JobRow extends JobRunRecord where
  claimedAt : Option Time
deriving DecidableEq

/-- The tables `job_runs` and `workflow_runs`. -/
structure Db where
  jobRuns : Table JobRunID JobRow
  workflowRuns : Table RunID RunRecord

/-- A call of the store, with its arguments. -/
inductive Op
  | ackDispatched (id : JobRunID) (obj : ActiveObject) (now : Time)
  | applyObserved (id : JobRunID) (phase : ObservedPhase) (now : Time)
  | cancelRun (id : RunID) (now : Time)
deriving DecidableEq, Repr

/-- The next statement of a transaction, with the local variables it uses. -/
inductive Point
  /-- the first `SELECT`, which takes no lock -/
  | first
  /-- the `UPDATE` of the job row with the changed record -/
  | updateJob (job : JobRunRecord)
  /-- `refreshRun`: the `SELECT` of the job's run -/
  | selectRunID
  /-- `refreshRun`: the `SELECT` of the statuses of the run's jobs -/
  | selectStatuses (runID : RunID)
  /-- `refreshRun`: the `SELECT .. FOR UPDATE` of the run, with the aggregate computed before -/
  | lockRun (runID : RunID) (next : WorkflowRunStatus)
  /-- `refreshRun`: the `UPDATE` of the run -/
  | updateRun (runID : RunID) (next : WorkflowRunStatus) (finished : Option Time)
  /-- `CancelRun`: the start of the `SELECT .. FOR UPDATE` of the run's jobs -/
  | selectJobs
  /-- `CancelRun`: the rows this `SELECT` has still to lock, and those it has -/
  | lockJobs (todo : List JobRunID) (jobs : List JobRunRecord)
  /-- `CancelRun`: the loop over the jobs -/
  | cancelJobs (jobs : List JobRunRecord)
  /-- `CancelRun`: the `UPDATE` of the run -/
  | updateCancelled
  | commit
  | returned (result : Except Err Unit)
deriving DecidableEq

/-- A transaction in flight. -/
structure Tx where
  op : Op
  point : Point
  jobs : Access JobRunID JobRow
  runs : Access RunID RunRecord

/-- A transaction after `Begin`. -/
def Tx.begin (op : Op) : Tx where
  op := op
  point := .first
  jobs := .nothing
  runs := .nothing

/-- `Commit`, then the return. -/
def commit (db : Db) (tx : Tx) : Db × Tx :=
  ({ jobRuns := db.jobRuns.commit tx.jobs, workflowRuns := db.workflowRuns.commit tx.runs },
    { tx with point := .returned (.ok ()), jobs := .nothing, runs := .nothing })

/-- The return of an error, after which the deferred `Rollback` runs. -/
def rollback (db : Db) (tx : Tx) (err : Err) : Db × Tx :=
  ({ jobRuns := db.jobRuns.release tx.jobs, workflowRuns := db.workflowRuns.release tx.runs },
    { tx with point := .returned (.error err), jobs := .nothing, runs := .nothing })

/-- `UPDATE job_runs SET .. WHERE id=..`: `none` while the row is locked. -/
def execUpdateJob (db : Db) (tx : Tx) (id : JobRunID) (set : JobRow → JobRow) (next : Point) :
    Option (Db × Tx) :=
  match (db.jobRuns.visible tx.jobs).lookup id with
  | none => some (db, { tx with point := next })
  | some row =>
    if db.jobRuns.Free tx.jobs id then
      some ({ db with jobRuns := db.jobRuns.lock tx.jobs id },
        { tx with point := next, jobs := (tx.jobs.lock id).write id (set row) })
    else none

/-- `UPDATE workflow_runs SET .. WHERE id=..`. -/
def execUpdateRun (db : Db) (tx : Tx) (id : RunID) (set : RunRecord → RunRecord) (next : Point) :
    Option (Db × Tx) :=
  match (db.workflowRuns.visible tx.runs).lookup id with
  | none => some (db, { tx with point := next })
  | some row =>
    if db.workflowRuns.Free tx.runs id then
      some ({ db with workflowRuns := db.workflowRuns.lock tx.runs id },
        { tx with point := next, runs := (tx.runs.lock id).write id (set row) })
    else none

/-- The first statement of `AckDispatched`. -/
def ackDispatched (db : Db) (tx : Tx) (id : JobRunID) (obj : ActiveObject) : Db × Tx :=
  match (db.jobRuns.visible tx.jobs).lookup id with
  | none => rollback db tx .errJobRunNotFound
  | some row =>
    let job := row.toJobRunRecord
    let refuse := rollback db tx
      (.wrap "" .errJobNotDispatchable (": " ++ id ++ " in status " ++ job.status.text))
    match job.status with
    | .dispatched =>
      if job.activeName ≠ "" ∧ job.activeName ≠ obj.name then
        rollback db tx (.errorf ("postgres: " ++ id ++ " already dispatched as " ++ job.activeName ++
          ", refusing " ++ obj.name))
      else (db, { tx with point := .updateJob job })
    | .queued =>
      match transitionJob job.status .dispatched with
      | .error _ => refuse
      | .ok next => (db, { tx with point := .updateJob { job with status := next } })
    | _ => refuse

/-- The update of `AckDispatched`. -/
def setAck (job : JobRunRecord) (obj : ActiveObject) (now : Time) (row : JobRow) : JobRow :=
  { row with
    status := job.status
    activeName := obj.name
    activeUID := obj.uid
    dispatchedAt := some now
    claimedAt := none }

/-- The record with an observed status. -/
def observe (job : JobRunRecord) (target : JobRunStatus) (now : Time) : JobRunRecord :=
  match target with
  | .running => { job with status := target, startedAt := some (job.startedAt.getD now) }
  | .succeeded | .failed | .skipped =>
    { job with
      status := target
      startedAt := some (job.startedAt.getD now)
      finishedAt := some (job.finishedAt.getD now) }
  | _ => { job with status := target }

/-- The first statement of `ApplyObserved`. -/
def applyObserved (db : Db) (tx : Tx) (id : JobRunID) (phase : ObservedPhase) (now : Time) : Db × Tx :=
  match (db.jobRuns.visible tx.jobs).lookup id with
  | none => rollback db tx .errJobRunNotFound
  | some row =>
    let job := row.toJobRunRecord
    if job.status.isTerminal then (db, { tx with point := .selectRunID })
    else
      match jobStatusFromPhase phase with
      | none => (db, { tx with point := .selectRunID })
      | some target =>
        if canAdvanceJob job.status target then
          (db, { tx with point := .updateJob (observe job target now) })
        else (db, { tx with point := .selectRunID })

/-- The update of `ApplyObserved`. -/
def setObserved (job : JobRunRecord) (row : JobRow) : JobRow :=
  { row with status := job.status, startedAt := job.startedAt, finishedAt := job.finishedAt }

/-- `refreshRun`: the `SELECT` of the job's run. -/
def selectRunID (db : Db) (tx : Tx) (id : JobRunID) : Db × Tx :=
  match (db.jobRuns.visible tx.jobs).lookup id with
  | none => rollback db tx (.wrap "postgres: job run: " (.errorf "no rows in result set") "")
  | some row => (db, { tx with point := .selectStatuses row.runID })

/-- The statuses of the jobs of a run, as the transaction sees them. -/
def statusesOf (db : Db) (tx : Tx) (runID : RunID) : List JobRunStatus :=
  (((db.jobRuns.visible tx.jobs).entries.map (·.2)).filter fun row => row.runID = runID).map (·.status)

/-- `refreshRun`: the `SELECT .. FOR UPDATE` of the run, and the decision. -/
def lockRun (db : Db) (tx : Tx) (runID : RunID) (next : WorkflowRunStatus) (now : Time) :
    Option (Db × Tx) :=
  match (db.workflowRuns.visible tx.runs).lookup runID with
  | none => some (rollback db tx (.wrap "postgres: lock run: " (.errorf "no rows in result set") ""))
  | some run =>
    if db.workflowRuns.Free tx.runs runID then
      let db := { db with workflowRuns := db.workflowRuns.lock tx.runs runID }
      let tx := { tx with runs := tx.runs.lock runID }
      if canAdvanceRun run.status next = false ∨ next = run.status then
        some (db, { tx with point := .commit })
      else
        let finished := if next.isTerminal && run.finishedAt.isNone then some now else run.finishedAt
        some (db, { tx with point := .updateRun runID next finished })
    else none

/-- The columns that `refreshRun` and CancelRun set. -/
def setRun (next : WorkflowRunStatus) (finished : Option Time) (row : RunRecord) : RunRecord :=
  { row with status := next, finishedAt := finished }

/-- The first statement of `CancelRun`. -/
def cancelRun (db : Db) (tx : Tx) (id : RunID) : Db × Tx :=
  match (db.workflowRuns.visible tx.runs).lookup id with
  | none => rollback db tx .errRunNotFound
  | some run =>
    if run.status.isTerminal then
      if run.status = .cancelled then (db, { tx with point := .commit })
      else rollback db tx
        (.errorf ("postgres: run " ++ id ++ " already terminal (" ++ run.status.text ++ ")"))
    else (db, { tx with point := .selectJobs })

/-- The rows that the `SELECT .. FOR UPDATE` of CancelRun finds when it starts. -/
def selectJobs (db : Db) (tx : Tx) (id : RunID) : List JobRunID :=
  ((db.jobRuns.visible tx.jobs).entries.filter fun e => e.2.runID = id).map (·.1)

/-- `SELECT .. FOR UPDATE` of CancelRun locks a row and returns it, if it is still of the run. -/
def lockJob (db : Db) (tx : Tx) (runID : RunID) (id : JobRunID) (todo : List JobRunID)
    (jobs : List JobRunRecord) : Option (Db × Tx) :=
  match (db.jobRuns.visible tx.jobs).lookup id with
  | none => some (db, { tx with point := .lockJobs todo jobs })
  | some row =>
    if db.jobRuns.Free tx.jobs id then
      let jobs := if row.runID = runID then jobs ++ [row.toJobRunRecord] else jobs
      some ({ db with jobRuns := db.jobRuns.lock tx.jobs id },
        { tx with point := .lockJobs todo jobs, jobs := tx.jobs.lock id })
    else none

/-- The update of `CancelRun`. -/
def setCancelled (next : JobRunStatus) (now : Time) (row : JobRow) : JobRow :=
  { row with status := next, finishedAt := some now, claimedAt := none }

/-- The next statement of a transaction. -/
def exec (db : Db) (tx : Tx) : Option (Db × Tx) :=
  match tx.point, tx.op with
  | .first, .ackDispatched id obj _ => some (ackDispatched db tx id obj)
  | .first, .applyObserved id phase now => some (applyObserved db tx id phase now)
  | .first, .cancelRun id _ => some (cancelRun db tx id)
  | .updateJob job, .ackDispatched id obj now => execUpdateJob db tx id (setAck job obj now) .commit
  | .updateJob job, .applyObserved id _ _ => execUpdateJob db tx id (setObserved job) .selectRunID
  | .selectRunID, .applyObserved id _ _ => some (selectRunID db tx id)
  | .selectStatuses runID, .applyObserved _ _ _ =>
    some (db, { tx with point := .lockRun runID (aggregateRunStatus (statusesOf db tx runID)) })
  | .lockRun runID next, .applyObserved _ _ now => lockRun db tx runID next now
  | .updateRun runID next finished, .applyObserved _ _ _ =>
    execUpdateRun db tx runID (setRun next finished) .commit
  | .selectJobs, .cancelRun id _ => some (db, { tx with point := .lockJobs (selectJobs db tx id) [] })
  | .lockJobs [] jobs, .cancelRun _ _ => some (db, { tx with point := .cancelJobs jobs })
  | .lockJobs (id :: todo) jobs, .cancelRun runID _ => lockJob db tx runID id todo jobs
  | .cancelJobs [], .cancelRun _ _ => some (db, { tx with point := .updateCancelled })
  | .cancelJobs (job :: rest), .cancelRun _ now =>
    match transitionJob job.status .cancelled with
    | .error _ => some (db, { tx with point := .cancelJobs rest })
    | .ok next => execUpdateJob db tx job.id (setCancelled next now) (.cancelJobs rest)
  | .updateCancelled, .cancelRun id now => execUpdateRun db tx id (setRun .cancelled (some now)) .commit
  | .commit, _ => some (commit db tx)
  | _, _ => none

/-- A transaction runs its next statement, or a statement of it fails. -/
inductive TxStep (db : Db) (tx : Tx) : Db → Tx → Prop
  | exec {db' : Db} {tx' : Tx} (h : exec db tx = some (db', tx')) : TxStep db tx db' tx'
  | fail (err : Err) (h : ∀ r, tx.point ≠ .returned r) :
      TxStep db tx (rollback db tx err).1 (rollback db tx err).2

/-- The transactions of AckDispatched, ApplyObserved and CancelRun start at any time. -/
def Begins (tx : Tx) : Prop := ∃ op, tx = .begin op

/-- The states that any number of transactions reach. -/
abbrev Reaches := Interleaving.Reaches Begins TxStep

end Forgelet.Postgres
