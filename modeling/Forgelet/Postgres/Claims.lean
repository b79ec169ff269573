import Forgelet.Postgres.Store
import Forgelet.Store.Memory

/-!
# The PostgreSQL store: claims

ClaimNextQueuedJob and ReleaseClaim (`internal/storage/postgres/store.go`), and the transactions of
`Forgelet.Postgres.Store` once more, each as one function of the committed rows, for transactions that run one after
the other. A claim is a time stamp in the row of the job, a lease without an owner; `Sessions` keeps account of who
took it.
-/

namespace Forgelet.Postgres

/-- `claimLease` in microseconds, the steps in which PostgreSQL keeps a time stamp; so are all times of this store. -/
def claimLease : Time := 5 * 60 * 1000000

/-- The committed rows of `job_runs` and `workflow_runs`. -/
structure Rows where
  jobRuns : GoMap JobRunID JobRow
  workflowRuns : GoMap RunID RunRecord
deriving DecidableEq

namespace Rows

/-- `UPDATE job_runs SET .. WHERE id=..`. -/
def updateJob (t : Rows) (id : JobRunID) (set : JobRow → JobRow) : Rows :=
  match t.jobRuns.lookup id with
  | none => t
  | some row => { t with jobRuns := t.jobRuns.insert id (set row) }

/-- `UPDATE workflow_runs SET .. WHERE id=..`. -/
def updateRun (t : Rows) (id : RunID) (set : RunRecord → RunRecord) : Rows :=
  match t.workflowRuns.lookup id with
  | none => t
  | some run => { t with workflowRuns := t.workflowRuns.insert id (set run) }

/-- The jobs of a run, in the order of the table. -/
def jobsOf (t : Rows) (runID : RunID) : List JobRow :=
  (t.jobRuns.entries.map (·.2)).filter fun row => row.runID = runID

/-- The aggregate of the run of a job, computed anew. -/
def refreshRun (t : Rows) (id : JobRunID) (now : Time) : Except Err Rows :=
  match t.jobRuns.lookup id with
  | none => .error (.wrap "postgres: job run: " (.errorf "no rows in result set") "")
  | some row =>
    let next := aggregateRunStatus ((t.jobsOf row.runID).map (·.status))
    match t.workflowRuns.lookup row.runID with
    | none => .error (.wrap "postgres: lock run: " (.errorf "no rows in result set") "")
    | some run =>
      if canAdvanceRun run.status next = false ∨ next = run.status then .ok t
      else
        let finished := if next.isTerminal && run.finishedAt.isNone then some now else run.finishedAt
        .ok (t.updateRun row.runID (setRun next finished))

/-! ## ClaimNextQueuedJob -/

/-- The condition of the `SELECT` of ClaimNextQueuedJob. -/
def claimable (row : JobRow) (now : Time) : Bool :=
  row.status = .queued &&
    match row.claimedAt with
    | none => true
    | some claimedAt => claimedAt < now - claimLease

/-- The `SELECT` of ClaimNextQueuedJob. -/
def claimSelect (t : Rows) (now : Time) : List JobRunID :=
  (((t.jobRuns.entries.map (·.2)).filter (claimable · now)).insertionSort fun a b =>
    DurableStore.QueueLE a.toJobRunRecord b.toJobRunRecord).map (·.id)

/-- The statuses of the latest attempts of the jobs that a job depends on. -/
def depStatuses (t : Rows) (job : JobRow) : List JobRunStatus :=
  let named := (t.jobsOf job.runID).filter fun row => row.jobKey ∈ job.dependsOn
  (named.filter fun row => named.all fun other => other.jobKey ≠ row.jobKey || other.attempt ≤ row.attempt).map
    (·.status)

/-- The loop of `depState` over the statuses. -/
def depLoop (state : DepState) : List JobRunStatus → DepState
  | [] => state
  | status :: rest =>
    if status = .succeeded then depLoop state rest
    else if status.isTerminal then .depsFailed
    else depLoop .depsBlocked rest

/-- The gate of a queued job. -/
def depState (t : Rows) (id : JobRunID) : DepState :=
  match t.jobRuns.lookup id with
  | none => .depsReady
  | some job =>
    if job.dependsOn = [] then .depsReady
    else if (t.depStatuses job).length ≠ job.dependsOn.length then .depsBlocked
    else depLoop .depsReady (t.depStatuses job)

/-- The columns that a skip sets, if the job is queued. -/
def setSkipped (now : Time) (row : JobRow) : JobRow :=
  if row.status = .queued then { row with status := .skipped, finishedAt := some now } else row

/-- The job is claimed. -/
def setClaimed (now : Time) (row : JobRow) : JobRow := { row with claimedAt := some now }

/-- The job has a condition of its own. -/
def conditional (t : Rows) (id : JobRunID) : Bool :=
  match t.jobRuns.lookup id with
  | none => false
  | some job => job.condition ≠ ""

/-- The loop of ClaimNextQueuedJob: the job it claims, if any, and the rows. -/
def claimLoop (now : Time) (t : Rows) : List JobRunID → Except Err (Option JobRunRecord × Rows)
  | [] => .ok (none, t)
  | id :: rest =>
    let claim : Except Err (Option JobRunRecord × Rows) :=
      match t.jobRuns.lookup id with
      | none => claimLoop now t rest
      | some row =>
        if row.status = .queued then .ok (some row.toJobRunRecord, t.updateJob id (setClaimed now))
        else claimLoop now t rest
    match t.depState id with
    | .depsBlocked => claimLoop now t rest
    | .depsFailed =>
      if t.conditional id then claim
      else
        match (t.updateJob id (setSkipped now)).refreshRun id now with
        | .error err => .error err
        | .ok t => claimLoop now t rest
    | .depsReady => claim

/-- ClaimNextQueuedJob reads the clock before the `SELECT` and after it. -/
def claimNextQueuedJob (t : Rows) (selectedAt now : Time) : Except Err JobRunRecord × Rows :=
  match claimLoop now t (t.claimSelect selectedAt) with
  | .error err => (.error err, t)
  | .ok (none, t) => (.error .errNoQueuedJob, t)
  | .ok (some job, t) => (.ok job, t)

/-- `ReleaseClaim`, whoever calls it. -/
def releaseClaim (t : Rows) (id : JobRunID) : Rows := t.updateJob id fun row => { row with claimedAt := none }

/-! ## AckDispatched, ApplyObserved and CancelRun -/

/-- `AckDispatched`. -/
def ackDispatched (t : Rows) (id : JobRunID) (obj : ActiveObject) (now : Time) : Except Err Unit × Rows :=
  match t.jobRuns.lookup id with
  | none => (.error .errJobRunNotFound, t)
  | some row =>
    let job := row.toJobRunRecord
    let refuse : Except Err Unit × Rows :=
      (.error (.wrap "" .errJobNotDispatchable (": " ++ id ++ " in status " ++ job.status.text)), t)
    match job.status with
    | .dispatched =>
      if job.activeName ≠ "" ∧ job.activeName ≠ obj.name then
        (.error (.errorf ("postgres: " ++ id ++ " already dispatched as " ++ job.activeName ++
          ", refusing " ++ obj.name)), t)
      else (.ok (), t.updateJob id (setAck job obj now))
    | .queued =>
      match transitionJob job.status .dispatched with
      | .error _ => refuse
      | .ok next => (.ok (), t.updateJob id (setAck { job with status := next } obj now))
    | _ => refuse

/-- ApplyObserved: the projection onto the job. -/
def observeJob (t : Rows) (id : JobRunID) (phase : ObservedPhase) (now : Time) (job : JobRunRecord) : Rows :=
  if job.status.isTerminal then t
  else
    match jobStatusFromPhase phase with
    | none => t
    | some target =>
      if canAdvanceJob job.status target then t.updateJob id (setObserved (observe job target now)) else t

/-- `ApplyObserved`. -/
def applyObserved (t : Rows) (id : JobRunID) (phase : ObservedPhase) (now : Time) : Except Err Unit × Rows :=
  match t.jobRuns.lookup id with
  | none => (.error .errJobRunNotFound, t)
  | some row =>
    match (t.observeJob id phase now row.toJobRunRecord).refreshRun id now with
    | .error err => (.error err, t)
    | .ok t => (.ok (), t)

/-- The open jobs of a run are cancelled. -/
def cancelJobs (now : Time) (t : Rows) : List JobRunRecord → Rows
  | [] => t
  | job :: rest =>
    match transitionJob job.status .cancelled with
    | .error _ => cancelJobs now t rest
    | .ok next => cancelJobs now (t.updateJob job.id (setCancelled next now)) rest

/-- `CancelRun`. -/
def cancelRun (t : Rows) (id : RunID) (now : Time) : Except Err Unit × Rows :=
  match t.workflowRuns.lookup id with
  | none => (.error .errRunNotFound, t)
  | some run =>
    if run.status.isTerminal then
      if run.status = .cancelled then (.ok (), t)
      else (.error (.errorf ("postgres: run " ++ id ++ " already terminal (" ++ run.status.text ++ ")")), t)
    else
      (.ok (), (t.cancelJobs now ((t.jobsOf id).map (·.toJobRunRecord))).updateRun id
        (setRun .cancelled (some now)))

/-- A whole transaction. -/
def transact (t : Rows) : Op → Except Err Unit × Rows
  | .ackDispatched id obj now => t.ackDispatched id obj now
  | .applyObserved id phase now => t.applyObserved id phase now
  | .cancelRun id now => t.cancelRun id now

end Rows

/-! ## Dispatchers -/

/-- A dispatcher, by number. -/
abbrev Dispatcher := Nat

/-- The clock of the transaction. -/
def Op.now : Op → Time
  | .ackDispatched _ _ now | .applyObserved _ _ now | .cancelRun _ now => now

/-- A transaction that is issued, with its dispatcher and readings of the clock. -/
inductive Event
  | claim (d : Dispatcher) (selectedAt now : Time)
  | release (d : Dispatcher) (id : JobRunID) (now : Time)
  | transact (op : Op)

/-- The first reading of the clock. -/
def Event.time : Event → Time
  | .claim _ selectedAt _ => selectedAt
  | .release _ _ now => now
  | .transact op => op.now

/-- The last reading of the clock. -/
def Event.last : Event → Time
  | .claim _ _ now => now
  | .release _ _ now => now
  | .transact op => op.now

/-- The rows with the last reading of the clock, the latest claims and the unreleased ones. -/
structure Sessions where
  rows : Rows
  clock : Time
  latest : GoMap JobRunID (Dispatcher × Time)
  own : GoMap (Dispatcher × JobRunID) Time
deriving DecidableEq

namespace Sessions

/-- Some rows, and no claim taken yet by one of the dispatchers. -/
def start (rows : Rows) (clock : Time) : Sessions where
  rows := rows
  clock := clock
  latest := ∅
  own := ∅

/-- The time stamp of the claim on a job. -/
def claimedAt (w : Sessions) (id : JobRunID) : Option Time :=
  (w.rows.jobRuns.lookup id).bind (·.claimedAt)

/-- The sessions after an event. -/
def after (w : Sessions) : Event → Sessions
  | .claim d selectedAt now =>
    match w.rows.claimNextQueuedJob selectedAt now with
    | (.error _, rows) => { w with rows := rows, clock := now }
    | (.ok job, rows) =>
      { rows := rows
        clock := now
        latest := w.latest.insert job.id (d, now)
        own := w.own.insert (d, job.id) now }
  | .release d id now =>
    { w with rows := w.rows.releaseClaim id, clock := now, own := w.own.erase (d, id) }
  | .transact op => { w with rows := (w.rows.transact op).2, clock := op.now }

/-- The clock does not go back. -/
def Forward (w : Sessions) (e : Event) : Prop := w.clock ≤ e.time ∧ e.time ≤ e.last

instance (w : Sessions) (e : Event) : Decidable (w.Forward e) := inferInstanceAs (Decidable (_ ∧ _))

/-- A dispatcher other than `d` holds a claim on the job, within the lease. -/
def HeldByOther (w : Sessions) (d : Dispatcher) (id : JobRunID) (now : Time) : Prop :=
  ∃ holder ∈ w.latest.lookup id, holder.1 ≠ d ∧ w.claimedAt id = some holder.2 ∧ now ≤ holder.2 + claimLease

/-- The dispatcher has an unreleased claim on the job, within the lease. -/
def HasOwn (w : Sessions) (d : Dispatcher) (id : JobRunID) (now : Time) : Prop :=
  ∃ claimedAt ∈ w.own.lookup (d, id), now ≤ claimedAt + claimLease

/-- A claim is released in time, or while no other dispatcher holds one on the job. -/
def InLease (w : Sessions) : Event → Prop
  | .release d id now => w.HasOwn d id now ∨ ¬w.HeldByOther d id now
  | _ => True

/-- One transaction that is issued under the condition `ok`. -/
def Step (ok : Sessions → Event → Prop) (w w' : Sessions) : Prop :=
  ∃ e, w.Forward e ∧ ok w e ∧ w' = w.after e

/-- The states that transactions issued one after the other lead to. -/
def Reaches (ok : Sessions → Event → Prop) : Sessions → Sessions → Prop := Relation.ReflTransGen (Step ok)

end Sessions

/-- The transactions that may end a claim of `d` on the job `id`. -/
def MayClear (d : Dispatcher) (id : JobRunID) (row : JobRow) : Event → Prop
  | .release d' id' _ => d' = d ∧ id' = id
  | .transact (.ackDispatched id' _ _) => id' = id
  | .transact (.cancelRun r _) => r = row.runID
  | _ => False

end Forgelet.Postgres
