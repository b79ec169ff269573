import Forgelet.Postgres.Store
import Forgelet.Store.Memory

/-!
# The PostgreSQL store: CreateRun and RerequestJob

The transactions of `internal/storage/postgres/store.go` that create jobs, statement by statement, under READ
COMMITTED, with the primary keys, `UNIQUE` on `workflow_runs.delivery_id` and the reference from `job_runs.run_id` of
`schema.go`. An `INSERT` whose key is visible aborts the transaction, and one whose key another transaction has
inserted waits for its end.
-/

namespace Forgelet.Postgres.Creation

open ReadCommitted

/-- The tables, the unique index on `workflow_runs.delivery_id`, and the count of minted ids. -/
structure Db where
  deliveries : Table DeliveryKey DeliveryRecord
  workflowRuns : Table RunID RunRecord
  deliveryIDs : Table String RunID
  jobRuns : Table JobRunID JobRow
  minted : Nat

/-- A call of the store, with its arguments. -/
inductive Op
  | createRun (seed : RunSeed) (now : Time)
  | rerequestJob (id : JobRunID) (now : Time)
deriving DecidableEq

/-- What a transaction returns. -/
inductive Reply
  | run (run : RunRecord) (created : Bool)
  | attempt (id : JobRunID)
deriving DecidableEq

/-- The next statement of a transaction, with the local variables it uses. -/
inductive Point
  /-- the first `SELECT` -/
  | first
  /-- `CreateRun`: the `SELECT` of the run that the delivery is bound to -/
  | getRun (id : RunID)
  /-- `CreateRun`: the `INSERT` of the run -/
  | insertRun (run : RunRecord)
  /-- `CreateRun`: the loop over the jobs of the seed -/
  | insertJobs (run : RunRecord) (todo : List JobIntent)
  /-- `CreateRun`: the `UPDATE` of the delivery -/
  | bindDelivery (run : RunRecord)
  | commitRun (run : RunRecord) (created : Bool)
  /-- `RerequestJob`: the `SELECT` of the next attempt -/
  | findNext (orig : JobRunRecord)
  /-- `RerequestJob`: the `INSERT` of the next attempt -/
  | insertNext (newID : JobRunID) (orig : JobRunRecord)
  /-- `RerequestJob`: the `SELECT .. FOR UPDATE` of the run -/
  | lockRun (newID : JobRunID) (orig : JobRunRecord)
  /-- `RerequestJob`: the `UPDATE` of the run -/
  | reopenRun (newID : JobRunID) (orig : JobRunRecord)
  | commitNext (newID : JobRunID) (orig : JobRunRecord)
  | returned (result : Except Err Reply)
deriving DecidableEq

/-- A transaction in flight. -/
structure Tx where
  op : Op
  point : Point
  deliveries : Access DeliveryKey DeliveryRecord
  runs : Access RunID RunRecord
  deliveryIDs : Access String RunID
  jobs : Access JobRunID JobRow

/-- A transaction after `Begin`. -/
def Tx.begin (op : Op) : Tx where
  op := op
  point := .first
  deliveries := .nothing
  runs := .nothing
  deliveryIDs := .nothing
  jobs := .nothing

/-- The transaction has returned: nothing of it is left. -/
def Tx.ended (tx : Tx) (result : Except Err Reply) : Tx where
  op := tx.op
  point := .returned result
  deliveries := .nothing
  runs := .nothing
  deliveryIDs := .nothing
  jobs := .nothing

/-- `Commit`, then the return. -/
def commit (db : Db) (tx : Tx) (reply : Reply) : Db × Tx :=
  ({ db with
      deliveries := db.deliveries.commit tx.deliveries
      workflowRuns := db.workflowRuns.commit tx.runs
      deliveryIDs := db.deliveryIDs.commit tx.deliveryIDs
      jobRuns := db.jobRuns.commit tx.jobs }, tx.ended (.ok reply))

/-- A return before `Commit`, after which the deferred `Rollback` runs. -/
def rollback (db : Db) (tx : Tx) (result : Except Err Reply) : Db × Tx :=
  ({ db with
      deliveries := db.deliveries.release tx.deliveries
      workflowRuns := db.workflowRuns.release tx.runs
      deliveryIDs := db.deliveryIDs.release tx.deliveryIDs
      jobRuns := db.jobRuns.release tx.jobs }, tx.ended result)

/-- The error of a statement that violates a `UNIQUE` constraint or a primary key. -/
def uniqueViolation (constraint : String) : Err :=
  .errorf ("ERROR: duplicate key value violates unique constraint \"" ++ constraint ++ "\" (SQLSTATE 23505)")

/-- The error of an `INSERT` that refers to a row that is not there. -/
def foreignKeyViolation : Err :=
  .errorf ("ERROR: insert or update on table \"job_runs\" violates foreign key constraint " ++
    "\"job_runs_run_id_fkey\" (SQLSTATE 23503)")

/-- `INSERT INTO workflow_runs`. -/
def insertRun (db : Db) (tx : Tx) (run : RunRecord) (next : Point) : Option (Db × Tx) :=
  let refuse (constraint : String) : Option (Db × Tx) :=
    some (rollback db tx (.error (.wrap "postgres: insert run: " (uniqueViolation constraint) "")))
  let deliveryID := run.delivery.deliveryID
  if ((db.workflowRuns.visible tx.runs).lookup run.id).isSome then refuse "workflow_runs_pkey"
  else if ¬db.workflowRuns.Free tx.runs run.id then none
  else if ((db.deliveryIDs.visible tx.deliveryIDs).lookup deliveryID).isSome then
    refuse "workflow_runs_delivery_id_key"
  else if ¬db.deliveryIDs.Free tx.deliveryIDs deliveryID then none
  else
    some ({ db with
        workflowRuns := db.workflowRuns.lock tx.runs run.id
        deliveryIDs := db.deliveryIDs.lock tx.deliveryIDs deliveryID },
      { tx with
        point := next
        runs := (tx.runs.lock run.id).write run.id run
        deliveryIDs := (tx.deliveryIDs.lock deliveryID).write deliveryID run.id })

/-- `INSERT INTO job_runs`; `what` is the text of its error. -/
def insertJob (db : Db) (tx : Tx) (row : JobRow) (what : String) (next : Point) : Option (Db × Tx) :=
  let refuse (err : Err) : Option (Db × Tx) := some (rollback db tx (.error (.wrap what err "")))
  if ((db.jobRuns.visible tx.jobs).lookup row.id).isSome then refuse (uniqueViolation "job_runs_pkey")
  else if ¬db.jobRuns.Free tx.jobs row.id then none
  else if ((db.workflowRuns.visible tx.runs).lookup row.runID).isNone then refuse foreignKeyViolation
  else
    some ({ db with jobRuns := db.jobRuns.lock tx.jobs row.id },
      { tx with point := next, jobs := (tx.jobs.lock row.id).write row.id row })

/-- One more id is used. -/
def mint (db : Db) : Db := { db with minted := db.minted + 1 }

/-- The record of a run that is made for a delivery. -/
def newRun (id : RunID) (seed : RunSeed) (now : Time) : RunRecord where
  id := id
  event := seed.event
  delivery := seed.delivery
  status := .queued
  createdAt := now
  finishedAt := none

/-- The delivery is bound to a run: `existing != nil && *existing != ""`. -/
def boundTo (record : DeliveryRecord) : Option RunID := record.runID.filter fun id => id ≠ ""

/-- The delivery is read, and its run if it has one. -/
def selectDelivery (ids : IDSource) (db : Db) (tx : Tx) (seed : RunSeed) (now : Time) : Db × Tx :=
  match (db.deliveries.visible tx.deliveries).lookup seed.delivery with
  | none => rollback db tx (.error (.errorf ("postgres: delivery " ++ seed.delivery.text ++ " not recorded")))
  | some record =>
    match boundTo record with
    | some id => (db, { tx with point := .getRun id })
    | none =>
      if seed.jobs = [] then
        rollback db tx (.error (.errorf ("postgres: run for delivery " ++ seed.delivery.text ++ " has no jobs")))
      else (mint db, { tx with point := .insertRun (newRun (ids.mint db.minted) seed now) })

/-- `runIn`. -/
def getRun (db : Db) (tx : Tx) (id : RunID) : Db × Tx :=
  match (db.workflowRuns.visible tx.runs).lookup id with
  | none => rollback db tx (.error .errRunNotFound)
  | some run => (db, { tx with point := .commitRun run false })

/-- The row of a job of a new run. -/
def newJob (id : JobRunID) (runID : RunID) (intent : JobIntent) (now : Time) : JobRow where
  toJobRunRecord := DurableStore.newJob id runID intent now
  claimedAt := none

/-- `UPDATE webhook_deliveries SET run_id=.. WHERE .. AND run_id IS NULL`. -/
def bindDelivery (db : Db) (tx : Tx) (run : RunRecord) (key : DeliveryKey) : Option (Db × Tx) :=
  match (db.deliveries.visible tx.deliveries).lookup key with
  | none => some (db, { tx with point := .commitRun run true })
  | some record =>
    if record.runID.isSome then some (db, { tx with point := .commitRun run true })
    else if db.deliveries.Free tx.deliveries key then
      some ({ db with deliveries := db.deliveries.lock tx.deliveries key },
        { tx with
          point := .commitRun run true
          deliveries := (tx.deliveries.lock key).write key { record with runID := some run.id } })
    else none

/-- `jobIn`. -/
def selectJob (db : Db) (tx : Tx) (id : JobRunID) : Db × Tx :=
  match (db.jobRuns.visible tx.jobs).lookup id with
  | none => rollback db tx (.error .errJobRunNotFound)
  | some row => (db, { tx with point := .findNext row.toJobRunRecord })

/-- The row is the next attempt of the job. -/
def IsNext (orig : JobRunRecord) (row : JobRow) : Prop :=
  row.runID = orig.runID ∧ row.jobKey = orig.jobKey ∧ row.attempt = orig.attempt + 1

instance (orig : JobRunRecord) : DecidablePred (IsNext orig) := fun _ => inferInstanceAs (Decidable (_ ∧ _ ∧ _))

/-- The `SELECT` of the next attempt. If there is one, its id is returned. -/
def findNext (ids : IDSource) (db : Db) (tx : Tx) (orig : JobRunRecord) : Db × Tx :=
  match ((db.jobRuns.visible tx.jobs).entries.map (·.2)).find? fun row => IsNext orig row with
  | some row => rollback db tx (.ok (.attempt row.id))
  | none => (mint db, { tx with point := .insertNext (ids.mint db.minted) orig })

/-- The row of the next attempt. -/
def nextJob (newID : JobRunID) (orig : JobRunRecord) (now : Time) : JobRow where
  toJobRunRecord := DurableStore.nextAttempt newID orig now
  claimedAt := none

/-- The `SELECT .. FOR UPDATE` of the run, whose error is dropped. -/
def lockRun (db : Db) (tx : Tx) (newID : JobRunID) (orig : JobRunRecord) : Option (Db × Tx) :=
  match (db.workflowRuns.visible tx.runs).lookup orig.runID with
  | none => some (db, { tx with point := .commitNext newID orig })
  | some run =>
    if db.workflowRuns.Free tx.runs orig.runID then
      some ({ db with workflowRuns := db.workflowRuns.lock tx.runs orig.runID },
        { tx with
          point := if run.status.isTerminal then .reopenRun newID orig else .commitNext newID orig
          runs := tx.runs.lock orig.runID })
    else none

/-- The `UPDATE` of a run that is reopened. -/
def reopenRun (db : Db) (tx : Tx) (newID : JobRunID) (orig : JobRunRecord) : Option (Db × Tx) :=
  match (db.workflowRuns.visible tx.runs).lookup orig.runID with
  | none => some (db, { tx with point := .commitNext newID orig })
  | some run =>
    if db.workflowRuns.Free tx.runs orig.runID then
      some ({ db with workflowRuns := db.workflowRuns.lock tx.runs orig.runID },
        { tx with
          point := .commitNext newID orig
          runs := (tx.runs.lock orig.runID).write orig.runID
            { run with status := .queued, finishedAt := none } })
    else none

/-- The next statement of a transaction, `none` while it waits for a lock. -/
def exec (ids : IDSource) (db : Db) (tx : Tx) : Option (Db × Tx) :=
  match tx.point, tx.op with
  | .first, .createRun seed now => some (selectDelivery ids db tx seed now)
  | .getRun id, .createRun _ _ => some (getRun db tx id)
  | .insertRun run, .createRun seed _ => insertRun db tx run (.insertJobs run seed.jobs)
  | .insertJobs run [], .createRun _ _ => some (db, { tx with point := .bindDelivery run })
  | .insertJobs run (intent :: rest), .createRun _ now =>
    insertJob (mint db) tx (newJob (ids.mint db.minted) run.id intent now) "postgres: insert job: "
      (.insertJobs run rest)
  | .bindDelivery run, .createRun seed _ => bindDelivery db tx run seed.delivery
  | .commitRun run created, .createRun _ _ => some (commit db tx (.run run created))
  | .first, .rerequestJob id _ => some (selectJob db tx id)
  | .findNext orig, .rerequestJob _ _ => some (findNext ids db tx orig)
  | .insertNext newID orig, .rerequestJob _ now =>
    insertJob db tx (nextJob newID orig now) "postgres: insert rerequest: " (.lockRun newID orig)
  | .lockRun newID orig, .rerequestJob _ _ => lockRun db tx newID orig
  | .reopenRun newID orig, .rerequestJob _ _ => reopenRun db tx newID orig
  | .commitNext newID _, .rerequestJob _ _ => some (commit db tx (.attempt newID))
  | _, _ => none

/-- A transaction runs its next statement or fails at it. -/
inductive TxStep (ids : IDSource) (db : Db) (tx : Tx) : Db → Tx → Prop
  | exec {db' : Db} {tx' : Tx} (h : exec ids db tx = some (db', tx')) : TxStep ids db tx db' tx'
  | fail (err : Err) (h : ∀ r, tx.point ≠ .returned r) :
      TxStep ids db tx (rollback db tx (.error err)).1 (rollback db tx (.error err)).2

/-- The transactions of CreateRun and RerequestJob start at any time. -/
def Begins (tx : Tx) : Prop := ∃ op, tx = .begin op

/-- One of the first `n` ids. -/
def Minted (ids : IDSource) (n : Nat) (id : String) : Prop := ∃ m < n, ids.mint m = id

/-- There is at most one row for each run, job key and attempt. -/
def OneRowPerAttempt (db : Db) : Prop :=
  ∀ id id' row row', db.jobRuns.rows.lookup id = some row → db.jobRuns.rows.lookup id' = some row' →
    row.runID = row'.runID → row.jobKey = row'.jobKey → row.attempt = row'.attempt → id = id'

/-- RerequestJob between its check for the next attempt and its end: the job. -/
def Tx.creatingNext (tx : Tx) : Option JobRunRecord :=
  match tx.point with
  | .insertNext _ orig | .lockRun _ orig | .reopenRun _ orig | .commitNext _ orig => some orig
  | _ => none

/-- The transactions create attempts of different jobs, or different attempts. -/
def OtherAttempt (orig other : JobRunRecord) : Prop :=
  ¬(orig.runID = other.runID ∧ orig.jobKey = other.jobKey ∧ orig.attempt = other.attempt)

instance (orig other : JobRunRecord) : Decidable (OtherAttempt orig other) :=
  inferInstanceAs (Decidable (¬(_ ∧ _ ∧ _)))

/-- Where CreateRun is inserting jobs: the seed. -/
def Tx.inserting (tx : Tx) : Option RunSeed :=
  match tx.point, tx.op with
  | .insertJobs _ _, .createRun seed _ => some seed
  | _, _ => none

/-- Where RerequestJob is about to check for the next attempt: the job. -/
def Tx.checking (tx : Tx) : Option JobRunRecord :=
  match tx.point with
  | .findNext orig => some orig
  | _ => none

/-- Seeds have distinct keys, and no two RerequestJob are past their check for one job. -/
def Separate (c : Interleaving.Config Db Tx) (tx : Tx) : Prop :=
  (∀ seed ∈ tx.inserting, (seed.jobs.map (·.jobKey)).Nodup) ∧
    ∀ orig ∈ tx.checking, ∀ other ∈ c.procs, ∀ orig' ∈ other.creatingNext, OtherAttempt orig orig'

instance (c : Interleaving.Config Db Tx) (tx : Tx) : Decidable (Separate c tx) :=
  inferInstanceAs (Decidable (_ ∧ _))

/-- The transaction begins to create a run. -/
def Creates (tx : Tx) : Prop := ∃ seed now, tx = .begin (.createRun seed now)

/-- The calls run their statements and none fails from outside. -/
def Runs (ids : IDSource) (db : Db) (tx : Tx) (db' : Db) (tx' : Tx) : Prop := exec ids db tx = some (db', tx')

/-- The delivery that a run is created for. -/
def Tx.delivery (tx : Tx) : Option DeliveryKey :=
  match tx.op with
  | .createRun seed _ => some seed.delivery
  | .rerequestJob _ _ => none

/-- The run that a transaction is creating, from its first `SELECT` to the commit. -/
def Tx.creating (tx : Tx) : Option RunRecord :=
  match tx.point with
  | .insertRun run | .insertJobs run _ | .bindDelivery run | .commitRun run true => some run
  | _ => none

/-- A seed with jobs, for whose delivery id no run is there or being created. -/
def Creatable (c : Interleaving.Config Db Tx) (seed : RunSeed) : Prop :=
  seed.jobs ≠ [] ∧ (c.shared.deliveryIDs.rows.lookup seed.delivery.deliveryID).isNone ∧
    ∀ other ∈ c.procs, ∀ run ∈ other.creating, run.delivery.deliveryID ≠ seed.delivery.deliveryID

instance (c : Interleaving.Config Db Tx) (seed : RunSeed) : Decidable (Creatable c seed) :=
  inferInstanceAs (Decidable (_ ∧ _ ∧ _))

/-- Where CreateRun is about to select the delivery: the seed. -/
def Tx.selecting (tx : Tx) : Option RunSeed :=
  match tx.point, tx.op with
  | .first, .createRun seed _ => some seed
  | _, _ => none

/-- CreateRun selects a delivery that is recorded, and bound to a run or creatable. -/
def Ready (c : Interleaving.Config Db Tx) (tx : Tx) : Prop :=
  ∀ seed ∈ tx.selecting, ∃ record ∈ c.shared.deliveries.rows.lookup seed.delivery,
    (boundTo record).isSome ∨ Creatable c seed

instance (c : Interleaving.Config Db Tx) (tx : Tx) : Decidable (Ready c tx) :=
  inferInstanceAs (Decidable (∀ seed ∈ tx.selecting, _))

/-- Nothing is locked, ids were minted, and a bound delivery has its run. -/
structure Consistent (ids : IDSource) (db : Db) : Prop where
  unlocked : db.deliveries.locked = [] ∧ db.workflowRuns.locked = [] ∧ db.deliveryIDs.locked = [] ∧
    db.jobRuns.locked = []
  runs : ∀ id run, db.workflowRuns.rows.lookup id = some run → Minted ids db.minted id
  jobs : ∀ id row, db.jobRuns.rows.lookup id = some row → Minted ids db.minted id
  bound : ∀ key record id, db.deliveries.rows.lookup key = some record → record.runID = some id →
    ∃ run, db.workflowRuns.rows.lookup id = some run ∧ run.id = id ∧ run.delivery = key

end Forgelet.Postgres.Creation
