import Forgelet.Store.Memory

/-!
# The invariants of the in-memory store

What holds in every state the store can reach. The maps of the store are redundant: a run is found by its id, by its
delivery and through its jobs, a job by its id, in the list of its run and, as the latest attempt of its key, in the
by-key index. The structures below say that these views agree, and `Settled` that the status of a run is the one its
jobs imply.
-/

namespace Forgelet

/-- A job record as it was when the job was created. -/
def JobRunRecord.asCreated (j : JobRunRecord) : JobRunRecord :=
  { j with
    status := .queued
    activeName := ""
    activeUID := ""
    dispatchedAt := none
    startedAt := none
    finishedAt := none
    activeCollectedAt := none }

/-- What a run keeps from its creation. -/
def RunRecord.asCreated (run : RunRecord) : RunRecord :=
  { run with status := .queued, finishedAt := none }

namespace DurableStore

/-- The operations of the store that change it. -/
inductive StoreOp
  | recordDelivery (d : Delivery)
  | createRun (seed : RunSeed) (now : Time)
  | claimNextQueuedJob
  | releaseClaim (id : JobRunID)
  | ackDispatched (id : JobRunID) (obj : ActiveObject) (now : Time)
  | applyObserved (id : JobRunID) (phase : ObservedPhase) (now : Time)
  | cancelRun (id : RunID) (now : Time)
  | rerequestJob (id : JobRunID) (now : Time)
  | markCollected (id : JobRunID) (now : Time)

/-- The store after a call, whether the call succeeded or not. -/
def StoreOp.apply (W : Wiring) (s : DurableStore) : StoreOp → DurableStore
  | recordDelivery d => (s.recordDelivery W d).2
  | createRun seed now => (s.createRun W seed now).2
  | claimNextQueuedJob => (s.claimNextQueuedJob W).2
  | releaseClaim id => (s.releaseClaim id).2
  | ackDispatched id obj now => (s.ackDispatched id obj now).2
  | applyObserved id phase now => (s.applyObserved id phase now).2
  | cancelRun id now => (s.cancelRun id now).2
  | rerequestJob id now => (s.rerequestJob W id now).2
  | markCollected id now => (s.markCollected id now).2

/-- One operation. -/
def Step (W : Wiring) (s s' : DurableStore) : Prop := ∃ op : StoreOp, s' = op.apply W s

/-- The states a new store reaches by any sequence of calls. -/
def Reachable (W : Wiring) (s : DurableStore) : Prop := Relation.ReflTransGen (Step W) new s

/-- `s'` is `s` with the progress of jobs and runs rewritten. -/
structure Rewritten (s s' : DurableStore) : Prop where
  deliveries : s'.deliveries = s.deliveries
  runJobs : s'.runJobs = s.runJobs
  byJobKey : s'.byJobKey = s.byJobKey
  minted : s'.minted = s.minted
  jobs : ∀ id, (s'.jobs.lookup id).map (·.asCreated) = (s.jobs.lookup id).map (·.asCreated)
  runs : ∀ r, (s'.runs.lookup r).map (·.asCreated) = (s.runs.lookup r).map (·.asCreated)

/-- The records `CreateRun` writes for `intents` when the next id is the `n`-th. -/
def drafts (W : Wiring) (r : RunID) (now : Time) : Nat → List JobIntent → List JobRunRecord
  | _, [] => []
  | n, intent :: rest => newJob (W.ids.mint n) r intent now :: drafts W r now (n + 1) rest

/-- The store with `jobs` written to it. -/
def addJobs (s : DurableStore) : List JobRunRecord → DurableStore
  | [] => s
  | job :: rest => (s.setJob job.id job).addJobs rest

/-- A by-key index with the keys of `jobs` written to it. -/
def addKeys (keyIndex : GoMap String JobRunID) : List JobRunRecord → GoMap String JobRunID
  | [] => keyIndex
  | job :: rest => addKeys (keyIndex.insert job.jobKey job.id) rest

/-- The record of a run `CreateRun` creates in `s`. -/
def newRun (W : Wiring) (s : DurableStore) (seed : RunSeed) (now : Time) : RunRecord where
  id := W.ids.mint s.minted
  event := seed.event
  delivery := seed.delivery
  status := .queued
  createdAt := now
  finishedAt := none

/-- The records of the jobs `CreateRun` creates in `s` for `intents`. -/
def newJobs (W : Wiring) (s : DurableStore) (intents : List JobIntent) (now : Time) :
    List JobRunRecord :=
  drafts W (W.ids.mint s.minted) now (s.minted + 1) intents

/-- The store after the loop of `CreateRun` has written the jobs for `intents`. -/
def drafted (W : Wiring) (s : DurableStore) (intents : List JobIntent) (now : Time) : DurableStore :=
  { s with
    jobs := (s.addJobs (newJobs W s intents now)).jobs
    minted := s.minted + 1 + intents.length }

/-- The store after `CreateRun` has created a run for the delivery `record`. -/
def committed (W : Wiring) (s : DurableStore) (record : DeliveryRecord) (seed : RunSeed)
    (now : Time) : DurableStore :=
  { drafted W s seed.jobs now with
    runs := s.runs.insert (W.ids.mint s.minted) (newRun W s seed now)
    runJobs := s.runJobs.insert (W.ids.mint s.minted) ((newJobs W s seed.jobs now).map (·.id))
    byJobKey := s.byJobKey.insert (W.ids.mint s.minted) (addKeys ∅ (newJobs W s seed.jobs now))
    deliveries := s.deliveries.insert seed.delivery
      { record with runID := some (W.ids.mint s.minted) } }

/-- The store after `RerequestJob` has written and listed the next attempt of `orig`. -/
def appended (W : Wiring) (s : DurableStore) (orig : JobRunRecord) (now : Time) : DurableStore :=
  { s with
    minted := s.minted + 1
    jobs := s.jobs.insert (W.ids.mint s.minted) (nextAttempt (W.ids.mint s.minted) orig now)
    runJobs := s.runJobs.insert orig.runID (s.jobIDs orig.runID ++ [W.ids.mint s.minted]) }

/-- The store after `RerequestJob` has made the next attempt the latest. -/
def reattempted (W : Wiring) (s : DurableStore) (orig : JobRunRecord)
    (keyIndex : GoMap String JobRunID) (now : Time) : DurableStore :=
  ({ s.appended W orig now with
    byJobKey := s.byJobKey.insert orig.runID
      (keyIndex.insert orig.jobKey (W.ids.mint s.minted)) } : DurableStore).reopenRun orig.runID

/-- A run the store knows. -/
def Stored (s : DurableStore) (r : RunID) : Prop := ∃ run, s.runs.lookup r = some run

/-- Every id in use was minted, and every record is stored under its own id. -/
structure Minted (W : Wiring) (s : DurableStore) : Prop where
  job_id : ∀ {id j}, s.jobs.lookup id = some j → j.id = id
  job_minted : ∀ {id j}, s.jobs.lookup id = some j → ∃ n < s.minted, id = W.ids.mint n
  job_run_minted : ∀ {id j}, s.jobs.lookup id = some j → ∃ n < s.minted, j.runID = W.ids.mint n
  run_id : ∀ {r run}, s.runs.lookup r = some run → run.id = r
  run_minted : ∀ {r}, s.Stored r → ∃ n < s.minted, r = W.ids.mint n

/-- The lists of a run's jobs hold the jobs of the run. -/
structure Listing (s : DurableStore) : Prop where
  listed : ∀ {r id}, id ∈ s.jobIDs r → ∃ j, s.jobs.lookup id = some j ∧ j.runID = r
  nodup : ∀ r, (s.jobIDs r).Nodup
  complete : ∀ {r id j}, s.Stored r → s.jobs.lookup id = some j → j.runID = r → id ∈ s.jobIDs r
  nonempty : ∀ {r}, s.Stored r → s.jobIDs r ≠ []

/-- The by-key index holds the latest attempts, which are numbered from one without gap. -/
structure Indexing (s : DurableStore) : Prop where
  stored_iff : ∀ r, (s.byJobKey.lookup r).isSome ↔ s.Stored r
  latest : ∀ {r key id}, s.indexed r key = some id →
    ∃ j, s.jobs.lookup id = some j ∧ j.runID = r ∧ j.jobKey = key ∧
      ∀ id' j', s.jobs.lookup id' = some j' → j'.runID = r → j'.jobKey = key → j'.attempt ≤ j.attempt
  present : ∀ {id j}, s.Stored j.runID → s.jobs.lookup id = some j →
    (s.indexed j.runID j.jobKey).isSome
  attempt_unique : ∀ {id id' j j'}, s.Stored j.runID → s.jobs.lookup id = some j →
    s.jobs.lookup id' = some j' → j'.runID = j.runID → j'.jobKey = j.jobKey →
    j'.attempt = j.attempt → id' = id
  attempt_closed : ∀ {id j} (b : Nat), s.Stored j.runID → s.jobs.lookup id = some j → 1 ≤ b →
    b ≤ j.attempt → ∃ id' j', s.jobs.lookup id' = some j' ∧ j'.runID = j.runID ∧
      j'.jobKey = j.jobKey ∧ j'.attempt = b

/-- Deliveries and runs refer to each other. -/
structure Binding (s : DurableStore) : Prop where
  bound : ∀ {k rec r}, s.deliveries.lookup k = some rec → rec.runID = some r →
    ∃ run, s.runs.lookup r = some run ∧ run.delivery = k
  run_bound : ∀ {r run}, s.runs.lookup r = some run →
    ∃ rec, s.deliveries.lookup run.delivery = some rec ∧ rec.runID = some r

/-- The status of a run is as its jobs imply, and finish times are set at the end. -/
structure Settled (s : DurableStore) : Prop where
  run_terminal : ∀ {r run}, s.runs.lookup r = some run →
    (run.status.isTerminal ↔ ∀ j ∈ s.jobsOf r, j.status.isTerminal)
  run_finished : ∀ {r run}, s.runs.lookup r = some run →
    (run.finishedAt.isSome ↔ run.status.isTerminal)
  job_finished : ∀ {id j}, s.jobs.lookup id = some j →
    (j.finishedAt.isSome ↔ j.status.isTerminal)

/-- The invariants of the store together. -/
structure Inv (W : Wiring) (s : DurableStore) : Prop where
  minted : Minted W s
  listing : Listing s
  indexing : Indexing s
  binding : Binding s
  settled : Settled s

end DurableStore

end Forgelet
