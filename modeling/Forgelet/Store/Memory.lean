import Mathlib.Data.List.Sort
import Forgelet.Scheduler.Port

/-!
# The in-memory durable store

`memory.DurableStore` (`internal/storage/memory/store.go`). Every method holds the store's mutex from start to end, so
each is one function from the store before the call to its result and the store after it, also after an error, which
keeps the writes made before.
-/

namespace Forgelet

/-- The store. `minted` counts the ids and `ticks` the readings of the clock. -/
structure DurableStore where
  deliveries : GoMap DeliveryKey DeliveryRecord
  runs : GoMap RunID RunRecord
  jobs : GoMap JobRunID JobRunRecord
  runJobs : GoMap RunID (List JobRunID)
  byJobKey : GoMap RunID (GoMap String JobRunID)
  claimed : GoMap JobRunID Bool
  minted : Nat
  ticks : Nat
deriving DecidableEq

/-- The result of a store method: what it returns and the store after it. -/
abbrev Outcome (α : Type) := Except Err α × DurableStore

/-- Whether a job is ready to run, as its dependencies tell. -/
inductive DepState
  | depsReady
  | depsBlocked
  | depsFailed
deriving DecidableEq, Repr

namespace DurableStore

/-- `NewDurableStore`. -/
def new : DurableStore where
  deliveries := ∅
  runs := ∅
  jobs := ∅
  runJobs := ∅
  byJobKey := ∅
  claimed := ∅
  minted := 0
  ticks := 0

/-- The ids of a run's jobs: `s.runJobs[id]`. -/
def jobIDs (s : DurableStore) (id : RunID) : List JobRunID := (s.runJobs.lookup id).getD []

/-- The records of a run's jobs, in the order of `runJobs`. -/
def jobsOf (s : DurableStore) (id : RunID) : List JobRunRecord :=
  (s.jobIDs id).filterMap s.jobs.lookup

/-- The job the by-key index holds for a key of a run: `s.byJobKey[run][key]`. -/
def indexed (s : DurableStore) (run : RunID) (key : String) : Option JobRunID :=
  (s.byJobKey.lookup run).bind (·.lookup key)

/-- `s.claimed[id]`. -/
def isClaimed (s : DurableStore) (id : JobRunID) : Bool := (s.claimed.lookup id).getD false

/-- `s.jobs[id] = job`. -/
def setJob (s : DurableStore) (id : JobRunID) (job : JobRunRecord) : DurableStore :=
  { s with jobs := s.jobs.insert id job }

/-- `s.runs[id] = run`. -/
def setRun (s : DurableStore) (id : RunID) (run : RunRecord) : DurableStore :=
  { s with runs := s.runs.insert id run }

/-- `s.claimed[id] = true`. -/
def claim (s : DurableStore) (id : JobRunID) : DurableStore :=
  { s with claimed := s.claimed.insert id true }

/-- `delete(s.claimed, id)`. -/
def unclaim (s : DurableStore) (id : JobRunID) : DurableStore :=
  { s with claimed := s.claimed.erase id }

/-- `RecordDelivery`: the first write of a key wins. -/
def recordDelivery (W : Wiring) (s : DurableStore) (d : Delivery) :
    Outcome (DeliveryRecord × Bool) :=
  match s.deliveries.lookup d.key with
  | some record => (.ok (record, false), s)
  | none =>
    let record : DeliveryRecord :=
      { key := d.key, event := d.event, payload := d.payload, receivedAt := W.clock s.ticks,
        runID := none }
    (.ok (record, true),
      { s with deliveries := s.deliveries.insert d.key record, ticks := s.ticks + 1 })

/-- `getRunLocked`. -/
def getRun (s : DurableStore) (id : RunID) : Except Err RunRecord :=
  match s.runs.lookup id with
  | some run => .ok run
  | none => .error .errRunNotFound

/-- The record `CreateRun` writes for one intent. -/
def newJob (jobID : JobRunID) (runID : RunID) (intent : JobIntent) (now : Time) : JobRunRecord where
  id := jobID
  runID := runID
  jobKey := intent.jobKey
  runnerClass := intent.runnerClass
  dependsOn := intent.dependsOn
  matrix := intent.matrix
  planDigest := intent.planDigest
  condition := intent.condition
  status := .queued
  attempt := 1
  activeName := ""
  activeUID := ""
  createdAt := now
  dispatchedAt := none
  startedAt := none
  finishedAt := none
  activeCollectedAt := none

/-- The loop of `CreateRun`; a job is written as soon as its key is found to be new. -/
def createJobs (W : Wiring) (runID : RunID) (now : Time) (s : DurableStore)
    (keyIndex : GoMap String JobRunID) (jobIDs : List JobRunID) :
    List JobIntent → Outcome (GoMap String JobRunID × List JobRunID)
  | [] => (.ok (keyIndex, jobIDs), s)
  | intent :: rest =>
    if (keyIndex.lookup intent.jobKey).isSome then
      (.error (.errorf ("memory: duplicate job key " ++ GoString.quote intent.jobKey ++ " in run " ++
        runID)), s)
    else
      let jobID := W.ids.mint s.minted
      let s := { s with minted := s.minted + 1 }
      createJobs W runID now (s.setJob jobID (newJob jobID runID intent now))
        (keyIndex.insert intent.jobKey jobID) (jobIDs ++ [jobID]) rest

/-- `CreateRun`: create-or-get keyed by the delivery. -/
def createRun (W : Wiring) (s : DurableStore) (seed : RunSeed) (now : Time) :
    Outcome (RunRecord × Bool) :=
  match s.deliveries.lookup seed.delivery with
  | some ⟨_, _, _, _, some runID⟩ =>
    match s.getRun runID with
    | .ok run => (.ok (run, false), s)
    | .error err => (.error err, s)
  | none => (.error (.errorf ("memory: delivery " ++ seed.delivery.text ++ " not recorded")), s)
  | some record =>
    if seed.jobs.isEmpty then
      (.error (.errorf ("memory: run for delivery " ++ seed.delivery.text ++ " has no jobs")), s)
    else
      let runID := W.ids.mint s.minted
      let run : RunRecord :=
        { id := runID, event := seed.event, delivery := seed.delivery, status := .queued,
          createdAt := now, finishedAt := none }
      match createJobs W runID now { s with minted := s.minted + 1 } ∅ [] seed.jobs with
      | (.error err, s) => (.error err, s)
      | (.ok (keyIndex, jobIDs), s) =>
        (.ok (run, true),
          { s with
            runs := s.runs.insert runID run
            runJobs := s.runJobs.insert runID jobIDs
            byJobKey := s.byJobKey.insert runID keyIndex
            deliveries := s.deliveries.insert seed.delivery { record with runID := some runID } })

/-- `ListJobRuns`. -/
def listJobRuns (s : DurableStore) (run : RunID) : Except Err (List JobRunRecord) :=
  match s.runs.lookup run with
  | none => .error .errRunNotFound
  | some _ => .ok (s.jobsOf run)

/-- The order of the queue: by creation time, then by id. -/
def QueueLE (a b : JobRunRecord) : Prop :=
  if a.createdAt = b.createdAt then a.id ≤ b.id else a.createdAt < b.createdAt

instance : DecidableRel QueueLE := fun a b =>
  inferInstanceAs (Decidable (if a.createdAt = b.createdAt then a.id ≤ b.id else a.createdAt < b.createdAt))

/-- The queued jobs, in the order of the map. -/
def queuedJobs (s : DurableStore) : List JobRunRecord :=
  (s.jobs.entries.map (·.2)).filter (·.status = .queued)

/-- `CountQueuedJobs`. -/
def countQueuedJobs (s : DurableStore) : Nat := s.queuedJobs.length

/-- `ListQueuedJobs`: the queued jobs, oldest first. -/
def listQueuedJobs (s : DurableStore) : List JobRunRecord := s.queuedJobs.insertionSort QueueLE

/-- `GetJobRun`. -/
def getJobRun (s : DurableStore) (id : JobRunID) : Except Err JobRunRecord :=
  match s.jobs.lookup id with
  | some job => .ok job
  | none => .error .errJobRunNotFound

/-- `refreshRunLocked`: recomputes the run aggregate monotonically. -/
def refreshRun (s : DurableStore) (runID : RunID) (now : Time) : DurableStore :=
  match s.runs.lookup runID with
  | none => s
  | some run =>
    if run.status.isTerminal then s
    else
      let next := aggregateRunStatus ((s.jobsOf runID).map (·.status))
      if canAdvanceRun run.status next && next != run.status then
        s.setRun runID
          { run with
            status := next
            finishedAt := if next.isTerminal then some now else run.finishedAt }
      else s

/-- The loop of `dependencyStateLocked` over the keys a job depends on. -/
def dependencyLoop (s : DurableStore) (run : RunID) (state : DepState) : List String → DepState
  | [] => state
  | depKey :: rest =>
    match s.indexed run depKey with
    | none => .depsBlocked
    | some depID =>
      match (s.jobs.lookup depID).map JobRunRecord.status with
      | some .succeeded => dependencyLoop s run state rest
      | some .failed | some .cancelled | some .skipped => .depsFailed
      | _ => dependencyLoop s run .depsBlocked rest

/-- `dependencyStateLocked`. -/
def dependencyState (s : DurableStore) (id : JobRunID) : DepState :=
  match s.jobs.lookup id with
  | none => .depsReady
  | some job => dependencyLoop s job.runID .depsReady job.dependsOn

/-- The order of the candidates: by creation time, then by id. -/
def CandidateLE (a b : JobRunID × Time) : Prop := if a.2 = b.2 then a.1 ≤ b.1 else a.2 < b.2

instance : DecidableRel CandidateLE := fun a b =>
  inferInstanceAs (Decidable (if a.2 = b.2 then a.1 ≤ b.1 else a.2 < b.2))

/-- The queued jobs that are not claimed, oldest first. -/
def candidates (s : DurableStore) : List (JobRunID × Time) :=
  ((s.jobs.entries.filter fun e => e.2.status = .queued && !s.isClaimed e.1).map
    fun e => (e.1, e.2.createdAt)).insertionSort CandidateLE

/-- Marks a queued job skipped because a dependency did not succeed. -/
def skipJob (W : Wiring) (s : DurableStore) (id : JobRunID) (job : JobRunRecord) : DurableStore :=
  match transitionJob job.status .skipped with
  | .error _ => s
  | .ok next =>
    let t := W.clock s.ticks
    let s := { s with ticks := s.ticks + 1 }
    (s.setJob id { job with status := next, finishedAt := some t }).refreshRun job.runID t

/-- The loop of `ClaimNextQueuedJob` over the ids of the sorted candidates. -/
def claimLoop (W : Wiring) (s : DurableStore) : List JobRunID → Outcome JobRunRecord
  | [] => (.error .errNoQueuedJob, s)
  | pick :: rest =>
    match s.jobs.lookup pick with
    | none => claimLoop W s rest
    | some job =>
      match s.dependencyState pick with
      | .depsBlocked => claimLoop W s rest
      | .depsFailed =>
        -- a job with a condition leaves the switch here and is claimed
        if job.condition ≠ "" then (.ok job, s.claim pick)
        else claimLoop W (s.skipJob W pick job) rest
      | .depsReady => (.ok job, s.claim pick)

/-- `ClaimNextQueuedJob`. -/
def claimNextQueuedJob (W : Wiring) (s : DurableStore) : Outcome JobRunRecord :=
  claimLoop W s (s.candidates.map (·.1))

/-- `ReleaseClaim`. -/
def releaseClaim (s : DurableStore) (id : JobRunID) : Outcome Unit := (.ok (), s.unclaim id)

/-- The write `AckDispatched` ends with. -/
def ackJob (s : DurableStore) (job : JobRunRecord) (id : JobRunID) (obj : ActiveObject) (now : Time) :
    DurableStore :=
  (s.setJob id
    { job with
      status := .dispatched
      activeName := obj.name
      activeUID := obj.uid
      dispatchedAt := some now }).unclaim id

/-- `AckDispatched`. -/
def ackDispatched (s : DurableStore) (id : JobRunID) (obj : ActiveObject) (now : Time) :
    Outcome Unit :=
  match s.jobs.lookup id with
  | none => (.error .errJobRunNotFound, s)
  | some job =>
    match job.status with
    | .dispatched =>
      if job.activeName ≠ "" ∧ job.activeName ≠ obj.name then
        (.error (.errorf ("memory: " ++ id ++ " already dispatched as " ++ job.activeName ++
          ", refusing " ++ obj.name)), s)
      else (.ok (), s.ackJob job id obj now)
    | .queued => (.ok (), s.ackJob job id obj now)
    | status => (.error (.wrap "" .errJobNotDispatchable (": " ++ id ++ " in status " ++ status.text)), s)

/-- The record after `ApplyObserved` moved a job to `target`. -/
def observed (job : JobRunRecord) (target : JobRunStatus) (now : Time) : JobRunRecord :=
  match target with
  | .running => { job with status := target, startedAt := some now }
  | .succeeded | .failed | .skipped =>
    { job with
      status := target
      startedAt := some (job.startedAt.getD now)
      finishedAt := some now }
  | _ => { job with status := target }

/-- `ApplyObserved`: the monotonic projection of an observed phase. -/
def applyObserved (s : DurableStore) (id : JobRunID) (phase : ObservedPhase) (now : Time) :
    Outcome Unit :=
  match s.jobs.lookup id with
  | none => (.error .errJobRunNotFound, s)
  | some job =>
    if job.status.isTerminal then (.ok (), s)
    else match jobStatusFromPhase phase with
      | none => (.ok (), s.refreshRun job.runID now)
      | some target =>
        if canAdvanceJob job.status target then
          (.ok (), (s.setJob id (observed job target now)).refreshRun job.runID now)
        else (.ok (), s)

/-- The loop of `CancelRun` over the ids of the run's jobs. -/
def cancelJobs (now : Time) (s : DurableStore) : List JobRunID → DurableStore
  | [] => s
  | jobID :: rest =>
    match s.jobs.lookup jobID with
    | none => cancelJobs now (s.unclaim jobID) rest
    | some job =>
      match transitionJob job.status .cancelled with
      | .ok next =>
        cancelJobs now
          ((s.setJob jobID { job with status := next, finishedAt := some now }).unclaim jobID) rest
      | .error _ => cancelJobs now (s.unclaim jobID) rest

/-- `CancelRun`. -/
def cancelRun (s : DurableStore) (id : RunID) (now : Time) : Outcome Unit :=
  match s.runs.lookup id with
  | none => (.error .errRunNotFound, s)
  | some run =>
    if run.status.isTerminal then
      if run.status = .cancelled then (.ok (), s)
      else (.error (.errorf ("memory: run " ++ id ++ " already terminal (" ++ run.status.text ++ ")")), s)
    else
      (.ok (), (cancelJobs now s (s.jobIDs id)).setRun id
        { run with status := .cancelled, finishedAt := some now })

/-- The next attempt of a job, as `RerequestJob` writes it. -/
def nextAttempt (newID : JobRunID) (orig : JobRunRecord) (now : Time) : JobRunRecord :=
  { orig with
    id := newID
    status := .queued
    attempt := orig.attempt + 1
    activeName := ""
    activeUID := ""
    createdAt := now
    dispatchedAt := none
    startedAt := none
    finishedAt := none
    activeCollectedAt := none }

/-- A terminal run is queued again. -/
def reopenRun (s : DurableStore) (id : RunID) : DurableStore :=
  match s.runs.lookup id with
  | some run =>
    if run.status.isTerminal then s.setRun id { run with status := .queued, finishedAt := none }
    else s
  | none => s

/-- Creates the next attempt of a job. The by-key index of a run that was never stored is nil, and the assignment
panics after the job is written. -/
def rerequestJob (W : Wiring) (s : DurableStore) (id : JobRunID) (now : Time) : Outcome JobRunID :=
  match s.jobs.lookup id with
  | none => (.error .errJobRunNotFound, s)
  | some orig =>
    match (s.jobsOf orig.runID).find? fun j =>
        j.jobKey = orig.jobKey ∧ j.attempt = orig.attempt + 1 with
    | some j => (.ok j.id, s)
    | none =>
      let newID := W.ids.mint s.minted
      let s := { s with
        minted := s.minted + 1
        jobs := s.jobs.insert newID (nextAttempt newID orig now)
        runJobs := s.runJobs.insert orig.runID (s.jobIDs orig.runID ++ [newID]) }
      match s.byJobKey.lookup orig.runID with
      | none => (.error .nilMapPanic, s)
      | some keyIndex =>
        let s := { s with
          byJobKey := s.byJobKey.insert orig.runID (keyIndex.insert orig.jobKey newID) }
        (.ok newID, s.reopenRun orig.runID)

/-- `MarkCollected`. -/
def markCollected (s : DurableStore) (id : JobRunID) (now : Time) : Outcome Unit :=
  match s.jobs.lookup id with
  | none => (.error .errJobRunNotFound, s)
  | some job =>
    match job.activeCollectedAt with
    | none => (.ok (), s.setJob id { job with activeCollectedAt := some now })
    | some _ => (.ok (), s)

/-- The ids of all runs in order. -/
def sortedRunIDs (s : DurableStore) : List RunID := s.runs.keys.insertionSort (· ≤ ·)

/-- `ListGCReadyJobs`: the terminal jobs of terminal runs, not collected. -/
def listGCReadyJobs (s : DurableStore) : List JobRunRecord :=
  s.sortedRunIDs.flatMap fun id =>
    match s.runs.lookup id with
    | none => []
    | some run =>
      if run.status.isTerminal then
        (s.jobsOf id).filter fun job => job.status.isTerminal && job.activeCollectedAt.isNone
      else []

end DurableStore

end Forgelet
