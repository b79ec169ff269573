import Forgelet.Store.Invariant

/-!
# Attempts

What the attempts of a job are, in the terms of the store's records: the numbered attempts of a key of a run,
the open and the superseded ones among them, and sequences of calls each of which meets a condition.
-/

namespace Forgelet

/-- A later attempt of the job's key is among `jobs`. -/
def superseded (jobs : List JobRunRecord) (job : JobRunRecord) : Bool :=
  jobs.any fun other => other.jobKey = job.jobKey && job.attempt < other.attempt

/-- The latest attempt of each key. -/
def latestAttempts (jobs : List JobRunRecord) : List JobRunRecord :=
  jobs.filter fun job => !superseded jobs job

namespace DurableStore

open Relation

/-- One call that meets the condition `ok`. -/
def StepWith (W : Wiring) (ok : DurableStore → StoreOp → Prop) (s s' : DurableStore) : Prop :=
  ∃ op, ok s op ∧ s' = op.apply W s

/-- The stores a new one reaches by calls that meet the condition `ok`. -/
def ReachableWith (W : Wiring) (ok : DurableStore → StoreOp → Prop) (s : DurableStore) : Prop :=
  ReflTransGen (StepWith W ok) new s

/-- The seed of a `CreateRun` has distinct job keys. -/
def DistinctKeys (_ : DurableStore) : StoreOp → Prop
  | .createRun seed _ => (seed.jobs.map (·.jobKey)).Nodup
  | _ => True

/-- The call is not a `CancelRun` of the run. -/
def NotCancelling (r : RunID) (_ : DurableStore) (op : StoreOp) : Prop := ∀ now, op ≠ .cancelRun r now

/-- A `RerequestJob` that creates an attempt is made for a job that is terminal. -/
def RetriesEnded (s : DurableStore) : StoreOp → Prop
  | .rerequestJob id _ => ∀ job, s.jobs.lookup id = some job →
    (∀ next ∈ s.jobsOf job.runID, next.jobKey = job.jobKey → next.attempt ≠ job.attempt + 1) →
      job.status.isTerminal
  | _ => True

/-- `id` is the attempt number `a` of a key of a run. -/
def AttemptOf (s : DurableStore) (r : RunID) (key : String) (a : Nat) (id : JobRunID) : Prop :=
  ∃ job, s.jobs.lookup id = some job ∧ job.runID = r ∧ job.jobKey = key ∧ job.attempt = a

/-- The attempts of a key are numbered from one without gap, and the later ones listed. -/
structure Numbering (s : DurableStore) : Prop where
  positive : ∀ {id job}, s.jobs.lookup id = some job → 1 ≤ job.attempt
  unique : ∀ {r key a id id'}, s.AttemptOf r key a id → s.AttemptOf r key a id' → id' = id
  closed : ∀ {r key a id} (b : Nat), s.AttemptOf r key a id → 1 ≤ b → b ≤ a → ∃ id', s.AttemptOf r key b id'
  listed : ∀ {id job}, s.jobs.lookup id = some job → 2 ≤ job.attempt → id ∈ s.jobIDs job.runID

/-- Every job belongs to a stored run. -/
def Owned (s : DurableStore) : Prop := ∀ id job, s.jobs.lookup id = some job → s.Stored job.runID

/-- At most one attempt of a key of a run is not terminal. -/
def OneOpen (s : DurableStore) : Prop :=
  ∀ id id' job job', s.jobs.lookup id = some job → s.jobs.lookup id' = some job' →
    job'.runID = job.runID → job'.jobKey = job.jobKey → job.status.isTerminal = false →
    job'.status.isTerminal = false → id' = id

/-- Every attempt before the last one of its key is terminal. -/
def EarlierEnded (s : DurableStore) : Prop :=
  ∀ id id' job job', s.jobs.lookup id = some job → s.jobs.lookup id' = some job' →
    job'.runID = job.runID → job'.jobKey = job.jobKey → job.attempt < job'.attempt →
    job.status.isTerminal

/-- If a run is terminal, its status is the aggregate of all its jobs. -/
def Aggregated (s : DurableStore) (r : RunID) : Prop :=
  ∀ run, s.runs.lookup r = some run → run.status.isTerminal →
    run.status = aggregateRunStatus ((s.jobsOf r).map (·.status))

/-- No job of the run is cancelled. -/
def Uncancelled (s : DurableStore) (r : RunID) : Prop :=
  ∀ id job, s.jobs.lookup id = some job → job.runID = r → job.status ≠ .cancelled

end DurableStore

end Forgelet
