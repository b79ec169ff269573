import Forgelet.Server.Conditions

/-!
# The sweep on a store that fails

The loop of `evaluateDeferredConditions` (`internal/server/server.go`) on a durable store whose calls may fail. It
ignores the error of a projection, so that only the effect counts.
-/

namespace Forgelet.Server

/-- The calls that fail in a pass: `ListQueuedJobs`, `GetRun`, `ListJobRuns`, `ApplyObserved`. -/
structure SweepFaults where
  list : Bool
  run : RunID → Bool
  project : JobRunID → Bool

/-- Every call succeeds. -/
def SweepFaults.none : SweepFaults := ⟨false, fun _ => false, fun _ => false⟩

/-- The phase that the sweep gives a job among the jobs `all`, if any. -/
def due (ev : Event) (all : List JobRunRecord) (rec : JobRunRecord) : Option ObservedPhase :=
  if rec.condition = "" || !isDeferredCondition rec.condition then none
  else if !conditionReady all rec then none
  else match checkCondition ev rec all rec.condition with
    | .error _ => some .failed
    | .ok false => some .skipped
    | .ok true => none

/-- The body of the loop over the queued jobs of a run. -/
def sweepJobOn (faults : SweepFaults) (now : JobRunID → Time) (ev : Event) (all : List JobRunRecord)
    (acc : DurableStore × Bool) (rec : JobRunRecord) : DurableStore × Bool :=
  match due ev all rec with
  | none => acc
  | some phase =>
    (if faults.project rec.id then acc.1 else (projectObserved acc.1 rec.id phase (now rec.id)).2, true)

/-- The body of the loop over the runs with queued jobs. -/
def sweepRunOn (faults : SweepFaults) (now : JobRunID → Time) (queued : List JobRunRecord)
    (acc : DurableStore × Bool) (runID : RunID) : DurableStore × Bool :=
  if faults.run runID then acc
  else
    match acc.1.getRun runID with
    | .error _ => acc
    | .ok run =>
      match acc.1.listJobRuns runID with
      | .error _ => acc
      | .ok all => (queued.filter (·.runID = runID)).foldl (sweepJobOn faults now run.event all) acc

/-- One pass over the runs, and whether it changed something. -/
def sweepPassOn (faults : SweepFaults) (order : MapOrder RunID) (now : JobRunID → Time) (s : DurableStore) :
    DurableStore × Bool :=
  if faults.list then (s, false)
  else
    let queued := s.listQueuedJobs
    (order.arrange (queued.map (·.runID)).dedup).foldl (sweepRunOn faults now queued) (s, false)

/-- The passes of the loop, which repeats them until one makes no progress. -/
def sweepPasses (faults : Nat → SweepFaults) (order : Nat → MapOrder RunID) (now : JobRunID → Time) (n : Nat)
    (s : DurableStore) : DurableStore × Bool :=
  sweepPassOn (faults n) (order n) now s

/-- Every record is stored under its own id, as the store writes them. -/
def Keyed (s : DurableStore) : Prop := ∀ {id job}, s.jobs.lookup id = some job → job.id = id

/-- Every job belongs to a stored run. -/
def Housed (s : DurableStore) : Prop :=
  ∀ {id job}, s.jobs.lookup id = some job → ∃ run, s.runs.lookup job.runID = some run

/-- The phase that a pass in the state `s` gives a queued job, if any. -/
def dueIn (faults : SweepFaults) (s : DurableStore) (rec : JobRunRecord) : Option ObservedPhase :=
  if faults.list || faults.run rec.runID then none
  else (s.runs.lookup rec.runID).bind fun run => due run.event (s.jobsOf rec.runID) rec

/-- A pass that projects something, but nothing with an effect. -/
def Idle (faults : SweepFaults) (s : DurableStore) : Prop :=
  (∃ rec ∈ s.listQueuedJobs, (dueIn faults s rec).isSome) ∧
    ∀ rec ∈ s.listQueuedJobs, (dueIn faults s rec).isSome → faults.project rec.id

instance (faults : SweepFaults) (s : DurableStore) : Decidable (Idle faults s) :=
  inferInstanceAs (Decidable (_ ∧ _))

end Forgelet.Server
