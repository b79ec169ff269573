import Forgelet.Expression.Eval
import Forgelet.Lib.Progress
import Forgelet.Store.Memory

/-!
# Job conditions

The `if:` of a job (`internal/server/server.go`): when it is evaluated, in which environment, and the sweep
over the queued jobs whose condition had to wait for their dependencies.
-/

namespace Forgelet.Server

open Bytes (ofString)
open Expression (Env Value evaluateCondition statusCalls)

/-- `isDeferredCondition`: it refers to results that are not final yet. -/
def isDeferredCondition (cond : String) : Bool :=
  let lower := (ofString cond).toLower
  Bytes.contains lower (ofString "needs.") || statusCalls.any fun call => Bytes.contains lower call

/-- The result that `needs` shows. -/
def githubResultName : JobRunStatus → String
  | .succeeded => "success"
  | .failed => "failure"
  | .cancelled => "cancelled"
  | .skipped => "skipped"
  | _ => "pending"

/-- `githubContextValue` exposes the event as the `github` context. -/
def githubContextValue (ev : Event) : Value :=
  .obj
    [(ofString "event_name", Value.text ev.name),
      (ofString "ref", Value.text ev.ref),
      (ofString "sha", Value.text ev.sha),
      (ofString "actor", Value.text ev.actor),
      (ofString "repository",
        .obj
          [(ofString "owner", Value.text ev.repository.owner),
            (ofString "name", Value.text ev.repository.name),
            (ofString "full_name", Value.text (ev.repository.owner ++ "/" ++ ev.repository.name))])]

/-- The value of `needs.<key>` for a job. -/
def needsEntry (r : JobRunRecord) : Value :=
  .obj [(ofString "result", Value.text (githubResultName r.status))]

/-- The assignments of `jobConditionEnv`: a later attempt of a key overwrites an earlier one. -/
def needsMap (runs : List JobRunRecord) : List (Bytes × Value) :=
  runs.foldl (fun needs r => Entries.assign (ofString r.jobKey) (needsEntry r) needs) []

/-- The `needs` context. A Go map has no order; its entries stand in the order of their keys. -/
def needsContext (runs : List JobRunRecord) : List (Bytes × Value) :=
  (needsMap runs).insertionSort fun a b => Bytes.le a.1 b.1 = true

/-- A failed or cancelled attempt of the dependency. -/
def stopped (depKey : String) (r : JobRunRecord) : Bool :=
  r.jobKey = depKey && (r.status = .failed || r.status = .cancelled)

/-- The loop of `jobConditionEnv`: the first failed or cancelled attempt of a dependency sets the status. -/
def conditionStatus (runs : List JobRunRecord) (status : String) : List String → String
  | [] => status
  | depKey :: rest =>
    match runs.find? (stopped depKey) with
    | some r =>
      conditionStatus runs (if r.status = .cancelled then "cancelled" else "failure") rest
    | none => conditionStatus runs status rest

/-- `jobConditionEnv`, the environment in which the condition of `rec` is evaluated. -/
def jobConditionEnv (ev : Event) (rec : JobRunRecord) (runs : List JobRunRecord) : Env :=
  let status := conditionStatus runs "success" rec.dependsOn
  (((Env.new.withContext (ofString "github") (githubContextValue ev)).withContext
    (ofString "needs") (.obj (needsContext runs))).withContext
    (ofString "job") (.obj [(ofString "status", Value.text status)])).withJobStatus (ofString status)

/-- The condition `cond` of `rec` among the jobs `runs` of its run. -/
def checkCondition (ev : Event) (rec : JobRunRecord) (runs : List JobRunRecord) (cond : String) :
    Except Expression.ExprError Bool :=
  evaluateCondition (ofString cond) (jobConditionEnv ev rec runs)

/-- `projectObserved`: `Projector.Project` of `internal/run/scheduler/projector.go`. -/
def projectObserved (s : DurableStore) (id : JobRunID) (phase : ObservedPhase) (now : Time) :
    Outcome Unit :=
  match s.applyObserved id phase now with
  | (.error err, s) =>
    (.error (.wrap ("apply observed " ++ phase.text ++ " to " ++ id ++ ": ") err ""), s)
  | (.ok (), s) => (.ok (), s)

/-! ## The sweep -/

/-- Whether every attempt of every dependency is terminal. -/
def conditionReady (all : List JobRunRecord) (rec : JobRunRecord) : Bool :=
  rec.dependsOn.all fun depKey =>
    all.all fun sibling => sibling.jobKey ≠ depKey || sibling.status.isTerminal

/-- The loop over the queued jobs of a run; whether it made progress. An error fails the job. -/
def sweepJob (now : JobRunID → Time) (ev : Event) (all : List JobRunRecord)
    (acc : DurableStore × Bool) (rec : JobRunRecord) : DurableStore × Bool :=
  if rec.condition = "" || !isDeferredCondition rec.condition then acc
  else if !conditionReady all rec then acc
  else match checkCondition ev rec all rec.condition with
    | .error _ => ((projectObserved acc.1 rec.id .failed (now rec.id)).2, true)
    | .ok false => ((projectObserved acc.1 rec.id .skipped (now rec.id)).2, true)
    | .ok true => acc

/-- The body of the loop over the runs with queued jobs. -/
def sweepRun (now : JobRunID → Time) (queued : List JobRunRecord) (acc : DurableStore × Bool)
    (runID : RunID) : DurableStore × Bool :=
  match acc.1.getRun runID with
  | .error _ => acc
  | .ok run =>
    match acc.1.listJobRuns runID with
    | .error _ => acc
    | .ok all => (queued.filter (·.runID = runID)).foldl (sweepJob now run.event all) acc

/-- One pass of `evaluateDeferredConditions`, in the order of Go's map. -/
def sweepPass (order : MapOrder RunID) (now : JobRunID → Time) (s : DurableStore) :
    DurableStore × Bool :=
  let queued := s.listQueuedJobs
  (order.arrange (queued.map (·.runID)).dedup).foldl (sweepRun now queued) (s, false)

/-- Passes until one makes no progress, at most one for each queued job. -/
def evaluateDeferredConditions (order : Nat → MapOrder RunID) (now : JobRunID → Time)
    (s : DurableStore) : DurableStore :=
  Progress.untilQuiet (fun n s => sweepPass (order n) now s) (s.countQueuedJobs + 1) s

end Forgelet.Server
