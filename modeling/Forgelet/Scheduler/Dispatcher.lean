import Forgelet.Store.Active
import Forgelet.Store.Memory

/-!
# Dispatch

`Dispatcher` (`internal/run/scheduler/dispatcher.go`) over the in-memory stores. The call of the active
store and the acknowledgement may fail; a call that fails has no effect.
-/

namespace Forgelet

/-- The durable store and the active store a dispatcher works on. -/
structure Stores where
  durable : DurableStore
  active : ActiveStore
deriving DecidableEq

/-- The calls of a dispatch that fail, with their errors. -/
structure DispatchFaults where
  createOrGet : Option Err
  ackDispatched : Option Err
deriving DecidableEq

/-- Every call succeeds. -/
def DispatchFaults.none : DispatchFaults where
  createOrGet := .none
  ackDispatched := .none

namespace Stores

/-- Ensures the active object and acknowledges, unless the job is cancelled or terminal. -/
def dispatch (w : Stores) (faults : DispatchFaults) (id : JobRunID) (now : Time) :
    Except Err Unit × Stores :=
  match w.durable.getJobRun id with
  | .error err => (.error (.wrap ("load " ++ id ++ " before dispatch: ") err ""), w)
  | .ok job =>
    if job.status ≠ .queued ∧ job.status ≠ .dispatched then
      (.error (.wrap "" .errJobNotDispatchable (": " ++ id ++ " in status " ++ job.status.text)), w)
    else
      match faults.createOrGet with
      | some err => (.error (.wrap ("ensure active object for " ++ id ++ ": ") err ""), w)
      | .none =>
        let (obj, active) := w.active.createOrGet id
        match faults.ackDispatched with
        | some err =>
          (.error (.wrap ("ack dispatch " ++ id ++ ": ") err ""), { w with active := active })
        | .none =>
          match w.durable.ackDispatched id { name := crName id, uid := obj.uid } now with
          | (.error err, durable) =>
            (.error (.wrap ("ack dispatch " ++ id ++ ": ") err ""),
              { durable := durable, active := active })
          | (.ok (), durable) => (.ok (), { durable := durable, active := active })

/-- `DispatchNext`: claims a job and dispatches it, or releases the claim. -/
def dispatchNext (W : Wiring) (w : Stores) (faults : DispatchFaults) (now : Time) :
    Except Err JobRunRecord × Stores :=
  match w.durable.claimNextQueuedJob W with
  | (.error err, durable) => (.error err, { w with durable := durable })
  | (.ok job, durable) =>
    match ({ w with durable := durable } : Stores).dispatch faults job.id now with
    | (.ok (), w) => (.ok job, w)
    | (.error err, w) =>
      (.error (.wrap ("dispatch " ++ job.id ++ ": ") err ""),
        { w with durable := (w.durable.releaseClaim job.id).2 })

end Stores

end Forgelet
