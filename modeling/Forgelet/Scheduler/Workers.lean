import Forgelet.Lib.Interleaving
import Forgelet.Scheduler.Dispatcher
import Forgelet.Store.Invariant

/-!
# Dispatcher, projector, canceler and collector at work

`Dispatch`, `Project`, `Cancel` and `Collect` (`internal/run/scheduler/dispatcher.go`, `projector.go`) over the
in-memory stores, one call of a store at a time. A worker is the call with its arguments and the point it has reached.
Everything else that uses the durable store is a single call in the background.
-/

namespace Forgelet

open DurableStore

/-- The next call of a `Dispatch`, or what it has returned. -/
inductive DispatchPoint
  | load
  | create
  | ack (uid : String)
  | returned (result : Except Err Unit)

/-- The next call of a `Collect`, with its job and the ones that follow. -/
inductive CollectPoint
  | list
  | delete (id : JobRunID) (rest : List JobRunID)
  | mark (id : JobRunID) (rest : List JobRunID)
  | returned (err : Option Err)

/-- `AckDispatched` is made by `Dispatch` only, and `MarkCollected` by `Collect`. -/
def Background : StoreOp → Prop
  | .ackDispatched _ _ _ | .markCollected _ _ => False
  | _ => True

/-- A call in progress, with its failures or its readings of the clock. -/
inductive Worker
  | dispatch (faults : DispatchFaults) (now : Time) (id : JobRunID) (point : DispatchPoint)
  | collect (clock : Nat → Time) (collected : Nat) (point : CollectPoint)
  | cancel (id : RunID) (now : Time) (result : Option (Except Err Unit))
  | project (id : JobRunID) (phase : ObservedPhase) (now : Time) (result : Option (Except Err Unit))
  | background (op : StoreOp) (allowed : Background op) (finished : Bool)

namespace Worker

/-- `Dispatch`: `GetJobRun` and the test of the status. -/
def load (s : DurableStore) (id : JobRunID) : DispatchPoint :=
  match s.getJobRun id with
  | .error err => .returned (.error (.wrap ("load " ++ id ++ " before dispatch: ") err ""))
  | .ok job =>
    if job.status ≠ .queued ∧ job.status ≠ .dispatched then
      .returned (.error (.wrap "" .errJobNotDispatchable (": " ++ id ++ " in status " ++ job.status.text)))
    else .create

/-- `Dispatch`: `CreateOrGet`. -/
def create (w : Stores) (faults : DispatchFaults) (id : JobRunID) : Stores × DispatchPoint :=
  match faults.createOrGet with
  | some err => (w, .returned (.error (.wrap ("ensure active object for " ++ id ++ ": ") err "")))
  | none =>
    let (obj, active) := w.active.createOrGet id
    ({ w with active := active }, .ack obj.uid)

/-- `Dispatch`: `AckDispatched`. -/
def ack (w : Stores) (faults : DispatchFaults) (id : JobRunID) (uid : String) (now : Time) :
    Stores × DispatchPoint :=
  match faults.ackDispatched with
  | some err => (w, .returned (.error (.wrap ("ack dispatch " ++ id ++ ": ") err "")))
  | none =>
    match w.durable.ackDispatched id { name := crName id, uid := uid } now with
    | (.error err, durable) =>
      ({ w with durable := durable }, .returned (.error (.wrap ("ack dispatch " ++ id ++ ": ") err "")))
    | (.ok (), durable) => ({ w with durable := durable }, .returned (.ok ()))

/-- `Collect`: the loop takes the next job. -/
def nextJob : List JobRunID → CollectPoint
  | [] => .returned none
  | id :: rest => .delete id rest

/-- `Collect`: `MarkCollected`. -/
def mark (w : Stores) (clock : Nat → Time) (collected : Nat) (id : JobRunID) (rest : List JobRunID) :
    Stores × Worker :=
  match w.durable.markCollected id (clock collected) with
  | (.error err, durable) =>
    ({ w with durable := durable },
      .collect clock collected (.returned (some (.wrap ("mark collected " ++ id ++ ": ") err ""))))
  | (.ok (), durable) => ({ w with durable := durable }, .collect clock (collected + 1) (nextJob rest))

/-- The error a call returns, with the text its caller puts before it. -/
def wrapped (text : String) : Except Err Unit → Except Err Unit
  | .error err => .error (.wrap text err "")
  | .ok () => .ok ()

/-- The next call of a worker; `none` once it has returned. -/
def exec (W : Wiring) (w : Stores) : Worker → Option (Stores × Worker)
  | .dispatch faults now id .load => some (w, .dispatch faults now id (load w.durable id))
  | .dispatch faults now id .create =>
    let (w, point) := create w faults id
    some (w, .dispatch faults now id point)
  | .dispatch faults now id (.ack uid) =>
    let (w, point) := ack w faults id uid now
    some (w, .dispatch faults now id point)
  | .collect clock collected .list =>
    some (w, .collect clock collected (nextJob (w.durable.listGCReadyJobs.map (·.id))))
  | .collect clock collected (.delete id rest) =>
    some ({ w with active := w.active.delete id }, .collect clock collected (.mark id rest))
  | .collect clock collected (.mark id rest) => some (mark w clock collected id rest)
  | .cancel id now none =>
    let (result, durable) := w.durable.cancelRun id now
    some ({ w with durable := durable }, .cancel id now (some (wrapped ("cancel run " ++ id ++ ": ") result)))
  | .project id phase now none =>
    let (result, durable) := w.durable.applyObserved id phase now
    some ({ w with durable := durable },
      .project id phase now
        (some (wrapped ("apply observed " ++ phase.text ++ " to " ++ id ++ ": ") result)))
  | .background op allowed false =>
    some ({ w with durable := op.apply W w.durable }, .background op allowed true)
  | _ => none

/-- The worker has returned. -/
def Returned : Worker → Prop
  | .dispatch _ _ _ (.returned _) => True
  | .collect _ _ (.returned _) => True
  | .cancel _ _ result => result.isSome = true
  | .project _ _ _ result => result.isSome = true
  | .background _ _ finished => finished = true
  | _ => False

instance : DecidablePred Returned
  | .dispatch _ _ _ (.returned _) | .collect _ _ (.returned _) => inferInstanceAs (Decidable True)
  | .dispatch _ _ _ .load | .dispatch _ _ _ .create | .dispatch _ _ _ (.ack _) =>
    inferInstanceAs (Decidable False)
  | .collect _ _ .list | .collect _ _ (.delete _ _) | .collect _ _ (.mark _ _) =>
    inferInstanceAs (Decidable False)
  | .cancel _ _ result => inferInstanceAs (Decidable (result.isSome))
  | .project _ _ _ result => inferInstanceAs (Decidable (result.isSome))
  | .background _ _ finished => inferInstanceAs (Decidable (finished))

/-- One step of a worker. -/
def Step (W : Wiring) (w : Stores) (p : Worker) (w' : Stores) (p' : Worker) : Prop :=
  exec W w p = some (w', p')

/-- A call that has just been made. -/
inductive Begins : Worker → Prop
  | dispatch (faults : DispatchFaults) (now : Time) (id : JobRunID) : Begins (.dispatch faults now id .load)
  | collect (clock : Nat → Time) : Begins (.collect clock 0 .list)
  | cancel (id : RunID) (now : Time) : Begins (.cancel id now none)
  | project (id : JobRunID) (phase : ObservedPhase) (now : Time) : Begins (.project id phase now none)
  | background (op : StoreOp) (allowed : Background op) : Begins (.background op allowed false)

/-- The jobs whose objects a `Collect` in progress will still delete. -/
def toDelete : Worker → List JobRunID
  | .collect _ _ (.delete id rest) => id :: rest
  | .collect _ _ (.mark _ rest) => rest
  | _ => []

/-- A `Collect` has deleted the object of the job and will mark it collected next. -/
def Marks (id : JobRunID) : Worker → Prop
  | .collect _ _ (.mark i _) => i = id
  | _ => False

instance (id : JobRunID) : DecidablePred (Marks id)
  | .collect _ _ (.mark i _) => inferInstanceAs (Decidable (i = id))
  | .collect _ _ .list | .collect _ _ (.delete _ _) | .collect _ _ (.returned _) =>
    inferInstanceAs (Decidable False)
  | .dispatch .. | .cancel .. | .project .. | .background .. => inferInstanceAs (Decidable False)

end Worker

/-- The object of the job is marked as collected. -/
def DurableStore.Collected (s : DurableStore) (id : JobRunID) : Prop :=
  ∃ job, s.jobs.lookup id = some job ∧ job.activeCollectedAt ≠ none

instance (s : DurableStore) (id : JobRunID) : Decidable (s.Collected id) :=
  decidable_of_iff (((s.jobs.lookup id).bind (·.activeCollectedAt)) ≠ none) (by
    unfold DurableStore.Collected
    cases s.jobs.lookup id <;> simp)

/-- Workers at one pair of stores. -/
abbrev Workers := Interleaving.Config Stores Worker

namespace Workers

/-- Empty stores, without a worker. -/
def new : Workers := ⟨⟨DurableStore.new, ActiveStore.new⟩, []⟩

/-- The job is marked as collected, or is about to be. -/
def PastCollection (c : Workers) (id : JobRunID) : Prop :=
  c.shared.durable.Collected id ∨ ∃ p ∈ c.procs, p.Marks id

instance (c : Workers) (id : JobRunID) : Decidable (c.PastCollection id) :=
  inferInstanceAs (Decidable (_ ∨ _))

/-- A worker may act, unless it is about to ensure an object that no `Collect` will come to. -/
def InTime (c : Workers) : Worker → Prop
  | .dispatch _ _ id .create => c.PastCollection id → ∃ q ∈ c.procs, id ∈ q.toDelete
  | _ => True

instance (c : Workers) : DecidablePred c.InTime
  | .dispatch _ _ id .create =>
    inferInstanceAs (Decidable (c.PastCollection id → ∃ q ∈ c.procs, id ∈ q.toDelete))
  | .dispatch _ _ _ .load | .dispatch _ _ _ (.ack _) | .dispatch _ _ _ (.returned _) =>
    inferInstanceAs (Decidable True)
  | .collect .. | .cancel .. | .project .. | .background .. => inferInstanceAs (Decidable True)

/-- All workers have returned. -/
def Quiet (c : Workers) : Prop := ∀ p ∈ c.procs, p.Returned

instance (c : Workers) : Decidable c.Quiet := inferInstanceAs (Decidable (∀ p ∈ c.procs, p.Returned))

end Workers

end Forgelet
