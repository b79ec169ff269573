import Forgelet.Lib.Interleaving
import Forgelet.Report.Report
import Forgelet.Store.Invariant

/-!
# Reports of checks at the same time

`reportCheck` (`internal/server/server.go`) reads the job, then its run, and sends the check to the provider. The loop
of `DispatchOnce` and the handlers of `/status` and `/observed` call it, each after its own change of the durable store
and without waiting for the others.
-/

namespace Forgelet.Server

open DurableStore Report

/-- What a `reportCheck` does next. -/
inductive ReportPoint
  | loadJob
  | loadRun (job : JobRunRecord)
  | send (job : JobRunRecord) (run : RunRecord) (check : Check)
  | returned
deriving DecidableEq

/-- A `reportCheck`, which is accepted or refused, or a call of the store. -/
inductive Activity
  | report (id : JobRunID) (accepted : Bool) (point : ReportPoint)
  | store (op : StoreOp) (finished : Bool)

/-- The store, the accepted reports, and the jobs that changed since they were read. -/
structure Board where
  durable : DurableStore
  accepted : List (RunRecord × Check)
  changed : List JobRunID
  restarted : List JobRunID
deriving DecidableEq

namespace Board

/-- A new store, of which nothing was reported. -/
def new : Board where
  durable := DurableStore.new
  accepted := []
  changed := []
  restarted := []

/-- The last report for a job that was accepted. -/
def last (b : Board) (id : JobRunID) : Option Check :=
  ((b.accepted.map (·.2)).filter fun check => check.externalID = id).getLast?

/-- The jobs for which `f` has another value in another store. -/
def movedJobs {α : Type} [DecidableEq α] (f : JobRunRecord → α) (s s' : DurableStore) : List JobRunID :=
  s.jobs.keys.filter fun id => (s'.jobs.lookup id).map f ≠ (s.jobs.lookup id).map f

/-- A call of the store. -/
def call (W : Wiring) (b : Board) (op : StoreOp) : Board :=
  { b with
    durable := op.apply W b.durable
    changed := b.changed ++ movedJobs (·.status) b.durable (op.apply W b.durable)
    restarted := b.restarted ++ movedJobs (·.startedAt) b.durable (op.apply W b.durable) }

/-- A `reportCheck` reads a job. -/
def read (b : Board) (id : JobRunID) : Board :=
  { b with changed := b.changed.filter (· ≠ id), restarted := b.restarted.filter (· ≠ id) }

/-- A check is accepted. -/
def accept (b : Board) (run : RunRecord) (check : Check) : Board := { b with accepted := b.accepted ++ [(run, check)] }

end Board

/-- `reportCheck`: `GetJobRun`. -/
def loadedJob (s : DurableStore) (id : JobRunID) : ReportPoint :=
  match s.getJobRun id with
  | .error _ => .returned
  | .ok job => .loadRun job

/-- `reportCheck`: `GetRun` and `MapJobRun`. -/
def loadedRun (base : String) (s : DurableStore) (job : JobRunRecord) : ReportPoint :=
  match s.getRun job.runID with
  | .error _ => .returned
  | .ok run =>
    match mapJobRun job base with
    | .error _ => .returned
    | .ok check => .send job run check

/-- The step a call takes. -/
def Activity.exec (W : Wiring) (base : String) (b : Board) : Activity → Option (Board × Activity)
  | .report id accepted .loadJob => some (b.read id, .report id accepted (loadedJob b.durable id))
  | .report id accepted (.loadRun job) => some (b, .report id accepted (loadedRun base b.durable job))
  | .report id accepted (.send _ run check) =>
    some (if accepted then b.accept run check else b, .report id accepted .returned)
  | .report _ _ .returned => none
  | .store op false => some (b.call W op, .store op true)
  | .store _ true => none

/-- One step of an activity. -/
def ActivityStep (W : Wiring) (base : String) (b : Board) (p : Activity) (b' : Board) (p' : Activity) : Prop :=
  p.exec W base b = some (b', p')

/-- A call that has just been made. -/
inductive Activity.Starts : Activity → Prop
  | report (id : JobRunID) (accepted : Bool) : Starts (.report id accepted .loadJob)
  | store (op : StoreOp) : Starts (.store op false)

/-- The activity has ended. -/
def Activity.finished : Activity → Bool
  | .report _ _ .returned => true
  | .store _ finished => finished
  | _ => false

/-- The record of a job that a `reportCheck` has read and not reported yet. -/
def Activity.holds (id : JobRunID) : Activity → Option JobRunRecord
  | .report id' _ (.loadRun job) => if id' = id then some job else none
  | .report id' _ (.send job _ _) => if id' = id then some job else none
  | _ => none

/-- A `reportCheck` does not fail: run and job are there, and it is accepted. -/
def Activity.Succeeds (base : String) (b : Board) : Activity → Prop
  | .report _ accepted .loadJob => accepted = true
  | .report _ _ (.loadRun job) =>
    (b.durable.getRun job.runID).isOk ∧ (mapJobRun job base).isOk
  | _ => True

/-- A `reportCheck` does not read a job while another one holds its record. -/
def Activity.Alone (p q : Activity) : Prop :=
  match p with
  | .report id _ .loadJob => q.holds id = none
  | _ => True

instance (base : String) (b : Board) : DecidablePred (Activity.Succeeds base b)
  | .report _ accepted .loadJob => inferInstanceAs (Decidable (accepted))
  | .report _ _ (.loadRun job) =>
    inferInstanceAs (Decidable ((b.durable.getRun job.runID).isOk ∧ (mapJobRun job base).isOk))
  | .report _ _ (.send _ _ _) | .report _ _ .returned | .store _ _ => .isTrue trivial

instance : ∀ p q : Activity, Decidable (p.Alone q)
  | .report id _ .loadJob, q => inferInstanceAs (Decidable (q.holds id = none))
  | .report _ _ (.loadRun _), _ | .report _ _ (.send _ _ _), _ | .report _ _ .returned, _ | .store _ _, _ =>
    .isTrue trivial

/-- The store, the provider and the calls. -/
abbrev Activities := Interleaving.Config Board Activity

/-- Nothing has happened. -/
def Activities.new : Activities := ⟨Board.new, []⟩

/-- The calls of `reportCheck` for a job follow one another, and none fails. -/
def Serial (base : String) (c : Activities) (p : Activity) : Prop :=
  p.Succeeds base c.shared ∧ ∀ q ∈ c.procs, p.Alone q

instance (base : String) (c : Activities) : DecidablePred (Serial base c) := fun p =>
  inferInstanceAs (Decidable (p.Succeeds base c.shared ∧ ∀ q ∈ c.procs, p.Alone q))

end Forgelet.Server
