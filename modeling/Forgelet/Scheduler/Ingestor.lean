import Forgelet.Lib.Interleaving
import Forgelet.Store.Memory

/-!
# Ingestion

`Ingestor.Ingest` (`internal/run/scheduler/ingestor.go`) over the in-memory store: up to three calls, `RecordDelivery`,
`Compile` and `CreateRun`, between which others may act. A call is its local variables and the point it has reached.
-/

namespace Forgelet

/-- The next call an `Ingest` makes, or what it has returned. -/
inductive IngestPoint
  | record
  | compile (payload : Payload)
  | create
  | returned (result : Except Err (RunID × Bool))
deriving DecidableEq

/-- An `Ingest` call in progress: its argument, `jobs` and its point. -/
structure IngestCall where
  delivery : Delivery
  jobs : List JobIntent
  point : IngestPoint
deriving DecidableEq

namespace IngestCall

/-- A call that has just been made. -/
def begin (d : Delivery) : IngestCall where
  delivery := d
  jobs := []
  point := .record

/-- The call returns. -/
def finish (call : IngestCall) (result : Except Err (RunID × Bool)) : IngestCall :=
  { call with point := .returned result }

/-- `RecordDelivery` and the test whether the delivery has a run. -/
def record (W : Wiring) (s : DurableStore) (call : IngestCall) : IngestCall × DurableStore :=
  match s.recordDelivery W call.delivery with
  | (.error err, s) =>
    (call.finish (.error (.wrap ("record delivery " ++ call.delivery.key.text ++ ": ") err "")), s)
  | (.ok (rec, _), s) =>
    match rec.runID with
    | some runID => (call.finish (.ok (runID, false)), s)
    | none => ({ call with point := .compile rec.payload }, s)

/-- The first error of `JobIntent.Validate` over the jobs. -/
def invalid : List JobIntent → Option String
  | [] => none
  | j :: rest =>
    match j.validate with
    | .error msg => some msg
    | .ok () => invalid rest

/-- An error, an invalid intent and an empty list all end the call without a run. -/
def compiled (call : IngestCall) : Except Err (List JobIntent) → IngestCall
  | .error err =>
    call.finish (.error (.wrap ("compile for delivery " ++ call.delivery.key.text ++ ": ") err ""))
  | .ok jobs =>
    match invalid jobs with
    | some msg =>
      { call with jobs := jobs }.finish
        (.error (.wrap ("delivery " ++ call.delivery.key.text ++ ": ") (.errorf msg) ""))
    | none =>
      if jobs.isEmpty then { call with jobs := jobs }.finish (.ok ("", false))
      else { call with jobs := jobs, point := .create }

/-- The run to be created for a delivery. -/
def seed (call : IngestCall) : RunSeed where
  delivery := call.delivery.key
  event := call.delivery.event
  jobs := call.jobs

/-- `CreateRun`. -/
def create (W : Wiring) (s : DurableStore) (call : IngestCall) (now : Time) :
    IngestCall × DurableStore :=
  match s.createRun W call.seed now with
  | (.error err, s) =>
    (call.finish
      (.error (.wrap ("create run for delivery " ++ call.delivery.key.text ++ ": ") err "")), s)
  | (.ok (run, createdRun), s) => (call.finish (.ok (run.id, createdRun)), s)

/-- The call returned `created=true`. -/
def Created (call : IngestCall) : Prop := ∃ r, call.point = .returned (.ok (r, true))

/-- The call has returned. -/
def Returned (call : IngestCall) : Prop := ∃ result, call.point = .returned result

end IngestCall

/-- One step of an `Ingest` call on the store. `Compile` may return anything. -/
inductive IngestStep (W : Wiring) (s : DurableStore) (call : IngestCall) :
    DurableStore → IngestCall → Prop
  | record (point : call.point = .record) :
      IngestStep W s call (call.record W s).2 (call.record W s).1
  | compile {payload : Payload} (point : call.point = .compile payload)
      (result : Except Err (List JobIntent)) : IngestStep W s call s (call.compiled result)
  | create (point : call.point = .create) (now : Time) :
      IngestStep W s call (call.create W s now).2 (call.create W s now).1

/-- The beginning of a call for the delivery `key`. -/
def IngestOf (key : DeliveryKey) (call : IngestCall) : Prop :=
  ∃ d : Delivery, d.key = key ∧ call = .begin d

/-- `Ingest` calls for one key, started at any time and interleaved in any way. -/
abbrev IngestReaches (W : Wiring) (key : DeliveryKey) :
    Interleaving.Config DurableStore IngestCall → Interleaving.Config DurableStore IngestCall → Prop :=
  Interleaving.Reaches (IngestOf key) (IngestStep W)

/-- `Ingest` from start to end, with nothing in between. -/
def ingest (W : Wiring) (compile : Event → Payload → Except Err (List JobIntent)) (s : DurableStore)
    (d : Delivery) (now : Time) : Outcome (RunID × Bool) :=
  match s.recordDelivery W d with
  | (.error err, s) => (.error (.wrap ("record delivery " ++ d.key.text ++ ": ") err ""), s)
  | (.ok (rec, _), s) =>
    match rec.runID with
    | some runID => (.ok (runID, false), s)
    | none =>
      match compile d.event rec.payload with
      | .error err => (.error (.wrap ("compile for delivery " ++ d.key.text ++ ": ") err ""), s)
      | .ok jobs =>
        match IngestCall.invalid jobs with
        | some msg => (.error (.wrap ("delivery " ++ d.key.text ++ ": ") (.errorf msg) ""), s)
        | none =>
          if jobs.isEmpty then (.ok ("", false), s)
          else
            match s.createRun W { delivery := d.key, event := d.event, jobs := jobs } now with
            | (.error err, s) =>
              (.error (.wrap ("create run for delivery " ++ d.key.text ++ ": ") err ""), s)
            | (.ok (run, createdRun), s) => (.ok (run.id, createdRun), s)

end Forgelet
