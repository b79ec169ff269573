import Forgelet.Scheduler.Dispatcher
import Forgelet.Scheduler.Ingestor
import Forgelet.Security.Policy
import Forgelet.Server.Conditions
import Forgelet.Server.Plans

/-!
# The server

`Server` (`internal/server/server.go`) over the in-memory stores: `Ingest`, `Rerequest` and `DispatchOnce`.
Reports to the provider, metrics and traces read the stores and are left out. The readings of the clock
that a call makes are its arguments.
-/

namespace Forgelet

open Compiler (JobInstance)

namespace Server

/-- What a server is wired with. `headFork` is `pull_request.head.repo.fork`, if it decodes. -/
structure Options where
  wiring : Wiring
  src : WorkflowSource
  headFork : Payload → Option Bool

/-- What the server keeps. -/
structure State where
  stores : Stores
  plans : GoMap JobRunID Plan
  trust : GoMap JobRunID TrustLevel
deriving DecidableEq

/-- A new server. -/
def State.new : State where
  stores := { durable := DurableStore.new, active := ActiveStore.new }
  plans := ∅
  trust := ∅

/-- The durable store. -/
def State.durable (st : State) : DurableStore := st.stores.durable

/-- Only the durable store changes. -/
def State.withDurable (st : State) (s : DurableStore) : State :=
  { st with stores := { st.stores with durable := s } }

/-- `trustFor` classifies a delivery. -/
def trustFor (opts : Options) (d : Delivery) : TrustLevel :=
  if d.event.name ≠ "pull_request" then .trusted
  else match opts.headFork d.payload with
    | none => .sameRepo
    | some true => .fork
    | some false => .sameRepo

/-! ## Ingestion -/

/-- `buildPlans` evaluates a condition that does not have to wait. -/
def eagerDecision (ev : Event) (rec : JobRunRecord) (runs : List JobRunRecord) (inst : JobInstance) :
    Except Expression.ExprError Bool :=
  if inst.cond ≠ "" ∧ isDeferredCondition inst.cond = false then checkCondition ev rec runs inst.cond
  else .ok true

/-- The error for a condition that cannot be evaluated. -/
def invalidIf (rec : JobRunRecord) (inst : JobInstance) (err : Expression.ExprError) : Err :=
  .wrap ("server: job " ++ rec.jobKey ++ ": invalid if " ++ GoString.quote inst.cond ++ ": ")
    (.errorf err.text.toString) ""

/-- The end of the loop of `buildPlans`: plan and trust level are stored. -/
def storePlan (opts : Options) (d : Delivery) (trust : TrustLevel) (st : State) (rec : JobRunRecord)
    (inst : JobInstance) : Except Err Unit × State :=
  match buildPlan opts.src rec d.event inst with
  | .error err => (.error (.wrap ("server: build plan for " ++ rec.id ++ ": ") err ""), st)
  | .ok p =>
    match p.digestError with
    | some err => (.error (.wrap ("server: store plan for " ++ rec.id ++ ": ") err ""), st)
    | none =>
      (.ok (), { st with
        plans := st.plans.insert p.jobRunID p
        trust := st.trust.insert rec.id trust })

/-- The body of the loop of `buildPlans`. -/
def planJob (opts : Options) (d : Delivery) (trust : TrustLevel) (skipTime : JobRunID → Time)
    (jobs : List JobInstance) (runs : List JobRunRecord) (st : State) (rec : JobRunRecord) :
    Except Err Unit × State :=
  match jobs.find? (·.key = rec.jobKey) with
  | none => (.error (.errorf ("server: job " ++ rec.jobKey ++ " missing from compiled set")), st)
  | some inst =>
    match eagerDecision d.event rec runs inst with
    | .error err => (.error (invalidIf rec inst err), st)
    | .ok false =>
      match projectObserved st.durable rec.id .skipped (skipTime rec.id) with
      | (.error err, s) => (.error (.wrap ("server: skip job " ++ rec.id ++ ": ") err ""), st.withDurable s)
      | (.ok (), s) => (.ok (), st.withDurable s)
    | .ok true => storePlan opts d trust st rec inst

/-- The loop of `buildPlans` over the jobs of the run, which ends at the first error. -/
def planJobs (opts : Options) (d : Delivery) (trust : TrustLevel) (skipTime : JobRunID → Time)
    (jobs : List JobInstance) (runs : List JobRunRecord) (st : State) :
    List JobRunRecord → Except Err Unit × State
  | [] => (.ok (), st)
  | rec :: rest =>
    match planJob opts d trust skipTime jobs runs st rec with
    | (.error err, st) => (.error err, st)
    | (.ok (), st) => planJobs opts d trust skipTime jobs runs st rest

/-- `buildPlans` compiles the workflows again and stores the plans. -/
def buildPlans (opts : Options) (d : Delivery) (runID : RunID) (trust : TrustLevel)
    (skipTime : JobRunID → Time) (st : State) : Except Err Unit × State :=
  match opts.src.matchedJobs d.event d.payload with
  | .error err => (.error (.wrap ("server: rebuild jobs for " ++ runID ++ ": ") err ""), st)
  | .ok jobs =>
    match st.durable.listJobRuns runID with
    | .error err => (.error (.wrap ("server: list jobs of " ++ runID ++ ": ") err ""), st)
    | .ok runs => planJobs opts d trust skipTime jobs runs st runs

/-- `Ingest` records a delivery and, for a new run, builds the plans. -/
def ingest (opts : Options) (d : Delivery) (now : Time) (skipTime : JobRunID → Time) (st : State) :
    Except Err (RunID × Bool) × State :=
  match Forgelet.ingest opts.wiring opts.src.compile st.durable d now with
  | (.error err, s) => (.error err, st.withDurable s)
  | (.ok (runID, created), s) =>
    if runID = "" ∨ created = false then (.ok (runID, created), st.withDurable s)
    else
      match buildPlans opts d runID (trustFor opts d) skipTime (st.withDurable s) with
      | (.error err, st) => (.error err, st)
      | (.ok (), st) => (.ok (runID, created), st)

/-- `Rerequest` creates a new attempt and copies plan and trust level. -/
def rerequest (opts : Options) (id : JobRunID) (now : Time) (st : State) :
    Except Err JobRunID × State :=
  match st.durable.rerequestJob opts.wiring id now with
  | (.error err, s) => (.error err, st.withDurable s)
  | (.ok newID, s) =>
    let st := st.withDurable s
    let st := match st.plans.lookup id with
      | none => st
      | some p =>
        let p := { p with jobRunID := newID }
        match p.digestError with
        | some _ => st
        | none => { st with plans := st.plans.insert newID p }
    let st := match st.trust.lookup id with
      | none => st
      | some trust => { st with trust := st.trust.insert newID trust }
    (.ok newID, st)

/-! ## Dispatch -/

/-- A job that is dispatched, and the store before the acknowledgement. -/
structure Moment where
  store : DurableStore
  job : JobRunRecord
deriving DecidableEq

/-- The dispatched jobs, the error of the loop and the stores after it. -/
structure Drained where
  moments : List Moment
  err : Option Err
  stores : Stores
deriving DecidableEq

/-- The loop of `DispatchOnce`, with faults and clock of each round. -/
def drain (W : Wiring) (faults : Nat → DispatchFaults) (now : Nat → Time) : Nat → Stores → Drained
  | 0, w => { moments := [], err := none, stores := w }
  | fuel + 1, w =>
    match w.dispatchNext W (faults fuel) (now fuel) with
    | (.error err, w) =>
      { moments := [], err := if err = .errNoQueuedJob then none else some err, stores := w }
    | (.ok job, w') =>
      let r := drain W faults now fuel w'
      { r with moments := { store := (w.durable.claimNextQueuedJob W).2, job := job } :: r.moments }

/-- The orders of Go's maps, the readings of the clock, and the calls that fail. -/
structure Circumstances where
  order : Nat → MapOrder RunID
  sweepTime : JobRunID → Time
  faults : Nat → DispatchFaults
  drainTime : Nat → Time

/-- The stores after the sweep of `DispatchOnce`, where its loop begins. -/
def swept (c : Circumstances) (w : Stores) : Stores :=
  { w with durable := evaluateDeferredConditions c.order c.sweepTime w.durable }

/-- `DispatchOnce` evaluates the deferred conditions and drains the queue. -/
def dispatchOnce (W : Wiring) (c : Circumstances) (w : Stores) : Drained :=
  drain W c.faults c.drainTime ((swept c w).durable.countQueuedJobs + 1) (swept c w)

end Server

end Forgelet
