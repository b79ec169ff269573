import Forgelet.Scheduler.Workers
import Forgelet.Server.Secrets

/-!
# The server's calls at the same time

`Ingest`, `Rerequest`, `DispatchOnce` and `handleSecrets` (`internal/server/server.go`), one access to the stores and
the maps of the server at a time. A call that is cut off takes no further step, and the workflow source may answer
differently each time. Everything else that uses the durable store is a single call in the background.
-/

namespace Forgelet.Server

open Compiler (JobInstance)
open DurableStore Policy

/-- What an `Ingest` does next after it has created a run: it is in `buildPlans`. -/
inductive BuildPoint
  /-- compile the matching workflows again -/
  | rebuild
  | listJobs (jobs : List JobInstance)
  /-- the loop, with the jobs that are left -/
  | plan (jobs : List JobInstance) (runs todo : List JobRunRecord)
  /-- store the trust level of `rec`, whose plan has been stored -/
  | trust (jobs : List JobInstance) (runs : List JobRunRecord) (rec : JobRunRecord)
      (todo : List JobRunRecord)
  | returned (err : Option Err)

/-- What a `Rerequest` does next; `newID` is the new attempt. -/
inductive RerequestPoint
  | attempt
  | getPlan (newID : JobRunID)
  | putPlan (newID : JobRunID) (p : Plan)
  | trust (newID : JobRunID)
  | returned (result : Except Err JobRunID)

/-- What a `DispatchOnce` does next; `n` is the number of jobs it has dispatched. -/
inductive DrainPoint
  | sweep
  | claim (n : Nat)
  | dispatch (n : Nat) (id : JobRunID) (point : DispatchPoint)
  | release (n : Nat) (id : JobRunID) (err : Err)
  | returned (n : Nat) (err : Option Err)

/-- What a `handleSecrets` does next. -/
inductive SecretsPoint
  | getPlan
  | decide (ident : Identity) (requested : List Ref) (p : Plan)
  | returned (response : Response)

/-- Runs are created by `Ingest`, attempts by `Rerequest`, and acknowledgements by `DispatchOnce`. -/
def Aside : StoreOp → Prop
  | .createRun _ _ | .rerequestJob _ _ | .ackDispatched _ _ _ => False
  | _ => True

/-- A call in progress. An `Ingest` that has created a run is a `build`. -/
inductive Task
  | ingest (call : IngestCall)
  | build (d : Delivery) (runID : RunID) (point : BuildPoint)
  | rerequest (id : JobRunID) (point : RerequestPoint)
  | drain (point : DrainPoint)
  | secrets (src : SecretSource) (req : SecretsRequest) (point : SecretsPoint)
  | background (op : StoreOp) (aside : Aside op) (finished : Bool)

/-- `Ingest` goes on with `buildPlans` when the run is new. -/
def afterIngest (call : IngestCall) : Task :=
  match call.point with
  | .returned (.ok (runID, true)) => if runID = "" then .ingest call else .build call.delivery runID .rebuild
  | _ => .ingest call

/-- `buildPlans`: the answer of `matchedJobs`. -/
def rebuilt (runID : RunID) : Except Err (List JobInstance) → BuildPoint
  | .error err => .returned (some (.wrap ("server: rebuild jobs for " ++ runID ++ ": ") err ""))
  | .ok jobs => .listJobs jobs

/-- `buildPlans`: `ListJobRuns`. -/
def listed (s : DurableStore) (runID : RunID) (jobs : List JobInstance) : BuildPoint :=
  match s.listJobRuns runID with
  | .error err => .returned (some (.wrap ("server: list jobs of " ++ runID ++ ": ") err ""))
  | .ok runs => .plan jobs runs runs

/-- `buildPlans`: the plan of a job is built and stored. -/
def putPlan (opts : Options) (d : Delivery) (st : State) (jobs : List JobInstance)
    (runs : List JobRunRecord) (rec : JobRunRecord) (todo : List JobRunRecord) (inst : JobInstance) :
    State × BuildPoint :=
  match buildPlan opts.src rec d.event inst with
  | .error err => (st, .returned (some (.wrap ("server: build plan for " ++ rec.id ++ ": ") err "")))
  | .ok p =>
    match p.digestError with
    | some err => (st, .returned (some (.wrap ("server: store plan for " ++ rec.id ++ ": ") err "")))
    | none => ({ st with plans := st.plans.insert p.jobRunID p }, .trust jobs runs rec todo)

/-- `buildPlans`: the body of the loop up to the trust level. -/
def planned (opts : Options) (d : Delivery) (now : Time) (st : State) (jobs : List JobInstance)
    (runs : List JobRunRecord) (rec : JobRunRecord) (todo : List JobRunRecord) : State × BuildPoint :=
  match jobs.find? (·.key = rec.jobKey) with
  | none => (st, .returned (some (.errorf ("server: job " ++ rec.jobKey ++ " missing from compiled set"))))
  | some inst =>
    match eagerDecision d.event rec runs inst with
    | .error err => (st, .returned (some (invalidIf rec inst err)))
    | .ok false =>
      match projectObserved st.durable rec.id .skipped now with
      | (.error err, s) =>
        (st.withDurable s, .returned (some (.wrap ("server: skip job " ++ rec.id ++ ": ") err "")))
      | (.ok (), s) => (st.withDurable s, .plan jobs runs todo)
    | .ok true => putPlan opts d st jobs runs rec todo inst

/-- `Rerequest`: `RerequestJob`. -/
def attempted (opts : Options) (id : JobRunID) (now : Time) (st : State) : State × RerequestPoint :=
  match st.durable.rerequestJob opts.wiring id now with
  | (.error err, s) => (st.withDurable s, .returned (.error err))
  | (.ok newID, s) => (st.withDurable s, .getPlan newID)

/-- `Rerequest`: `plans.Get`. -/
def gotPlan (st : State) (id newID : JobRunID) : RerequestPoint :=
  match st.plans.lookup id with
  | none => .trust newID
  | some p => .putPlan newID { p with jobRunID := newID }

/-- `Rerequest`: `plans.Put`, whose error is dropped. -/
def copiedPlan (st : State) (p : Plan) : State :=
  match p.digestError with
  | some _ => st
  | none => { st with plans := st.plans.insert p.jobRunID p }

/-- `Rerequest`: the trust level. -/
def copiedTrust (st : State) (id newID : JobRunID) : State :=
  match st.trust.lookup id with
  | none => st
  | some trust => { st with trust := st.trust.insert newID trust }

/-- `DispatchNext`: the claim. -/
def claimed (opts : Options) (n : Nat) (st : State) : State × DrainPoint :=
  match st.durable.claimNextQueuedJob opts.wiring with
  | (.error err, s) => (st.withDurable s, .returned n (if err = .errNoQueuedJob then none else some err))
  | (.ok job, s) => (st.withDurable s, .dispatch n job.id .load)

/-- `DispatchNext`: what it does when `Dispatch` has returned. -/
def dispatched (n : Nat) (id : JobRunID) : Except Err Unit → DrainPoint
  | .ok () => .claim (n + 1)
  | .error err => .release n id (.wrap ("dispatch " ++ id ++ ": ") err "")

/-- `handleSecrets`: the checks and `plans.Get`. -/
def gotSecretsPlan (st : State) (req : SecretsRequest) : SecretsPoint :=
  match checkRequest req with
  | .error response => .returned response
  | .ok (ident, requested) =>
    match st.plans.lookup req.id with
    | none => .returned (.httpError "plan not found" 404)
    | some p => .decide ident requested p

/-- One step of a task: the source holds no lock from one to the next. -/
inductive TaskStep (opts : Options) (st : State) : Task → State → Task → Prop
  | ingest {call call' : IngestCall} {s' : DurableStore}
      (h : IngestStep opts.wiring st.durable call s' call') :
      TaskStep opts st (.ingest call) (st.withDurable s') (afterIngest call')
  | rebuild {d : Delivery} {runID : RunID} (result : Except Err (List JobInstance)) :
      TaskStep opts st (.build d runID .rebuild) st (.build d runID (rebuilt runID result))
  | listJobs {d : Delivery} {runID : RunID} {jobs : List JobInstance} :
      TaskStep opts st (.build d runID (.listJobs jobs)) st (.build d runID (listed st.durable runID jobs))
  | plan {d : Delivery} {runID : RunID} {jobs : List JobInstance} {runs : List JobRunRecord}
      {rec : JobRunRecord} {todo : List JobRunRecord} (now : Time) :
      TaskStep opts st (.build d runID (.plan jobs runs (rec :: todo)))
        (planned opts d now st jobs runs rec todo).1
        (.build d runID (planned opts d now st jobs runs rec todo).2)
  | planEnd {d : Delivery} {runID : RunID} {jobs : List JobInstance} {runs : List JobRunRecord} :
      TaskStep opts st (.build d runID (.plan jobs runs [])) st (.build d runID (.returned none))
  | trust {d : Delivery} {runID : RunID} {jobs : List JobInstance} {runs : List JobRunRecord}
      {rec : JobRunRecord} {todo : List JobRunRecord} :
      TaskStep opts st (.build d runID (.trust jobs runs rec todo))
        { st with trust := st.trust.insert rec.id (trustFor opts d) }
        (.build d runID (.plan jobs runs todo))
  | attempt {id : JobRunID} (now : Time) :
      TaskStep opts st (.rerequest id .attempt) (attempted opts id now st).1
        (.rerequest id (attempted opts id now st).2)
  | getPlan {id newID : JobRunID} :
      TaskStep opts st (.rerequest id (.getPlan newID)) st (.rerequest id (gotPlan st id newID))
  | putPlan {id newID : JobRunID} {p : Plan} :
      TaskStep opts st (.rerequest id (.putPlan newID p)) (copiedPlan st p) (.rerequest id (.trust newID))
  | copyTrust {id newID : JobRunID} :
      TaskStep opts st (.rerequest id (.trust newID)) (copiedTrust st id newID)
        (.rerequest id (.returned (.ok newID)))
  /-- the sweep ends a job whose condition is false or cannot be evaluated -/
  | sweep {id : JobRunID} {phase : ObservedPhase} (ends : phase = .skipped ∨ phase = .failed) (now : Time) :
      TaskStep opts st (.drain .sweep) (st.withDurable (projectObserved st.durable id phase now).2)
        (.drain .sweep)
  | sweepEnd : TaskStep opts st (.drain .sweep) st (.drain (.claim 0))
  | claim {n : Nat} :
      TaskStep opts st (.drain (.claim n)) (claimed opts n st).1 (.drain (claimed opts n st).2)
  | load {n : Nat} {id : JobRunID} :
      TaskStep opts st (.drain (.dispatch n id .load)) st
        (.drain (.dispatch n id (Worker.load st.durable id)))
  | create {n : Nat} {id : JobRunID} (faults : DispatchFaults) :
      TaskStep opts st (.drain (.dispatch n id .create))
        { st with stores := (Worker.create st.stores faults id).1 }
        (.drain (.dispatch n id (Worker.create st.stores faults id).2))
  | ack {n : Nat} {id : JobRunID} {uid : String} (faults : DispatchFaults) (now : Time) :
      TaskStep opts st (.drain (.dispatch n id (.ack uid)))
        { st with stores := (Worker.ack st.stores faults id uid now).1 }
        (.drain (.dispatch n id (Worker.ack st.stores faults id uid now).2))
  | dispatched {n : Nat} {id : JobRunID} {result : Except Err Unit} :
      TaskStep opts st (.drain (.dispatch n id (.returned result))) st (.drain (dispatched n id result))
  | release {n : Nat} {id : JobRunID} {err : Err} :
      TaskStep opts st (.drain (.release n id err)) (st.withDurable (st.durable.releaseClaim id).2)
        (.drain (.returned n (some err)))
  | getSecretsPlan {src : SecretSource} {req : SecretsRequest} :
      TaskStep opts st (.secrets src req .getPlan) st (.secrets src req (gotSecretsPlan st req))
  | decide {src : SecretSource} {req : SecretsRequest} {ident : Identity} {requested : List Ref} {p : Plan} :
      TaskStep opts st (.secrets src req (.decide ident requested p)) st
        (.secrets src req (.returned (respond src ident requested p (st.trust.lookup req.id))))
  | background {op : StoreOp} {aside : Aside op} :
      TaskStep opts st (.background op aside false) (st.withDurable (op.apply opts.wiring st.durable))
        (.background op aside true)

/-- The step of a call when nothing fails, the sweep ends nothing and the clock reads `now`. -/
def Task.exec (opts : Options) (now : Time) (st : State) : Task → Option (State × Task)
  | .ingest call =>
    match call.point with
    | .record =>
      some (st.withDurable (call.record opts.wiring st.durable).2,
        afterIngest (call.record opts.wiring st.durable).1)
    | .compile payload =>
      some (st.withDurable st.durable, afterIngest (call.compiled (opts.src.compile call.delivery.event payload)))
    | .create =>
      some (st.withDurable (call.create opts.wiring st.durable now).2,
        afterIngest (call.create opts.wiring st.durable now).1)
    | .returned _ => none
  | .build d runID .rebuild =>
    some (st, .build d runID (rebuilt runID (opts.src.matchedJobs d.event d.payload)))
  | .build d runID (.listJobs jobs) => some (st, .build d runID (listed st.durable runID jobs))
  | .build d runID (.plan jobs runs (rec :: todo)) =>
    some ((planned opts d now st jobs runs rec todo).1,
      .build d runID (planned opts d now st jobs runs rec todo).2)
  | .build d runID (.plan _ _ []) => some (st, .build d runID (.returned none))
  | .build d runID (.trust jobs runs rec todo) =>
    some ({ st with trust := st.trust.insert rec.id (trustFor opts d) },
      .build d runID (.plan jobs runs todo))
  | .rerequest id .attempt =>
    some ((attempted opts id now st).1, .rerequest id (attempted opts id now st).2)
  | .rerequest id (.getPlan newID) => some (st, .rerequest id (gotPlan st id newID))
  | .rerequest id (.putPlan newID p) => some (copiedPlan st p, .rerequest id (.trust newID))
  | .rerequest id (.trust newID) => some (copiedTrust st id newID, .rerequest id (.returned (.ok newID)))
  | .drain .sweep => some (st, .drain (.claim 0))
  | .drain (.claim n) => some ((claimed opts n st).1, .drain (claimed opts n st).2)
  | .drain (.dispatch n id .load) => some (st, .drain (.dispatch n id (Worker.load st.durable id)))
  | .drain (.dispatch n id .create) =>
    some ({ st with stores := (Worker.create st.stores .none id).1 },
      .drain (.dispatch n id (Worker.create st.stores .none id).2))
  | .drain (.dispatch n id (.ack uid)) =>
    some ({ st with stores := (Worker.ack st.stores .none id uid now).1 },
      .drain (.dispatch n id (Worker.ack st.stores .none id uid now).2))
  | .drain (.dispatch n id (.returned result)) => some (st, .drain (dispatched n id result))
  | .drain (.release n id err) =>
    some (st.withDurable (st.durable.releaseClaim id).2, .drain (.returned n (some err)))
  | .secrets src req .getPlan => some (st, .secrets src req (gotSecretsPlan st req))
  | .secrets src req (.decide ident requested p) =>
    some (st, .secrets src req (.returned (respond src ident requested p (st.trust.lookup req.id))))
  | .background op aside false =>
    some (st.withDurable (op.apply opts.wiring st.durable), .background op aside true)
  | _ => none

/-- A call that has just been made. -/
inductive Arrives : Task → Prop
  | ingest (d : Delivery) : Arrives (.ingest (.begin d))
  | rerequest (id : JobRunID) : Arrives (.rerequest id .attempt)
  | drain : Arrives (.drain .sweep)
  | secrets (src : SecretSource) (req : SecretsRequest) : Arrives (.secrets src req .getPlan)
  | background (op : StoreOp) (aside : Aside op) : Arrives (.background op aside false)

/-- Tasks at one server. -/
abbrev Tasks := Interleaving.Config State Task

/-- A new server. -/
def Tasks.new : Tasks := ⟨State.new, []⟩

/-- A call may act, unless it would claim a job that has no plan yet. -/
def PlansReady (opts : Options) (st : State) : Task → Prop
  | .drain (.claim _) =>
    ∀ job, (st.durable.claimNextQueuedJob opts.wiring).1 = .ok job → (st.plans.lookup job.id).isSome
  | _ => True

instance (opts : Options) (st : State) : DecidablePred (PlansReady opts st)
  | .drain (.claim _) =>
    match h : (st.durable.claimNextQueuedJob opts.wiring).1 with
    | .ok job => decidable_of_iff ((st.plans.lookup job.id).isSome) (by simp [PlansReady, h])
    | .error _ => .isTrue (by simp [PlansReady, h])
  | .drain .sweep | .drain (.dispatch _ _ _) | .drain (.release _ _ _) | .drain (.returned _ _) =>
    .isTrue trivial
  | .ingest _ | .build _ _ _ | .rerequest _ _ | .secrets _ _ _ | .background _ _ _ => .isTrue trivial

/-- The call is an `Ingest` that has created the run for a pull request from a fork. -/
def Task.BuildsFork (opts : Options) (runID : RunID) : Task → Prop
  | .build d r _ => r = runID ∧ trustFor opts d = .fork
  | _ => False

instance (opts : Options) (runID : RunID) : DecidablePred (Task.BuildsFork opts runID)
  | .build d r _ => inferInstanceAs (Decidable (r = runID ∧ trustFor opts d = .fork))
  | .ingest _ | .rerequest _ _ | .drain _ | .secrets _ _ _ | .background _ _ _ => .isFalse fun h => h

/-- The run was created for a pull request from a fork. -/
def ForkRun (opts : Options) (c : Tasks) (runID : RunID) : Prop :=
  ∃ p ∈ c.procs, p.BuildsFork opts runID

instance (opts : Options) (c : Tasks) (runID : RunID) : Decidable (ForkRun opts c runID) :=
  inferInstanceAs (Decidable (∃ p ∈ c.procs, p.BuildsFork opts runID))

/-- A call may act, unless it decides on a secret of such a job before its trust level is stored. -/
def TrustReady (opts : Options) (c : Tasks) : Task → Prop
  | .secrets src req (.decide _ requested p) =>
    ∀ job, c.shared.durable.getJobRun req.id = .ok job → ForkRun opts c job.runID →
      (c.shared.trust.lookup req.id).isSome ∨ ∀ r ∈ requested, r ∈ planRefs p → src.value r = none
  | _ => True

instance (opts : Options) (c : Tasks) : DecidablePred (TrustReady opts c)
  | .secrets src req (.decide _ requested p) =>
    match h : c.shared.durable.getJobRun req.id with
    | .ok job =>
      decidable_of_iff (ForkRun opts c job.runID → (c.shared.trust.lookup req.id).isSome ∨
        ∀ r ∈ requested, r ∈ planRefs p → src.value r = none) (by simp [TrustReady, h])
    | .error _ => .isTrue (by simp [TrustReady, h])
  | .secrets _ _ .getPlan | .secrets _ _ (.returned _) => .isTrue trivial
  | .ingest _ | .build _ _ _ | .rerequest _ _ | .drain _ | .background _ _ _ => .isTrue trivial

end Forgelet.Server
