import Forgelet.Server.Server
import Forgelet.Store.Proofs.ClaimProofs

/-!
# Runs of the server

The server as a state machine whose steps are calls; what a job must satisfy when it is dispatched; and the calls after
which it does. A condition was evaluated when the run was created, or by the sweep before the loop of `DispatchOnce`;
`Sound` says when this is as good as evaluating it at dispatch.
-/

namespace Forgelet.Server

open DurableStore Relation

/-- What the server is asked to do. -/
inductive Call
  | ingest (d : Delivery) (now : Time) (skipTime : JobRunID → Time)
  | applyObserved (id : JobRunID) (phase : ObservedPhase) (now : Time)
  | cancelRun (id : RunID) (now : Time)
  | rerequest (id : JobRunID) (now : Time)
  | dispatchOnce (c : Circumstances)

/-- The state after a call, whether the call succeeded or not. -/
def Call.apply (opts : Options) (st : State) : Call → State
  | ingest d now skipTime => (Server.ingest opts d now skipTime st).2
  | applyObserved id phase now => st.withDurable (st.durable.applyObserved id phase now).2
  | cancelRun id now => st.withDurable (st.durable.cancelRun id now).2
  | rerequest id now => (Server.rerequest opts id now st).2
  | dispatchOnce c => { st with stores := (Server.dispatchOnce opts.wiring c st.stores).stores }

/-- One call that meets the condition `ok`. -/
def Step (opts : Options) (ok : State → Call → Prop) (st st' : State) : Prop :=
  ∃ call, ok st call ∧ st' = call.apply opts st

/-- The states a new server reaches by calls that meet the condition `ok`. -/
def Reaches (opts : Options) (ok : State → Call → Prop) (st : State) : Prop :=
  ReflTransGen (Step opts ok) State.new st

/-- The latest attempt of a key is there and has the property `p`. -/
def LatestIs (jobs : List JobRunRecord) (key : String) (p : JobRunStatus → Bool) : Prop :=
  ∃ dep ∈ jobs, dep.jobKey = key ∧ (∀ j ∈ jobs, j.jobKey = key → j.attempt ≤ dep.attempt) ∧
    p dep.status

instance (jobs : List JobRunRecord) (key : String) (p : JobRunStatus → Bool) :
    Decidable (LatestIs jobs key p) :=
  inferInstanceAs (Decidable (∃ dep ∈ jobs, dep.jobKey = key ∧
    (∀ j ∈ jobs, j.jobKey = key → j.attempt ≤ dep.attempt) ∧ p dep.status))

/-- The run of a job is stored, and its condition is true among its jobs. -/
def conditionHolds (s : DurableStore) (job : JobRunRecord) : Bool :=
  match s.runs.lookup job.runID with
  | none => false
  | some run => checkCondition run.event job (s.jobsOf job.runID) job.condition = .ok true

/-- The dependencies are terminal, and have succeeded if the job has no condition, which otherwise holds. -/
structure DispatchedProperly (m : Moment) : Prop where
  terminal : ∀ key ∈ m.job.dependsOn,
    LatestIs (m.store.jobsOf m.job.runID) key JobRunStatus.isTerminal
  condition : if m.job.condition = "" then
      ∀ key ∈ m.job.dependsOn, LatestIs (m.store.jobsOf m.job.runID) key (· == .succeeded)
    else conditionHolds m.store m.job

instance (m : Moment) : Decidable (DispatchedProperly m) :=
  decidable_of_iff
    ((∀ key ∈ m.job.dependsOn,
        LatestIs (m.store.jobsOf m.job.runID) key JobRunStatus.isTerminal) ∧
      if m.job.condition = "" then
        ∀ key ∈ m.job.dependsOn, LatestIs (m.store.jobsOf m.job.runID) key (· == .succeeded)
      else conditionHolds m.store m.job)
    ⟨fun h => ⟨h.1, h.2⟩, fun h => ⟨h.terminal, h.condition⟩⟩

/-- Ended without success. -/
def unsuccessful (status : JobRunStatus) : Bool :=
  status == .failed || status == .cancelled || status == .skipped

/-- The keys before this one are in the by-key index of the run. -/
def Seen (s : DurableStore) (job : JobRunRecord) (key : String) : Prop :=
  ∃ before after, job.dependsOn = before ++ key :: after ∧
    ∀ k ∈ before, (s.indexed job.runID k).isSome

/-- The loop may skip queued jobs without a condition that depend on one that failed or may be skipped. -/
inductive SkipReach (s : DurableStore) : JobRunID → Prop
  | ended {id : JobRunID} {job : JobRunRecord} {key : String} {status : JobRunStatus}
      (found : s.jobs.lookup id = some job) (queued : job.status = .queued)
      (unconditional : job.condition = "") (seen : Seen s job key)
      (shown : s.depStatus job.runID key = some status) (ended : unsuccessful status) :
      SkipReach s id
  | via {id depID : JobRunID} {job : JobRunRecord} {key : String}
      (found : s.jobs.lookup id = some job) (queued : job.status = .queued)
      (unconditional : job.condition = "") (seen : Seen s job key)
      (latest : s.indexed job.runID key = some depID) (skipped : SkipReach s depID) : SkipReach s id

/-- The latest attempt of a key ended without success or may be skipped by the loop. -/
def Stops (s : DurableStore) (r : RunID) (key : String) : Prop :=
  (∃ status, s.depStatus r key = some status ∧ unsuccessful status) ∨
    ∃ id, s.indexed r key = some id ∧ SkipReach s id

/-- The gate may let a job with a condition pass during the loop. -/
def MayPass (s : DurableStore) (job : JobRunRecord) : Prop :=
  (∀ key ∈ job.dependsOn, s.depStatus job.runID key = some .succeeded) ∨
    ∃ key, Seen s job key ∧ Stops s job.runID key

/-- Some of the jobs that the loop may skip are skipped. -/
def MayBecome (s : DurableStore) (l l' : List JobRunRecord) : Prop :=
  List.Forall₂ (fun j j' => j'.jobKey = j.jobKey ∧
    (githubResultName j'.status = githubResultName j.status ∨
      SkipReach s j.id ∧ j'.status = .skipped)) l l'

/-- A job as it was before anything happened to it. -/
def asQueued (j : JobRunRecord) : JobRunRecord := { j with status := .queued }

/-- The check that `DispatchOnce` does not make for a job with a condition, in the state in which its loop begins. A
condition was evaluated by the sweep or when the run was created. What the loop may still skip must not change the
value since then, and all dependencies must be terminal when the gate lets the job pass. -/
structure Sound (s : DurableStore) (job : JobRunRecord) (run : RunRecord) : Prop where
  stored : s.runs.lookup job.runID = some run
  swept : isDeferredCondition job.condition →
    conditionReady (s.jobsOf job.runID) job ∧
      (∀ key ∈ job.dependsOn, (s.indexed job.runID key).isSome) ∧
      ∀ l, MayBecome s (s.jobsOf job.runID) l →
        checkCondition run.event job l job.condition =
          checkCondition run.event job (s.jobsOf job.runID) job.condition
  eager : isDeferredCondition job.condition = false →
    (∀ key, Seen s job key → Stops s job.runID key → ∀ other ∈ job.dependsOn, other ≠ key →
      ∃ status, s.depStatus job.runID other = some status ∧ status.isTerminal) ∧
      ∀ l, MayBecome s (s.jobsOf job.runID) l →
        checkCondition run.event job l job.condition =
          checkCondition run.event job ((s.jobsOf job.runID).map asQueued) job.condition

/-- `buildPlans` gets past the job of `inst`. -/
def Plannable (opts : Options) (ev : Event) (rec : JobRunRecord) (runs : List JobRunRecord)
    (inst : Compiler.JobInstance) : Prop :=
  eagerDecision ev rec runs inst = .ok false ∨
    eagerDecision ev rec runs inst = .ok true ∧
      ∃ p, buildPlan opts.src rec ev inst = .ok p ∧ p.steps ≠ []

/-- The record of an instance in a new run, as far as a condition can tell. -/
def draftOf (inst : Compiler.JobInstance) : JobRunRecord := newJob "" "" (intentFor inst) 0

/-- Every job whose condition is not true at first is skipped by `buildPlans`. -/
def EagerSkips (opts : Options) (ev : Event) (jobs : List Compiler.JobInstance) : Prop :=
  ∀ before inst after, jobs = before ++ inst :: after →
    eagerDecision ev (draftOf inst) (jobs.map draftOf) inst ≠ .ok true →
      eagerDecision ev (draftOf inst) (jobs.map draftOf) inst = .ok false ∧
        ∀ x ∈ before, Plannable opts ev (draftOf x) (jobs.map draftOf) x

/-- The condition of a job holds when none of the jobs of the run has a result. -/
def EagerlyTrue (s : DurableStore) (job : JobRunRecord) : Prop :=
  job.condition = "" ∨ isDeferredCondition job.condition ∨
    ∀ run, s.runs.lookup job.runID = some run →
      checkCondition run.event job ((s.jobsOf job.runID).map asQueued) job.condition = .ok true

/-- The calls after which dispatches are proper: an `Ingest` has the recorded payload and skips the jobs whose
condition is false, a `Rerequest` brings none of them back, and `DispatchOnce` begins with sound conditions. -/
def Disciplined (opts : Options) (st : State) : Call → Prop
  | .ingest d _ _ =>
    (∀ record, st.durable.deliveries.lookup d.key = some record → record.runID = none →
        record.payload = d.payload) ∧
      ((∀ record, st.durable.deliveries.lookup d.key = some record → record.runID = none) →
        ∀ jobs, opts.src.matchedJobs d.event d.payload = .ok jobs → (jobs.map (·.key)).Nodup →
          EagerSkips opts d.event jobs)
  | .rerequest id _ => ∀ job, st.durable.jobs.lookup id = some job → EagerlyTrue st.durable job
  | .dispatchOnce c =>
    ∀ id job, (swept c st.stores).durable.jobs.lookup id = some job → job.status = .queued →
      job.condition ≠ "" → MayPass (swept c st.stores).durable job →
      ∃ run, Sound (swept c st.stores).durable job run
  | _ => True

end Forgelet.Server
