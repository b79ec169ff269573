import Forgelet.Scheduler.Port

/-!
# The JobRun controller

`internal/runtime/controller/jobrun_controller.go` over the objects of one namespace. An object is filed
under its name. The status of a JobRun is a subresource: `Status().Update` writes it and nothing else.
-/

namespace Forgelet.Controller

/-! ## Objects -/

/-- The observed phase of a JobRun, a string of the API; `unset` is the empty one. -/
inductive JobRunPhase
  | unset
  | pending
  | running
  | succeeded
  | failed
  | other (text : String)
deriving DecidableEq, Repr

/-- The phase as the resource spells it. -/
def JobRunPhase.text : JobRunPhase → String
  | unset => ""
  | pending => "pending"
  | running => "running"
  | succeeded => "succeeded"
  | failed => "failed"
  | other text => text

/-- `corev1.PodPhase`; `unset` is the phase of a pod that has none yet. -/
inductive PodPhase
  | unset
  | pending
  | running
  | succeeded
  | failed
  | unknown
deriving DecidableEq, Repr

/-- `metav1.Condition`. Its transition time is left out: nothing reads it. -/
structure Condition where
  type : String
  status : Bool
  reason : String
  message : String
  observedGeneration : Int
deriving DecidableEq, Repr

/-- What a job run asks for. -/
structure JobRunSpec where
  runID : RunID
  jobKey : String
  runnerClass : String
  planID : String
  planDigest : String
  attempt : Int
deriving DecidableEq, Repr

/-- What the controller has observed. -/
structure JobRunStatus where
  phase : JobRunPhase
  podName : String
  podUID : String
  startedAt : Option Time
  finishedAt : Option Time
  conditions : List Condition
deriving DecidableEq, Repr

/-- The custom resource of a job run. -/
structure JobRun where
  generation : Int
  spec : JobRunSpec
  status : JobRunStatus
deriving DecidableEq, Repr

/-- Nothing is reconciled any more. -/
def JobRun.terminal (jr : JobRun) : Bool := jr.status.phase == .succeeded || jr.status.phase == .failed

/-- The part of a RunnerClass that `buildPod` reads; the resources are a text. -/
structure RunnerClass where
  image : String
  resources : String
  nodeSelector : GoMap String String
deriving DecidableEq

/-- The container that runs the job. -/
structure Container where
  name : String
  image : String
  command : List String
  args : List String
  resources : String
  workingDir : String
  volumeMounts : List (String × String × Bool)
deriving DecidableEq, Repr

/-- The specification of a job pod. The volumes are the empty directory and the projected token with its audience,
seconds, path and mode. -/
structure PodSpec where
  restartNever : Bool
  automountServiceAccountToken : Bool
  serviceAccountName : String
  nodeSelector : GoMap String String
  container : Container
  emptyDirVolume : String
  tokenVolume : String × String × Nat × String × Nat
deriving DecidableEq

/-- A pod as the controller reads it. -/
structure Pod where
  uid : String
  labels : GoMap String String
  owner : Option String
  spec : PodSpec
  phase : PodPhase
deriving DecidableEq

/-- What follows the name of a job run in that of its pod. -/
def podSuffix : String := "-pod"

/-- `PodRunning` and so on, as a phase of the JobRun: `mapPodPhase`. -/
def mapPodPhase : PodPhase → JobRunPhase
  | .running => .running
  | .succeeded => .succeeded
  | .failed => .failed
  | _ => .pending

/-- The order of the phases, in which a status only moves forward. -/
def phaseRank : JobRunPhase → Nat
  | .succeeded => 2
  | .failed => 2
  | .running => 1
  | _ => 0

/-- The phase as the store is told. -/
def toModelPhase : JobRunPhase → ObservedPhase
  | .running => .running
  | .succeeded => .succeeded
  | .failed => .failed
  | _ => .pending

/-- `buildPod`, with the owner, and the uid and phase that the API server gives. -/
def buildPod (name uid : String) (jr : JobRun) (cls : RunnerClass) : Pod where
  uid := uid
  labels := ((∅ : GoMap String String).insert "ci.forgelet.dev/app" "executor").insert
    "ci.forgelet.dev/jobrun-id" jr.spec.planID
  owner := some name
  phase := .pending
  spec :=
    { restartNever := true
      automountServiceAccountToken := false
      serviceAccountName := "forgelet-executor"
      nodeSelector := cls.nodeSelector
      container :=
        { name := "job"
          image := cls.image
          command := ["/ci/executor"]
          args := ["--jobrun=" ++ jr.spec.planID]
          resources := cls.resources
          workingDir := "/workspace"
          volumeMounts := [("workspace", "/workspace", false),
            ("control-plane-token", "/var/run/forgelet", true)] }
      emptyDirVolume := "workspace"
      tokenVolume := ("control-plane-token", "forgelet-control-plane", 3600, "token", 420) }

/-- The job run that a resource name stands for. -/
def idFromCRName (name : String) : Except Err JobRunID :=
  if name.length ≤ 7 ∨ GoString.hasPrefix name "jobrun-" = false then
    .error (.errorf ("controller: CR name " ++ GoString.quote name ++ " lacks \"jobrun-\" prefix"))
  else .ok (GoString.trimPrefix name "jobrun-")

/-! ## The cluster -/

/-- A call of the store's `ApplyObserved`. -/
structure Projected where
  id : JobRunID
  phase : ObservedPhase
  now : Time
deriving DecidableEq, Repr

/-- The objects of the namespace, and the projection calls that succeeded. -/
structure Cluster where
  jobRuns : GoMap String JobRun
  classes : GoMap String RunnerClass
  pods : GoMap String Pod
  projected : List Projected
deriving DecidableEq

/-- How the creation of a pod fails. -/
inductive CreateFault
  | alreadyExists
  | failed (cause : Err)
deriving DecidableEq, Repr

/-- What a Reconcile gets from outside: the clock, the uid of a new pod, and the calls that fail. -/
structure Calls where
  now : Time
  podUID : String
  getJobRun : Option Err
  getClass : Option Err
  getPod : Option Err
  setOwner : Option Err
  createPod : Option CreateFault
  updateStatus : Option Err
  applyObserved : Option Err
deriving DecidableEq

/-- A Reconcile without error: the seconds after which to call it again. -/
structure Result where
  requeueAfter : Nat
deriving DecidableEq, Repr

/-- `Status().Update`: the stored object gets the status of `jr`. -/
def updateStatus (calls : Calls) (w : Cluster) (name : String) (jr : JobRun) : Except Err Cluster :=
  match calls.updateStatus with
  | some err => .error err
  | none => .ok { w with jobRuns := w.jobRuns.insert name jr }

/-- The phase is told to the store. -/
def applyObserved (calls : Calls) (w : Cluster) (id : JobRunID) (phase : ObservedPhase) :
    Except Err Cluster :=
  match calls.applyObserved with
  | some err => .error err
  | none => .ok { w with projected := w.projected ++ [{ id := id, phase := phase, now := calls.now }] }

/-- `meta.SetStatusCondition`: one condition of each type. -/
def setStatusCondition (conditions : List Condition) (c : Condition) : List Condition :=
  if conditions.any (·.type == c.type) then
    conditions.map fun old => if old.type == c.type then c else old
  else conditions ++ [c]

/-- The condition `Ready`. -/
def readyCondition (jr : JobRun) (status : Bool) (reason message : String) : Condition where
  type := "Ready"
  status := status
  reason := reason
  message := message
  observedGeneration := jr.generation

/-- The condition `Ready` is written if it changes. -/
def updateConditions (calls : Calls) (w : Cluster) (name : String) (jr : JobRun) (status : Bool)
    (reason message : String) : Except Err Cluster :=
  match jr.status.conditions.find? (·.type == "Ready") with
  | some c =>
    if c.status = status ∧ c.reason = reason ∧ c.message = message then .ok w else write
  | none => write
where
  write : Except Err Cluster :=
    let conditions :=
      setStatusCondition jr.status.conditions (readyCondition jr status reason message)
    match updateStatus calls w name { jr with status := { jr.status with conditions := conditions } } with
    | .error err => .error (.wrap ("update jobrun " ++ name ++ " conditions: ") err "")
    | .ok w => .ok w

/-- The status that `observePod` writes. -/
def observedStatus (jr : JobRun) (phase : JobRunPhase) (podName podUID : String) (now : Time) :
    JobRunStatus where
  phase := phase
  podName := podName
  podUID := podUID
  startedAt :=
    match phase with
    | .running | .succeeded | .failed => some (jr.status.startedAt.getD now)
    | _ => jr.status.startedAt
  finishedAt :=
    match phase with
    | .succeeded | .failed => some (jr.status.finishedAt.getD now)
    | _ => jr.status.finishedAt
  conditions := setStatusCondition jr.status.conditions
    (readyCondition jr false "Progressing" ("observed phase " ++ phase.text))

/-- `observePod`. An error leaves what was written before it. -/
def observePod (calls : Calls) (w : Cluster) (name : String) (jr : JobRun) (pod : Pod) :
    Cluster × Except Err Result :=
  let phase := mapPodPhase pod.phase
  if phaseRank phase < phaseRank jr.status.phase then (w, .ok ⟨0⟩)
  else if jr.status.phase = phase ∧ jr.status.podName = name ++ podSuffix ∧ jr.status.podUID = pod.uid then
    (w, .ok ⟨0⟩)
  else
    let status := observedStatus jr phase (name ++ podSuffix) pod.uid calls.now
    match updateStatus calls w name { jr with status := status } with
    | .error err => (w, .error (.wrap ("update jobrun " ++ name ++ " status: ") err ""))
    | .ok w =>
      if jr.spec.planID = "" then (w, .error (.errorf ("jobrun " ++ name ++ " has no plan id")))
      else
        match applyObserved calls w jr.spec.planID (toModelPhase phase) with
        | .error err =>
          (w, .error (.wrap ("project observed " ++ phase.text ++ " for " ++ name ++ ": ") err ""))
        | .ok w => (w, .ok ⟨0⟩)

/-- The part of `Reconcile` for a JobRun that has no pod. -/
def createPod (calls : Calls) (w : Cluster) (name : String) (jr : JobRun) (cls : RunnerClass) :
    Cluster × Except Err Result :=
  let podName := name ++ podSuffix
  match updateConditions calls w name jr true "Progressing" "creating primary pod" with
  | .error err => (w, .error err)
  | .ok w =>
    match calls.setOwner with
    | some err => (w, .error (.wrap ("set owner ref for pod " ++ podName ++ ": ") err ""))
    | none =>
      match calls.createPod with
      | some .alreadyExists => (w, .ok ⟨1⟩)
      | some (.failed err) => (w, .error (.wrap ("create pod " ++ podName ++ ": ") err ""))
      | none => ({ w with pods := w.pods.insert podName (buildPod name calls.podUID jr cls) }, .ok ⟨0⟩)

/-- `Reconcile` for the job run `name`. -/
def reconcile (calls : Calls) (w : Cluster) (name : String) : Cluster × Except Err Result :=
  match calls.getJobRun, w.jobRuns.lookup name with
  | some err, _ => (w, .error (.wrap ("get jobrun " ++ name ++ ": ") err ""))
  | none, none => (w, .ok ⟨0⟩)
  | none, some jr =>
    match idFromCRName name with
    | .error err => (w, .error err)
    | .ok _ =>
      match calls.getClass, w.classes.lookup jr.spec.runnerClass with
      | some err, _ => (w, .error (.wrap ("get runnerclass " ++ jr.spec.runnerClass ++ ": ") err ""))
      | none, none =>
        match updateConditions calls w name jr false "RunnerClassMissing"
            ("RunnerClass " ++ GoString.quote jr.spec.runnerClass ++ " not found") with
        | .error err => (w, .error err)
        | .ok w => (w, .ok ⟨30⟩)
      | none, some cls =>
        match calls.getPod, w.pods.lookup (name ++ podSuffix) with
        | some err, _ => (w, .error (.wrap ("get pod " ++ name ++ podSuffix ++ ": ") err ""))
        | none, none => if jr.terminal then (w, .ok ⟨0⟩) else createPod calls w name jr cls
        | none, some pod => observePod calls w name jr pod

/-! ## Runs -/

/-- What others do: JobRuns are created without a status and deleted, classes and pods change. -/
inductive Changes : Cluster → Cluster → Prop
  | createJobRun (w : Cluster) (name : String) (jr : JobRun) (hphase : jr.status.phase = .unset) :
      Changes w { w with jobRuns := w.jobRuns.insert name jr }
  | deleteJobRun (w : Cluster) (name : String) : Changes w { w with jobRuns := w.jobRuns.erase name }
  | classes (w : Cluster) (classes : GoMap String RunnerClass) : Changes w { w with classes := classes }
  | pods (w : Cluster) (pods : GoMap String Pod) : Changes w { w with pods := pods }

/-- The states reached from `start` when every Reconcile meets the condition `ok`. -/
inductive Reaches (ok : Calls → Cluster → String → Prop) (start : Cluster) : Cluster → Prop
  | refl : Reaches ok start start
  | reconcile {w : Cluster} (calls : Calls) (name : String) :
      Reaches ok start w → ok calls w name → Reaches ok start (reconcile calls w name).1
  | changes {w w' : Cluster} : Reaches ok start w → Changes w w' → Reaches ok start w'

end Forgelet.Controller
