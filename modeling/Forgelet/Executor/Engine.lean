import Forgelet.Executor.Output
import Forgelet.Expression.Eval
import Forgelet.Lib.Path
import Forgelet.Run.Plan

/-!
# The executor's engine

`Engine.Run` (`internal/runtime/executor/engine.go`, with `expr.go`, `port.go` and the checks of `runJS`). Everything
outside of the engine is a `Host`; since a run comes to each step at most once, what a step does is a function of its
index and of what it is given. At run time every text is a byte string.
-/

namespace Forgelet.Executor

open Bytes (ofString byte)
open Expression (ExprError Value WorkspaceHasher evaluateCondition hasExpression interpolate)

/-! ## Results -/

/-- What a step came to. -/
inductive Outcome
  | success
  | failure
  | skipped
deriving DecidableEq

/-- The outcome as expressions and reports show it. -/
def Outcome.text : Outcome → String
  | success => "success"
  | failure => "failure"
  | skipped => "skipped"

/-- The entry of a step in a report. -/
structure StepResult where
  stepID : Bytes
  exitCode : Int
  durationMs : Int
  outcome : Outcome
  conclusion : Outcome
deriving DecidableEq

/-- The entry of a step that was not executed. -/
def StepResult.of (id : Bytes) (outcome : Outcome) : StepResult := ⟨id, 0, 0, outcome, outcome⟩

/-- What is reported about a job. -/
structure JobResult where
  jobRunID : JobRunID
  success : Bool
  cancelled : Bool
  steps : List StepResult
  error : Bytes
deriving DecidableEq

/-- The reasons that a job ends early with a report. -/
inductive Reason
  | jobEnv (key : Bytes) (err : ExprError)
  | cancelledBefore (id : Bytes)
  | cond (id : Bytes) (err : ExprError)
  | input (id key : Bytes) (err : ExprError)
  | noBuiltin (name : Bytes)
  | cancelled (id : Bytes)
  | action (id : Bytes) (err : Bytes)
  | script (id : Bytes) (err : ExprError)
  | stepEnv (id key : Bytes) (err : ExprError)
  | exited (id : Bytes) (code : Int)
deriving DecidableEq

/-- The error of the report. -/
def Reason.text : Reason → Bytes
  | jobEnv key err => ofString "job env " ++ key ++ ofString ": " ++ err.text
  | cancelledBefore id => ofString "cancelled before step " ++ id
  | cond id err => ofString "step " ++ id ++ ofString " if: " ++ err.text
  | input id key err => ofString "step " ++ id ++ ofString " with." ++ key ++ ofString ": " ++ err.text
  | noBuiltin name => ofString "builtin " ++ name ++ ofString " not found"
  | cancelled id => ofString "step " ++ id ++ ofString " cancelled"
  | action id err => ofString "step " ++ id ++ ofString " failed: " ++ err
  | script id err => ofString "step " ++ id ++ ofString ": " ++ err.text
  | stepEnv id key err => ofString "step " ++ id ++ ofString " env " ++ key ++ ofString ": " ++ err.text
  | exited id code => ofString "step " ++ id ++ ofString " exited with code " ++ Bytes.ofInt code

/-! ## The world of the engine -/

/-- What a step has written to its files; one that cannot be read counts as empty. -/
structure StepFiles where
  env : Bytes
  output : Bytes
  path : Bytes
  state : Bytes

/-- What a handler or the interpreter does: its error, its outputs and its records. -/
structure ActionRun where
  err : Option StepErr
  outputs : List (Bytes × Bytes)
  log : List LogRecord

/-- Everything outside of the engine: `done` is asked before a step, and `orders` gives the order of inputs and
variables. -/
structure Host where
  workDir : Bytes
  goos : Bytes
  goarch : Bytes
  defaultEnv : GoMap Bytes Bytes
  jobHasher : WorkspaceHasher
  jobOrder : MapOrder Bytes
  fetchSecrets : List SecretRef → Except Bytes (GoMap Bytes Bytes)
  mkdirErr : Option Bytes
  done : Nat → Bool
  prepareErr : Nat → Option Bytes
  hashers : Nat → WorkspaceHasher
  orders : Nat → MapOrder Bytes
  script : Nat → Bytes → GoMap Bytes Bytes → Process × StepFiles
  builtin : Nat → String → GoMap Bytes Bytes → GoMap Bytes Bytes → ActionRun × StepFiles
  interpreter : Nat → Bytes → GoMap Bytes Bytes → ActionRun
  jsFiles : Nat → StepFiles
  durations : Nat → Int
  report : JobResult → Option Bytes

/-! ## Expressions -/

/-- What later expressions see of a step. -/
structure StepState where
  outputs : GoMap Bytes Bytes
  outcome : Outcome
  conclusion : Outcome

/-- A map of texts as a value. -/
def objectOf (m : GoMap Bytes Bytes) : Value := .obj (m.entries.map fun e => (e.1, .str e.2))

/-- The `github` context of a plan. -/
def githubOf (p : Plan) : Value :=
  .obj
    [(ofString "event_name", Value.text p.eventName),
      (ofString "actor", Value.text p.actor),
      (ofString "ref", Value.text p.ref),
      (ofString "sha", Value.text p.sha),
      (ofString "repository", .obj
        [(ofString "owner", Value.text p.repository.owner),
          (ofString "name", Value.text p.repository.name),
          (ofString "full_name", Value.text (p.repository.owner ++ "/" ++ p.repository.name))])]

/-- The job fails with a failure that no `continue-on-error` turned into a success. -/
def jobStatusFor (states : GoMap Bytes StepState) : String :=
  if states.entries.any fun e => e.2.outcome = .failure ∧ e.2.conclusion ≠ .success then "failure" else "success"

/-- The entry of a step in the `steps` context. -/
def StepState.value (st : StepState) : Value :=
  .obj
    [(ofString "outputs", objectOf st.outputs),
      (ofString "outcome", Value.text st.outcome.text),
      (ofString "conclusion", Value.text st.conclusion.text)]

/-- The environment in which the expressions of step `i` are evaluated. -/
def exprEnv (host : Host) (p : Plan) (i : Nat) (env : GoMap Bytes Bytes) (states : GoMap Bytes StepState) :
    Expression.Env :=
  Expression.Env.new
    |>.withContext (ofString "github") (githubOf p)
    |>.withContext (ofString "env") (objectOf env)
    |>.withContext (ofString "steps") (.obj (states.entries.map fun e => (e.1, e.2.value)))
    |>.withContext (ofString "job") (.obj [(ofString "status", Value.text (jobStatusFor states))])
    |>.withContext (ofString "runner") (.obj [(ofString "os", .str host.goos), (ofString "arch", .str host.goarch)])
    |>.withWorkspaceHasher (host.hashers i)

/-! ## Environments and secrets -/

/-- The entries of a plan as bytes. -/
def atRuntime (m : GoMap String String) : GoMap Bytes Bytes :=
  m.entries.foldl (fun out e => out.insert (ofString e.1) (ofString e.2)) ∅

/-- The assignment of every entry of a map. -/
def assignAll (env m : GoMap Bytes Bytes) : GoMap Bytes Bytes := m.entries.foldl (fun env e => env.insert e.1 e.2) env

/-- The entries of a map in the order in which they are read. -/
def entriesIn (order : MapOrder Bytes) (m : GoMap Bytes Bytes) : List (Bytes × Bytes) :=
  (order.arrange m.keys).filterMap fun k => (m.lookup k).map (k, ·)

/-- The loops over environments: expressions are replaced by their values; an error has its key. -/
def renderEnv (exprs : Expression.Env) (env : GoMap Bytes Bytes) :
    List (Bytes × Bytes) → Except (Bytes × ExprError) (GoMap Bytes Bytes)
  | [] => .ok env
  | (k, v) :: rest =>
    if hasExpression v = false then renderEnv exprs env rest
    else
      match interpolate v exprs with
      | .error err => .error (k, err)
      | .ok rendered => renderEnv exprs (env.insert k rendered) rest

/-- The inputs with their expressions evaluated, up to the first error. -/
def renderInputs (exprs : Expression.Env) (inputs : GoMap Bytes Bytes) :
    List (Bytes × Bytes) → Except (Bytes × ExprError) (GoMap Bytes Bytes)
  | [] => .ok inputs
  | (k, v) :: rest =>
    match if hasExpression v then interpolate v exprs else .ok v with
    | .error err => .error (k, err)
    | .ok rendered => renderInputs exprs (inputs.insert k rendered) rest

/-- The environment of a job before its expressions are rendered. -/
def baseEnv (host : Host) (p : Plan) : GoMap Bytes Bytes :=
  assignAll (assignAll ∅ host.defaultEnv) (atRuntime p.env)
    |>.insert (ofString "CI") (ofString "true")
    |>.insert (ofString "GITHUB_SHA") (ofString p.sha)
    |>.insert (ofString "GITHUB_REF") (ofString p.ref)
    |>.insert (ofString "GITHUB_JOB") (ofString (crName p.jobRunID))

/-- The marker of a variable for the `with` of a step. -/
def withMarker : Bytes := ofString "$with:"

/-- What secrets are delivered into: the masker, the variables for `with` and the environment. -/
structure Delivery where
  masker : Masker
  withSecrets : GoMap Bytes Bytes
  env : GoMap Bytes Bytes

/-- The key of a secret in the answer of `FetchSecrets`. -/
def SecretRef.key (ref : SecretRef) : Bytes := ofString (ref.scope ++ "/" ++ ref.name)

/-- The value is masked from now on; it goes to the environment or, under a marked name, to a `with`. -/
def deliverOne (secrets : GoMap Bytes Bytes) (d : Delivery) (ref : SecretRef) : Delivery :=
  match secrets.lookup (SecretRef.key ref) with
  | none => d
  | some val =>
    let d := { d with masker := d.masker.add val }
    if withMarker.isPrefixOf ref.env then { d with withSecrets := d.withSecrets.insert ref.env val }
    else if ref.env ≠ [] then { d with env := d.env.insert ref.env val }
    else d

/-- The delivery of the secrets, one after the other. -/
def deliver (secrets : GoMap Bytes Bytes) (env : GoMap Bytes Bytes) (refs : List SecretRef) : Delivery :=
  refs.foldl (deliverOne secrets) ⟨Masker.new, ∅, env⟩

/-- The variables that carry secrets for one step start with this. -/
def withPrefix (id : Bytes) : Bytes := withMarker ++ id ++ [byte ':']

/-- The overlay of secrets over the inputs of a step. -/
def overlay (withSecrets : GoMap Bytes Bytes) (id : Bytes) (inputs : GoMap Bytes Bytes) : GoMap Bytes Bytes :=
  withSecrets.entries.foldl (fun inputs e =>
    if (withPrefix id).isPrefixOf e.1 then inputs.insert (e.1.drop (withPrefix id).length) e.2 else inputs) inputs

/-! ## Steps -/

/-- A call for a step: the rendered inputs of the plan, and those that are given. -/
structure Call where
  index : Nat
  plain : GoMap Bytes Bytes
  inputs : GoMap Bytes Bytes

/-- The state of a run between steps. -/
structure Progress where
  env : GoMap Bytes Bytes
  pathEntries : List Bytes
  states : GoMap Bytes StepState
  masker : Masker
  steps : List StepResult
  log : List Logged
  calls : List Call

/-- Why a step ends the job: a failure, a cancellation, or files that cannot be prepared. -/
inductive Halt
  | failed (reason : Reason) (skipFrom : Nat)
  | cancelled (reason : Reason)
  | unprepared (err : Bytes)

namespace Progress

/-- The records are logged with the masker as it is now. -/
def logAll (st : Progress) (records : List LogRecord) : Progress :=
  { st with log := st.log ++ records.map (⟨st.masker, Handler.new, ·⟩) }

/-- The result of a step is recorded. -/
def close (st : Progress) (outputs : GoMap Bytes Bytes) (sr : StepResult) : Progress :=
  { st with
    states := st.states.insert sr.stepID ⟨outputs, sr.outcome, sr.conclusion⟩
    steps := st.steps ++ [sr] }

end Progress

/-- The file that a step leaves for the engine. -/
def stepFile (host : Host) (i : Nat) (ext : String) : Bytes :=
  Path.join [Path.join [host.workDir, ofString ".forgelet"], ofString "step-" ++ Bytes.ofNat i ++ ofString ext]

/-- The directory that `Run` creates for the files of the steps. -/
def metadataDir (host : Host) : Bytes := Path.join [host.workDir, ofString ".forgelet"]

/-- The file that `runStepScript` writes. -/
def scriptPath (host : Host) (step : PlanStep) : Bytes :=
  Path.join [host.workDir, ofString ".forgelet", ofString "step-" ++ step.id ++ ofString ".sh"]

/-- The variables that name the files of a step. -/
def withStepFiles (host : Host) (i : Nat) (env : GoMap Bytes Bytes) : GoMap Bytes Bytes :=
  env.insert (ofString "GITHUB_ENV") (stepFile host i ".env")
    |>.insert (ofString "GITHUB_OUTPUT") (stepFile host i ".output")
    |>.insert (ofString "GITHUB_PATH") (stepFile host i ".path")
    |>.insert (ofString "GITHUB_STATE") (stepFile host i ".state")
    |>.insert (ofString "GITHUB_STEP_SUMMARY") (stepFile host i ".summary")

/-- The environment that a step declares. -/
def ownEnv (step : PlanStep) : GoMap Bytes Bytes := (step.run.env.map atRuntime).getD ∅

/-- The environment of a step, with the path entries of earlier ones in front. -/
def stepEnv (st : Progress) (step : PlanStep) : GoMap Bytes Bytes :=
  let env := assignAll st.env (ownEnv step)
  if st.pathEntries = [] then env
  else
    env.insert (ofString "PATH")
      (Bytes.join [byte ':'] st.pathEntries ++ [byte ':'] ++ (env.lookup (ofString "PATH")).getD [])

/-- The log record of a file that is not read. -/
def malformed (what : String) (id err : Bytes) : LogRecord where
  message := ofString ("malformed " ++ what)
  attrs := [(ofString "step", .string id), (ofString "err", .string err)]

/-- The log record of an output. -/
def outputRecord (id : Bytes) (kv : Bytes × Bytes) : LogRecord where
  message := ofString "step output"
  attrs := [(ofString "step", .string id), (ofString "key", .string kv.1), (ofString "value", .string kv.2)]

/-- What the files of a step add: assignments, or the record of the error. -/
def readKVs (what : String) (id data : Bytes) : List (Bytes × Bytes) × List LogRecord :=
  match parseKVFile data with
  | .ok kvs => (kvs, [])
  | .error err => ([], [malformed what id err])

/-- The files of a step are folded into the state; its outputs are returned. -/
def foldFiles (st : Progress) (id : Bytes) (outputs : GoMap Bytes Bytes) (files : StepFiles) :
    Progress × GoMap Bytes Bytes :=
  let (envKVs, envLog) := readKVs "GITHUB_ENV" id files.env
  let (outKVs, outLog) := readKVs "GITHUB_OUTPUT" id files.output
  let (stateKVs, stateLog) := readKVs "GITHUB_STATE" id files.state
  let env := applyKVs (applyKVs st.env envKVs) (stateKVs.map fun kv => (ofString "STATE_" ++ kv.1, kv.2))
  ({ st with env := env, pathEntries := parsePathFile files.path ++ st.pathEntries }.logAll
      (envLog ++ outKVs.map (outputRecord id) ++ outLog ++ stateLog),
    applyKVs outputs outKVs)

/-- The end of a step that was executed, alike for every kind of step. -/
def settle (st : Progress) (i : Nat) (step : PlanStep) (outputs : GoMap Bytes Bytes) (exit duration : Int)
    (err : Option StepErr) (reason : Reason) (continued : LogRecord) : Progress × Option Halt :=
  match err with
  | none => (st.close outputs ⟨step.id, exit, duration, .success, .success⟩, none)
  | some e =>
    if e.cancelled then (st, some (.cancelled (.cancelled step.id)))
    else if step.continueOnError then
      ((st.logAll [continued]).close outputs ⟨step.id, exit, duration, .failure, .success⟩, none)
    else
      ({ st with steps := st.steps ++ [⟨step.id, exit, duration, .failure, .failure⟩] },
        some (.failed reason (i + 1)))

/-- The log record of a failure that does not count. -/
def continuedRecord (attrs : List LogAttr) : LogRecord where
  message := ofString "step failed but continue-on-error is set"
  attrs := attrs

/-- After a JavaScript or builtin step. -/
def settleAction (host : Host) (st : Progress) (i : Nat) (step : PlanStep) (call : Call) (run : ActionRun)
    (files : StepFiles) : Progress × Option Halt :=
  let st := { st with calls := st.calls ++ [call] }.logAll run.log
  let (st, outputs) := foldFiles st step.id (applyKVs ∅ run.outputs) files
  let text := (run.err.map StepErr.text).getD []
  settle st i step outputs (if run.err = none then 0 else 1) (host.durations i) run.err (.action step.id text)
    (continuedRecord [(ofString "step", .string step.id), (ofString "err", .string text)])

/-- The checks of `runJS`; a script that is run is logged at the end. -/
def runJS (interpreter : Bytes → ActionRun) (inputs : GoMap Bytes Bytes) (js : JSStep) : ActionRun :=
  let given := (inputs.lookup (ofString "script")).getD []
  let script := if given = [] then ofString js.script else given
  if script = [] then ⟨some ⟨ofString "js: no script to execute", false⟩, [], []⟩
  else if js.repo ≠ "actions/github-script" ∧ js.repo ≠ "" then
    ⟨some ⟨ofString "js: action " ++ ofString js.repo ++
      ofString " not yet supported (only actions/github-script)", false⟩, [], []⟩
  else
    let run := interpreter script
    match run.err with
    | some err => { run with err := some { err with text := ofString "js: " ++ err.text } }
    | none =>
      { run with
        log := run.log ++ [⟨ofString "js executed", [(ofString "script", .string (script.take 100))]⟩] }

/-- The names in `builtinRegistry`. -/
def builtinRegistry : List String :=
  ["actions/checkout", "actions/cache", "actions/upload-artifact", "actions/download-artifact"]

/-- The inputs of an action, evaluated and then overlaid with the secrets for it. -/
def resolveInputs (host : Host) (i : Nat) (id : Bytes) (withSecrets : GoMap Bytes Bytes) (exprs : Expression.Env)
    (inputs : GoMap String String) : Except Reason Call :=
  match renderInputs exprs ∅ (entriesIn (host.orders i) (atRuntime inputs)) with
  | .error (k, err) => .error (.input id k err)
  | .ok plain => .ok ⟨i, plain, overlay withSecrets id plain⟩

/-- A step in JavaScript. -/
def runJSStep (host : Host) (withSecrets : GoMap Bytes Bytes) (st : Progress) (i : Nat) (step : PlanStep)
    (exprs : Expression.Env) (js : JSStep) : Progress × Option Halt :=
  match resolveInputs host i step.id withSecrets exprs js.inputs with
  | .error reason => (st, some (.failed reason i))
  | .ok call =>
    settleAction host st i step call (runJS (host.interpreter i · call.inputs) call.inputs js) (host.jsFiles i)

/-- A step that the executor implements itself. -/
def runBuiltinStep (host : Host) (withSecrets : GoMap Bytes Bytes) (st : Progress) (i : Nat) (step : PlanStep)
    (env : GoMap Bytes Bytes) (exprs : Expression.Env) (b : BuiltinStep) : Progress × Option Halt :=
  match resolveInputs host i step.id withSecrets exprs b.inputs with
  | .error reason => (st, some (.failed reason i))
  | .ok call =>
    if b.action ∉ builtinRegistry then (st, some (.failed (.noBuiltin (ofString b.action)) i))
    else
      let (run, files) := host.builtin i b.action call.inputs env
      settleAction host st i step call run files

/-- A step with a script. -/
def runScriptStep (host : Host) (jobRunID : JobRunID) (st : Progress) (i : Nat) (step : PlanStep)
    (env : GoMap Bytes Bytes) (exprs : Expression.Env) : Progress × Option Halt :=
  let script := ofString step.run.script
  match if hasExpression script then interpolate script exprs else .ok script with
  | .error err => (st, some (.failed (.script step.id err) i))
  | .ok script =>
    match renderEnv exprs env (entriesIn (host.orders i) (ownEnv step)) with
    | .error (k, err) => (st, some (.failed (.stepEnv step.id k err) i))
    | .ok env =>
      let (process, files) := host.script i script env
      let logger := Handler.new.withAttrs
        [(ofString "jobRun", .string (ofString jobRunID)), (ofString "step", .string step.id)]
      let (masker, logged) := emitLines logger st.masker process.lines
      let st := { st with masker := masker, log := st.log ++ logged }
      let (exit, err) := process.result step.id
      let (st, outputs) := foldFiles st step.id ∅ files
      settle st i step outputs exit (host.durations i) err (.exited step.id exit)
        (continuedRecord [(ofString "step", .string step.id), (ofString "exitCode", .other exit)])

/-- The condition of a step; none holds always. -/
def conditionOf (step : PlanStep) (exprs : Expression.Env) : Except ExprError Bool :=
  if step.cond = "" then .ok true else evaluateCondition (ofString step.cond) exprs

/-- A step whose files are made. -/
def runPrepared (host : Host) (p : Plan) (jobRunID : JobRunID) (withSecrets : GoMap Bytes Bytes) (st : Progress)
    (i : Nat) (step : PlanStep) : Progress × Option Halt :=
  let env := stepEnv st step
  let exprs := exprEnv host p i env st.states
  match conditionOf step exprs with
  | .error err => (st, some (.failed (.cond step.id err) i))
  | .ok false => (st.close ∅ (.of step.id .skipped), none)
  | .ok true =>
    match step.js with
    | some js => runJSStep host withSecrets st i step exprs js
    | none =>
      if step.composite then (st.close ∅ (.of step.id .success), none)
      else
        match step.builtin with
        | some b => runBuiltinStep host withSecrets st i step env exprs b
        | none => runScriptStep host jobRunID st i step env exprs

/-- The body of the loop over the steps. -/
def runStep (host : Host) (p : Plan) (jobRunID : JobRunID) (withSecrets : GoMap Bytes Bytes) (st : Progress) (i : Nat)
    (step : PlanStep) : Progress × Option Halt :=
  if host.done i then (st, some (.cancelled (.cancelledBefore step.id)))
  else
    match host.prepareErr i with
    | some err => (st, some (.unprepared err))
    | none => runPrepared host p jobRunID withSecrets { st with env := withStepFiles host i st.env } i step

/-- The loop over the steps, from the `i`-th on. -/
def runSteps (host : Host) (p : Plan) (jobRunID : JobRunID) (withSecrets : GoMap Bytes Bytes) :
    Progress → Nat → List PlanStep → Progress × Option Halt
  | st, _, [] => (st, none)
  | st, i, step :: rest =>
    match runStep host p jobRunID withSecrets st i step with
    | (st, some halt) => (st, some halt)
    | (st, none) => runSteps host p jobRunID withSecrets st (i + 1) rest

/-! ## Runs -/

/-- The errors that `Run` returns. -/
inductive RunErr
  | stepFailed (text : Bytes)
  | cancelled
  | fetchSecrets (err : Bytes)
  | workspace (err : Bytes)
  | prepare (err : Bytes)
deriving DecidableEq

/-- A run: what it returns, the reason it ended early for, and what it did. -/
structure Run where
  result : JobResult
  err : Option RunErr
  reason : Option Reason
  reports : List JobResult
  log : List Logged
  calls : List Call

/-- `report`, after which the run ends. -/
def reported (host : Host) (st : Progress) (result : JobResult) (reason : Option Reason)
    (err : Option RunErr) : Run where
  result := result
  err := err
  reason := reason
  reports := [result]
  calls := st.calls
  log :=
    match host.report result with
    | none => st.log
    | some text =>
      (st.logAll [⟨ofString "report job failed",
        [(ofString "jobRun", .string (ofString result.jobRunID)), (ofString "err", .string text)]⟩]).log

/-- A run that ends before there is anything to report. -/
def unreported (st : Progress) (result : JobResult) (err : RunErr) : Run where
  result := result
  err := some err
  reason := none
  reports := []
  calls := st.calls
  log := st.log

/-- The end of a run, after the loop; `failJob` skips what is left. -/
def finish (host : Host) (p : Plan) (jobRunID : JobRunID) (st : Progress) : Option Halt → Run
  | none => reported host st ⟨jobRunID, true, false, st.steps, []⟩ none none
  | some (.failed reason skipFrom) =>
    let skipped := (p.steps.drop skipFrom).map fun step => StepResult.of step.id .skipped
    reported host st ⟨jobRunID, false, false, st.steps ++ skipped, reason.text⟩ (some reason)
      (some (.stepFailed reason.text))
  | some (.cancelled reason) =>
    reported host st ⟨jobRunID, false, true, st.steps, reason.text⟩ (some reason) (some .cancelled)
  | some (.unprepared err) => unreported st ⟨jobRunID, false, false, st.steps, []⟩ (.prepare err)

/-- The state before the first step. -/
def Delivery.start (d : Delivery) : Progress where
  env := d.env
  pathEntries := []
  states := ∅
  masker := d.masker
  steps := []
  log := []
  calls := []

/-- What is delivered: nothing is fetched for a plan without references. -/
def fetch (host : Host) (p : Plan) : Except Bytes (GoMap Bytes Bytes) :=
  if p.secretRefs = [] then .ok ∅ else host.fetchSecrets p.secretRefs

/-- `Engine.Run`. -/
def run (host : Host) (p : Plan) (jobRunID : JobRunID) : Run :=
  let jobExprs := (Expression.Env.new.withContext (ofString "github") (githubOf p)).withWorkspaceHasher host.jobHasher
  let env := baseEnv host p
  let idle := (deliver ∅ env []).start
  match renderEnv jobExprs env (entriesIn host.jobOrder env) with
  | .error (k, err) =>
    let reason := Reason.jobEnv k err
    reported host idle ⟨jobRunID, false, false, [], reason.text⟩ (some reason) (some (.stepFailed reason.text))
  | .ok env =>
    match fetch host p with
    | .error err => unreported idle ⟨jobRunID, false, false, [], []⟩ (.fetchSecrets err)
    | .ok secrets =>
      let d := deliver secrets env p.secretRefs
      match host.mkdirErr with
      | some err => unreported d.start ⟨jobRunID, false, false, [], []⟩ (.workspace err)
      | none =>
        let (st, halt) := runSteps host p jobRunID d.withSecrets d.start 0 p.steps
        finish host p jobRunID st halt

end Forgelet.Executor
