import Forgelet.Executor.Engine

/-!
# The ledger of a job

What the results of the steps are for, apart from how a step of each kind is executed: a step is skipped, runs to an
end, or cannot be evaluated, and one rule says what follows. The rule is a fold over any machine that says what the
steps do; the engine is one.
-/

namespace Forgelet.Executor

open Bytes (ofString)
open Expression (hasExpression interpolate)

/-- What becomes of a step that is come to. -/
inductive Verdict
  | skipped
  | ran (exit duration : Int) (failed : Bool)
  | unevaluated
deriving DecidableEq

/-- The entries of steps that are not come to, or cannot be evaluated. -/
def allSkipped (steps : List PlanStep) : List StepResult := steps.map fun step => .of step.id .skipped

/-- The reference fold: the entries from the `i`-th step on, and whether the end is reached. -/
def ledger {σ : Type} (machine : σ → Nat → PlanStep → Verdict × σ) (s : σ) (i : Nat) :
    List PlanStep → List StepResult × Bool
  | [] => ([], true)
  | step :: rest =>
    -- the step is entered and the steps after it are come to
    let goOn (entry : StepResult) := (ledger machine (machine s i step).2 (i + 1) rest).map (entry :: ·) id
    match (machine s i step).1 with
    | .skipped => goOn (.of step.id .skipped)
    | .ran exit duration false => goOn ⟨step.id, exit, duration, .success, .success⟩
    | .ran exit duration true =>
      if step.continueOnError then goOn ⟨step.id, exit, duration, .failure, .success⟩
      else (⟨step.id, exit, duration, .failure, .failure⟩ :: allSkipped rest, false)
    | .unevaluated => (allSkipped (step :: rest), false)

/-- Every step has one entry, in the order of the plan. -/
theorem ledger_ids {σ : Type} (machine : σ → Nat → PlanStep → Verdict × σ) (s : σ) (i : Nat) (steps : List PlanStep) :
    (ledger machine s i steps).1.map StepResult.stepID = steps.map PlanStep.id := by
  have hskipped : ∀ rest, (allSkipped rest).map StepResult.stepID = rest.map PlanStep.id := by
    intro rest
    rw [allSkipped, List.map_map]
    rfl
  induction steps generalizing s i with
  | nil => rfl
  | cons step rest ih =>
    have hrest := ih (machine s i step).2 (i + 1)
    unfold ledger
    split
    · exact congrArg (step.id :: ·) hrest
    · exact congrArg (step.id :: ·) hrest
    · split
      · exact congrArg (step.id :: ·) hrest
      · exact congrArg (step.id :: ·) (hskipped rest)
    · exact hskipped (step :: rest)

/-- A step that ran. -/
def verdictOf (exit duration : Int) (err : Option StepErr) : Verdict := .ran exit duration err.isSome

/-- The verdict on the call of a handler, or of the interpreter. -/
def actionVerdict (host : Host) (i : Nat) (run : ActionRun) : Verdict :=
  verdictOf (if run.err = none then 0 else 1) (host.durations i) run.err

/-- The verdict on a JavaScript step. -/
def jsVerdict (host : Host) (withSecrets : GoMap Bytes Bytes) (i : Nat) (step : PlanStep) (exprs : Expression.Env)
    (js : JSStep) : Verdict :=
  match resolveInputs host i step.id withSecrets exprs js.inputs with
  | .error _ => .unevaluated
  | .ok call => actionVerdict host i (runJS (host.interpreter i · call.inputs) call.inputs js)

/-- The verdict on a builtin step. -/
def builtinVerdict (host : Host) (withSecrets : GoMap Bytes Bytes) (i : Nat) (step : PlanStep) (env : GoMap Bytes Bytes)
    (exprs : Expression.Env) (b : BuiltinStep) : Verdict :=
  match resolveInputs host i step.id withSecrets exprs b.inputs with
  | .error _ => .unevaluated
  | .ok call =>
    if b.action ∉ builtinRegistry then .unevaluated
    else actionVerdict host i (host.builtin i b.action call.inputs env).1

/-- The verdict on a script. -/
def scriptVerdict (host : Host) (i : Nat) (step : PlanStep) (env : GoMap Bytes Bytes) (exprs : Expression.Env) :
    Verdict :=
  let script := ofString step.run.script
  match if hasExpression script then interpolate script exprs else .ok script with
  | .error _ => .unevaluated
  | .ok script =>
    match renderEnv exprs env (entriesIn (host.orders i) (ownEnv step)) with
    | .error _ => .unevaluated
    | .ok env =>
      let (exit, err) := (host.script i script env).1.result step.id
      verdictOf exit (host.durations i) err

/-- The verdict on a step whose files are made. -/
def preparedVerdict (host : Host) (p : Plan) (withSecrets : GoMap Bytes Bytes) (st : Progress) (i : Nat)
    (step : PlanStep) : Verdict :=
  let env := stepEnv st step
  let exprs := exprEnv host p i env st.states
  match conditionOf step exprs with
  | .error _ => .unevaluated
  | .ok false => .skipped
  | .ok true =>
    match step.js with
    | some js => jsVerdict host withSecrets i step exprs js
    | none =>
      if step.composite then .ran 0 0 false
      else
        match step.builtin with
        | some b => builtinVerdict host withSecrets i step env exprs b
        | none => scriptVerdict host i step env exprs

/-- What the step comes to in the state `st`. -/
def verdict (host : Host) (p : Plan) (withSecrets : GoMap Bytes Bytes) (st : Progress) (i : Nat) (step : PlanStep) :
    Verdict :=
  preparedVerdict host p withSecrets { st with env := withStepFiles host i st.env } i step

/-- The environment of the job, evaluated. -/
def jobEnv (host : Host) (p : Plan) : Except (Bytes × Expression.ExprError) (GoMap Bytes Bytes) :=
  renderEnv ((Expression.Env.new.withContext (ofString "github") (githubOf p)).withWorkspaceHasher host.jobHasher)
    (baseEnv host p) (entriesIn host.jobOrder (baseEnv host p))

/-- The engine: what becomes of a step, and the state after it. -/
def engine (host : Host) (p : Plan) (jobRunID : JobRunID) (withSecrets : GoMap Bytes Bytes) (st : Progress) (i : Nat)
    (step : PlanStep) : Verdict × Progress :=
  (verdict host p withSecrets st i step, (runStep host p jobRunID withSecrets st i step).1)

/-- The context is not done, files can be prepared, and no step is cancelled. -/
structure Host.Calm (host : Host) (p : Plan) : Prop where
  done : ∀ i < p.steps.length, host.done i = false
  prepared : ∀ i < p.steps.length, host.prepareErr i = none
  script : ∀ i < p.steps.length, ∀ script env id err,
    ((host.script i script env).1.result id).2 = some err → err.cancelled = false
  builtin : ∀ i < p.steps.length, ∀ action inputs env err,
    (host.builtin i action inputs env).1.err = some err → err.cancelled = false
  interpreter : ∀ i < p.steps.length, ∀ script inputs err,
    (host.interpreter i script inputs).err = some err → err.cancelled = false

end Forgelet.Executor
