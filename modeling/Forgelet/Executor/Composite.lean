import Forgelet.Executor.Ledger
import Forgelet.Server.Proofs.ReferencesProofs

/-!
# Composite actions in a run

A step that uses a composite action is replaced in the plan by the steps of the action. What its author and the author
of the action ask for is stated here over a run of that plan.
-/

namespace Forgelet.Executor

open Compiler (JobInstance)
open Server (emptyStep origins parseUses)

/-- A step as `action.yml` declares it, with its own condition; empty is none. -/
structure DeclaredStep extends CompositeActionStep where
  cond : String
deriving DecidableEq

/-- `parseActionMeta`: `CompositeActionStep` has no field for a condition. -/
def parsedSteps (declared : List DeclaredStep) : List CompositeActionStep :=
  declared.map DeclaredStep.toCompositeActionStep

/-- The action that a step uses, as the expansion reads it. -/
def actionOf (st : Compiler.Step) : Server.ActionRef :=
  (parseUses st.rawUses).getD { owner := "", repo := st.rawUses, path := "", ref := "main" }

/-- The step refers to a composite action that declares these steps. -/
structure RefersTo (src : WorkflowSource) (st : Compiler.Step) (declared : List DeclaredStep) : Prop where
  builtin : st.uses = none
  uses : st.rawUses ≠ ""
  fetched : ∃ fetch info, src.actionFetcher = some fetch ∧
    fetch (actionOf st).owner (actionOf st).repo (actionOf st).ref (actionOf st).path = .ok info ∧
    GoString.hasPrefix info.runsUsing "composite" ∧ info.steps = parsedSteps declared

/-- The step of the plan that is replaced: its condition and its failure policy. -/
def outerStep (st : Compiler.Step) : PlanStep :=
  { emptyStep ((Server.stDisplayName st).getD []) st.name with
    cond := st.cond
    continueOnError := st.continueOnError }

/-- The place in the plan of the first plan step that is made for the `n`-th step. -/
def blockStart (src : WorkflowSource) (inst : JobInstance) (n : Nat) : Nat := (origins src (inst.steps.take n)).length

section Run

variable (host : Host) (p : Plan) (jobRunID : JobRunID) (d : Delivery)

/-- The run comes to the `i`-th step in a state, with a context that is not done and its files prepared. -/
structure ArrivesAt (i : Nat) (st : Progress) : Prop where
  before : runSteps host p jobRunID d.withSecrets d.start 0 (p.steps.take i) = (st, none)
  done : host.done i = false
  prepared : host.prepareErr i = none

/-- The condition of a step, as the run comes to the `i`-th step of the plan. -/
def conditionAt (i : Nat) (st : Progress) (step : PlanStep) : Except Expression.ExprError Bool :=
  let st := { st with env := withStepFiles host i st.env }
  conditionOf step (exprEnv host p i (stepEnv st step) st.states)

/-- The step is executed and fails, and not because the job is cancelled. -/
def FailsAt (i : Nat) (st : Progress) (step : PlanStep) : Prop :=
  (∃ exit duration, verdict host p d.withSecrets st i step = .ran exit duration true) ∧
    ∀ reason, (runStep host p jobRunID d.withSecrets st i step).2 ≠ some (.cancelled reason)

/-- The run comes to the `k`-th step of the block that starts at `start`. -/
structure InBlock (declared : List DeclaredStep) (start k : Nat) (inner : DeclaredStep) (step : PlanStep)
    (first st : Progress) : Prop where
  member : declared[k]? = some inner
  planned : p.steps[start + k]? = some step
  entered : ArrivesAt host p jobRunID d start first
  arrives : ArrivesAt host p jobRunID d (start + k) st

/-- What is asked of a composite action: a step is skipped where the condition of the replaced step or its own is
false, and does not end the job where the replaced step has `continue-on-error`. -/
def Governed (outer : PlanStep) (declared : List DeclaredStep) (start : Nat) : Prop :=
  ∀ k inner step first st, InBlock host p jobRunID d declared start k inner step first st →
    (conditionAt host p start first outer = .ok false →
        verdict host p d.withSecrets st (start + k) step = .skipped) ∧
      (outer.continueOnError → FailsAt host p jobRunID d (start + k) st step →
        (runStep host p jobRunID d.withSecrets st (start + k) step).2 = none) ∧
      (conditionAt host p (start + k) st { step with cond := inner.cond } = .ok false →
        verdict host p d.withSecrets st (start + k) step = .skipped)

/-- The conditions and the policy would change nothing. -/
def NothingAsked (outer : PlanStep) (declared : List DeclaredStep) (start : Nat) : Prop :=
  ∀ k inner step first st, InBlock host p jobRunID d declared start k inner step first st →
    conditionAt host p start first outer ≠ .ok false ∧
      (outer.continueOnError → ¬ FailsAt host p jobRunID d (start + k) st step) ∧
      conditionAt host p (start + k) st { step with cond := inner.cond } ≠ .ok false

end Run

end Forgelet.Executor
