import Forgelet.Executor.Composite
import Forgelet.Executor.Proofs.LedgerProofs
import Forgelet.Executor.Proofs.RoutingProofs

/-!
# Proofs: composite actions in a run

The steps of a composite action stand in the plan without a condition and without a failure policy, so that a run never
skips one of them, and ends at the first that fails.
-/

namespace Forgelet.Executor

open Bytes (ofString)
open Compiler (JobInstance)
open Server (buildPlan compositeStep emptyStep expandComposite madeFor origins originsFrom stDisplayName)

section Block

variable {src : WorkflowSource} {rec : JobRunRecord} {ev : Event} {inst : JobInstance} {p : Plan} {n : Nat}
  {st : Compiler.Step} {declared : List DeclaredStep}

theorem RefersTo.named (h : RefersTo src st declared) : ∃ id, stDisplayName st = some id := by
  unfold stDisplayName
  rw [h.builtin]
  rw [if_pos h.uses]
  split_ifs
  · exact ⟨_, rfl⟩
  · cases GoString.cut st.rawUses '/' with
    | none => exact ⟨_, rfl⟩
    | some parts =>
      dsimp only
      cases GoString.cutLast parts.2 '@' with
      | none | some => exact ⟨_, rfl⟩

theorem madeFor_composite (h : RefersTo src st declared) :
    ∃ inputs id, madeFor src st = expandComposite (parsedSteps declared) inputs id := by
  obtain ⟨fetch, info, hfetcher, hfetched, hcomposite, hsteps⟩ := h.fetched
  obtain ⟨id, hid⟩ := h.named
  refine ⟨(Server.splitSecrets (Server.withName id) ∅ [] st.rawWith.entries).1, id, ?_⟩
  rw [madeFor, hid, Option.elim_some, Server.planStep, h.builtin]
  rw [if_pos h.uses]
  dsimp only [actionOf] at hfetched ⊢
  rw [Server.actionSteps, hfetcher]
  dsimp only
  rw [hfetched]
  dsimp only
  rw [if_pos hcomposite, hsteps]
  rfl

theorem originsFrom_append (m : Nat) (steps rest : List Compiler.Step) :
    originsFrom src m (steps ++ rest) = originsFrom src m steps ++ originsFrom src (m + steps.length) rest := by
  unfold originsFrom
  rw [List.zipIdx_append, List.flatMap_append, Nat.add_comm m]

theorem steps_drop_blockStart (hplan : buildPlan src rec ev inst = .ok p) (hst : inst.steps[n]? = some st) :
    ∃ after, p.steps.drop (blockStart src inst n) = madeFor src st ++ after := by
  obtain ⟨hn, hget⟩ := List.getElem?_eq_some_iff.mp hst
  have hsplit : inst.steps = inst.steps.take n ++ st :: inst.steps.drop (n + 1) := by
    rw [← hget, ← List.drop_eq_getElem_cons hn, List.take_append_drop]
  have horigins : origins src inst.steps = origins src (inst.steps.take n) ++
      ((madeFor src st).map (n, ·) ++ originsFrom src (n + 1) (inst.steps.drop (n + 1))) := by
    have hlength : (inst.steps.take n).length = n := List.length_take_of_le (Nat.le_of_lt hn)
    calc origins src inst.steps
        = originsFrom src 0 (inst.steps.take n ++ st :: inst.steps.drop (n + 1)) := congrArg _ hsplit
      _ = origins src (inst.steps.take n) ++ originsFrom src n (st :: inst.steps.drop (n + 1)) := by
        rw [originsFrom_append, Nat.zero_add, hlength]
        rfl
      _ = _ := by rw [Server.originsFrom_cons]
  refine ⟨(originsFrom src (n + 1) (inst.steps.drop (n + 1))).map (·.2), ?_⟩
  have hmade : (madeFor src st).map (Prod.snd ∘ (n, ·)) = madeFor src st := List.map_id _
  rw [(Server.buildPlan_ok hplan).1, ← List.map_drop, blockStart, horigins, List.drop_left, List.map_append,
    List.map_map, hmade]

/-- The `k`-th plan step of the block is made for the `k`-th step of the action. -/
theorem block_step (hplan : buildPlan src rec ev inst = .ok p) (hst : inst.steps[n]? = some st)
    (href : RefersTo src st declared) {k inner} (hinner : declared[k]? = some inner) :
    ∃ inputs id, p.steps[blockStart src inst n + k]? =
      some (compositeStep inputs id k inner.toCompositeActionStep) := by
  obtain ⟨inputs, id, hmade⟩ := madeFor_composite href
  obtain ⟨after, hdrop⟩ := steps_drop_blockStart hplan hst
  have hblock : (madeFor src st)[k]? = some (compositeStep inputs id k inner.toCompositeActionStep) := by
    rw [hmade, expandComposite, List.getElem?_map, List.getElem?_zipIdx, parsedSteps, List.getElem?_map, hinner,
      Nat.zero_add]
    rfl
  refine ⟨inputs, id, ?_⟩
  rw [← List.getElem?_drop, hdrop, List.getElem?_append_left (List.getElem?_eq_some_iff.mp hblock).1, hblock]

end Block

section Bare

variable {host : Host} {p : Plan} {jobRunID : JobRunID} {withSecrets : GoMap Bytes Bytes} {st : Progress} {i : Nat}
  {step : PlanStep} {env : GoMap Bytes Bytes} {exprs : Expression.Env}

theorem verdictOf_ne_skipped (exit duration : Int) (err : Option StepErr) : verdictOf exit duration err ≠ .skipped :=
  nofun

theorem verdict_ne_skipped (hcond : step.cond = "") : verdict host p withSecrets st i step ≠ .skipped := by
  unfold verdict preparedVerdict
  dsimp only
  rw [conditionOf, if_pos hcond]
  cases step.js with
  | some js =>
    dsimp only [jsVerdict]
    cases resolveInputs host i step.id withSecrets _ js.inputs with
    | error reason => nofun
    | ok call => exact verdictOf_ne_skipped _ _ _
  | none =>
    split_ifs
    · nofun
    · cases step.builtin with
      | some b =>
        dsimp only [builtinVerdict]
        cases resolveInputs host i step.id withSecrets _ b.inputs with
        | error reason => nofun
        | ok call =>
          split_ifs
          · exact verdictOf_ne_skipped _ _ _
          · nofun
      | none =>
        dsimp only [scriptVerdict]
        split
        · nofun
        · split
          · nofun
          · exact verdictOf_ne_skipped _ _ _

/-- A failure ends the job. -/
def EndsOnFailure (r : Progress × Option Halt) (v : Verdict) : Prop :=
  ∀ exit duration, v = .ran exit duration true → r.2 ≠ none

section

variable (hpolicy : step.continueOnError = false)
include hpolicy

/-- The end of a step that was executed, where it has no `continue-on-error`. -/
theorem settle_endsOnFailure {outputs exit duration err reason continued} :
    EndsOnFailure (settle st i step outputs exit duration err reason continued) (verdictOf exit duration err) := by
  intro exit' duration' hv
  cases err with
  | none => cases hv
  | some e =>
    have hstop : ¬ step.continueOnError := by
      rw [hpolicy]
      exact Bool.false_ne_true
    unfold settle
    dsimp only
    rw [if_neg hstop]
    split_ifs
    · nofun
    · nofun

theorem runPrepared_endsOnFailure :
    EndsOnFailure (runPrepared host p jobRunID withSecrets st i step)
      (preparedVerdict host p withSecrets st i step) := by
  have hunevaluated : ∀ r, EndsOnFailure r .unevaluated := by
    intro r exit duration hv
    cases hv
  unfold runPrepared preparedVerdict
  dsimp only
  cases conditionOf step (exprEnv host p i (stepEnv st step) st.states) with
  | error err => exact hunevaluated _
  | ok holds =>
    cases holds with
    | false =>
      intro exit duration hv
      cases hv
    | true =>
      cases step.js with
      | some js =>
        dsimp only [runJSStep, jsVerdict]
        cases resolveInputs host i step.id withSecrets _ js.inputs with
        | error reason => exact hunevaluated _
        | ok call => exact settle_endsOnFailure hpolicy
      | none =>
        split_ifs
        · intro exit duration hv
          cases hv
        · cases step.builtin with
          | some b =>
            dsimp only [runBuiltinStep, builtinVerdict]
            cases resolveInputs host i step.id withSecrets _ b.inputs with
            | error reason => exact hunevaluated _
            | ok call =>
              split_ifs
              · exact settle_endsOnFailure hpolicy
              · exact hunevaluated _
          | none =>
            dsimp only [runScriptStep, scriptVerdict]
            generalize (if Expression.hasExpression (ofString step.run.script)
              then Expression.interpolate (ofString step.run.script) _ else .ok (ofString step.run.script)) = script
            cases script with
            | error err => exact hunevaluated _
            | ok script =>
              cases renderEnv _ _ (entriesIn (host.orders i) (ownEnv step)) with
              | error err => exact hunevaluated _
              | ok env => exact settle_endsOnFailure hpolicy

/-- A step without `continue-on-error` ends the job where it fails. -/
theorem runStep_endsOnFailure :
    EndsOnFailure (runStep host p jobRunID withSecrets st i step) (verdict host p withSecrets st i step) := by
  intro exit duration hv
  unfold runStep
  split_ifs
  · nofun
  · cases host.prepareErr i with
    | some err => nofun
    | none => exact runPrepared_endsOnFailure hpolicy exit duration hv

end

end Bare

section Replaced

variable {src : WorkflowSource} {rec : JobRunRecord} {ev : Event} {inst : JobInstance} {p : Plan} {n : Nat}
  {st : Compiler.Step} {declared : List DeclaredStep} {host : Host} {jobRunID : JobRunID} {d : Delivery}

theorem conditionAt_none {i now step} (hcond : step.cond = "") : conditionAt host p i now step ≠ .ok false := by
  unfold conditionAt conditionOf
  rw [if_pos hcond]
  nofun

/-- A step of a composite action is not skipped, and ends the job where it fails. -/
theorem InBlock.bare (hplan : buildPlan src rec ev inst = .ok p) (hst : inst.steps[n]? = some st)
    (href : RefersTo src st declared) {k inner step first now}
    (h : InBlock host p jobRunID d declared (blockStart src inst n) k inner step first now) :
    verdict host p d.withSecrets now (blockStart src inst n + k) step ≠ .skipped ∧
      (FailsAt host p jobRunID d (blockStart src inst n + k) now step →
        (runStep host p jobRunID d.withSecrets now (blockStart src inst n + k) step).2 ≠ none) := by
  obtain ⟨inputs, id, hplanned⟩ := block_step hplan hst href h.member
  have hstep : step = compositeStep inputs id k inner.toCompositeActionStep :=
    Option.mem_unique h.planned hplanned
  obtain ⟨hcond, hpolicy⟩ : step.cond = "" ∧ step.continueOnError = false := by
    rw [hstep, compositeStep]
    split_ifs <;> exact ⟨rfl, rfl⟩
  refine ⟨verdict_ne_skipped hcond, ?_⟩
  rintro ⟨⟨exit, duration, hfails⟩, -⟩
  exact runStep_endsOnFailure hpolicy exit duration hfails

/-- In every run of the plan, a composite action is governed by the step that refers to it and by its own conditions
just where these would change nothing. -/
theorem composite_governed_iff (hplan : buildPlan src rec ev inst = .ok p) (hst : inst.steps[n]? = some st)
    (href : RefersTo src st declared) (host : Host) (jobRunID : JobRunID) (d : Delivery) :
    (Governed host p jobRunID d (outerStep st) declared (blockStart src inst n) ↔
        NothingAsked host p jobRunID d (outerStep st) declared (blockStart src inst n)) ∧
      (st.cond = "" → st.continueOnError = false → (∀ inner ∈ declared, inner.cond = "") →
        Governed host p jobRunID d (outerStep st) declared (blockStart src inst n)) := by
  have hiff : Governed host p jobRunID d (outerStep st) declared (blockStart src inst n) ↔
      NothingAsked host p jobRunID d (outerStep st) declared (blockStart src inst n) := by
    constructor
    · intro hgoverned k inner step first now h
      obtain ⟨hskips, hends⟩ := h.bare hplan hst href
      obtain ⟨houter, hpolicy, hown⟩ := hgoverned k inner step first now h
      refine ⟨fun hfalse => hskips (houter hfalse), ?_, fun hfalse => hskips (hown hfalse)⟩
      intro hcontinue hfails
      exact hends hfails (hpolicy hcontinue hfails)
    · intro hnothing k inner step first now h
      obtain ⟨houter, hpolicy, hown⟩ := hnothing k inner step first now h
      exact ⟨fun hfalse => absurd hfalse houter, fun hcontinue hfails => absurd hfails (hpolicy hcontinue),
        fun hfalse => absurd hfalse hown⟩
  refine ⟨hiff, ?_⟩
  intro hcond hpolicy hinner
  apply hiff.mpr
  intro k inner step first now h
  refine ⟨conditionAt_none hcond, ?_, conditionAt_none (hinner inner (List.mem_of_getElem? h.member))⟩
  intro hcontinue
  exact absurd (hpolicy.symm.trans hcontinue) Bool.false_ne_true

end Replaced

/-- A step of an action, with its condition. -/
def declaredRun (script cond : String) : DeclaredStep where
  name := ""
  run := script
  uses := ""
  inputs := ∅
  cond := cond

/-- A source of actions that are all composite and declare these steps. -/
def declaringSource (declared : List DeclaredStep) : WorkflowSource :=
  { Server.ciSource "" with
    actionFetcher := some fun _ _ _ _ => .ok
      { runsUsing := "composite", main := "", steps := parsedSteps declared } }

/-- A step that uses the composite action. -/
def setupStep (cond : String) (continueOnError : Bool) : Syntax.Step :=
  { tokenStep "setup" "acme/setup@v1" "" with cond := cond, continueOnError := continueOnError }

/-- An action that asks for none of the three. -/
theorem composite_governed_plain : ∃ inst p, jobOf [setupStep "" false] = some inst ∧
      pushPlan (declaringSource [declaredRun "true" "", declaredRun "false" ""]) inst = .ok p ∧
      p.steps.length = 2 ∧ ∃ st ∈ inst.steps,
        Governed .failing p "j" (deliver ∅ ∅ []) (outerStep st) [declaredRun "true" "", declaredRun "false" ""]
          (blockStart (declaringSource [declaredRun "true" "", declaredRun "false" ""]) inst 0) := by
  generalize hdeclared : [declaredRun "true" "", declaredRun "false" ""] = declared
  have hall : ((jobOf [setupStep "" false]).bind fun inst =>
      (pushPlan (declaringSource declared) inst).toOption.bind fun p =>
        inst.steps[0]?.map fun st => decide (p.steps.length = 2 ∧ st.uses = none ∧ st.rawUses ≠ "" ∧ st.cond = "" ∧
          st.continueOnError = false)) = some true := by
    rw [← hdeclared]
    decide +kernel
  obtain ⟨inst, hjob, hall⟩ := Option.bind_eq_some_iff.mp hall
  obtain ⟨p, hp, hall⟩ := Option.bind_eq_some_iff.mp hall
  obtain ⟨st, hst, hall⟩ := Option.map_eq_some_iff.mp hall
  obtain ⟨hlength, hbuiltin, huses, hcond, hpolicy⟩ := of_decide_eq_true hall
  have hplan : pushPlan (declaringSource declared) inst = .ok p := by
    cases hok : pushPlan (declaringSource declared) inst with
    | error err =>
      rw [hok] at hp
      cases hp
    | ok p' =>
      rw [hok] at hp
      rw [Option.some.inj hp]
  have hcomposite : GoString.hasPrefix "composite" "composite" := by decide
  have href : RefersTo (declaringSource declared) st declared :=
    ⟨hbuiltin, huses, _, _, rfl, rfl, hcomposite, rfl⟩
  have hinner : ∀ inner ∈ declared, inner.cond = "" := by
    rw [← hdeclared]
    decide
  exact ⟨inst, p, hjob, hplan, hlength, st, List.mem_of_getElem? hst,
    (composite_governed_iff hplan hst href .failing "j" (deliver ∅ ∅ [])).2 hcond hpolicy hinner⟩

/-- A job with one reference to such an action: the condition, the results and the success. -/
def setupRun (cond : String) (continueOnError : Bool) (declared : List DeclaredStep) :
    Option (Option Bool × List (Outcome × Outcome) × Bool) :=
  (jobOf [setupStep cond continueOnError]).bind fun inst =>
    (pushPlan (declaringSource declared) inst).toOption.bind fun p =>
      inst.steps.head?.map fun st =>
        let r := run .failing p "j"
        ((conditionAt .failing p 0 (deliver ∅ ∅ []).start (outerStep st)).toOption,
          r.result.steps.map fun sr => (sr.outcome, sr.conclusion), r.result.success)

/-- A step is executed though a condition is false, and fails the job in spite of `continue-on-error`. -/
theorem composite_ungoverned :
    setupRun "1 == 2" false [declaredRun "true" ""] = some (some false, [(.success, .success)], true) ∧
      setupRun "" true [declaredRun "false" ""] = some (some true, [(.failure, .failure)], false) ∧
      setupRun "" false [declaredRun "true" "1 == 2"] = some (some true, [(.success, .success)], true) := by
  refine ⟨?_, ?_, ?_⟩
  · decide +kernel
  · decide +kernel
  · decide +kernel

end Forgelet.Executor
