import Forgelet.Executor.Ledger
import Forgelet.Executor.Proofs.EngineProofs

/-!
# Proofs: one rule for the steps of a job

Each kind of step has its own way through the loop of `Run`, with its own exits; all of them follow the rule of the
ledger. The second part is about the report: how many results are delivered, and when none is.
-/

namespace Forgelet.Executor

open Bytes (ofString)

/-! ## One step -/

/-- What a verdict means for the state and the rest; `before` are the entries so far. -/
def Follows (before : List StepResult) (i : Nat) (step : PlanStep) (r : Progress × Option Halt) : Verdict → Prop
  | .skipped => r.2 = none ∧ r.1.steps = before ++ [.of step.id .skipped]
  | .ran exit duration false =>
    r.2 = none ∧ r.1.steps = before ++ [⟨step.id, exit, duration, .success, .success⟩]
  | .ran exit duration true =>
    if step.continueOnError then r.2 = none ∧ r.1.steps = before ++ [⟨step.id, exit, duration, .failure, .success⟩]
    else
      (∃ reason, r.2 = some (.failed reason (i + 1))) ∧
        r.1.steps = before ++ [⟨step.id, exit, duration, .failure, .failure⟩]
  | .unevaluated => (∃ reason, r.2 = some (.failed reason i)) ∧ r.1.steps = before

section Steps

variable {host : Host} {p : Plan} {jobRunID : JobRunID} {withSecrets : GoMap Bytes Bytes} {st : Progress} {i : Nat}
  {step : PlanStep} {env : GoMap Bytes Bytes} {exprs : Expression.Env}

theorem follows_unevaluated (reason : Reason) : Follows st.steps i step (st, some (.failed reason i)) .unevaluated :=
  ⟨⟨reason, rfl⟩, rfl⟩

/-- The end of a step that was executed, unless it was cancelled. -/
theorem settle_follows {outputs exit duration err reason continued} (herr : ∀ e, err = some e → e.cancelled = false) :
    Follows st.steps i step (settle st i step outputs exit duration err reason continued)
      (verdictOf exit duration err) := by
  unfold settle
  cases err with
  | none => exact ⟨rfl, rfl⟩
  | some e =>
    have hcancelled : ¬ e.cancelled := by
      rw [herr e rfl]
      exact Bool.false_ne_true
    dsimp only [verdictOf, Option.isSome_some, Follows]
    rw [if_neg hcancelled]
    split_ifs
    · exact ⟨rfl, rfl⟩
    · exact ⟨⟨reason, rfl⟩, rfl⟩

theorem settleAction_follows {call run files} (herr : ∀ e, run.err = some e → e.cancelled = false) :
    Follows st.steps i step (settleAction host st i step call run files) (actionVerdict host i run) :=
  -- the files of a step and its records leave the entries alone
  settle_follows herr

/-- `runJS` hands a cancellation on and adds none. -/
theorem runJS_calm {interpreter : Bytes → ActionRun} {inputs js}
    (h : ∀ script err, (interpreter script).err = some err → err.cancelled = false) :
    ∀ e, (runJS interpreter inputs js).err = some e → e.cancelled = false := by
  intro e he
  unfold runJS at he
  dsimp only at he
  generalize (if (inputs.lookup (ofString "script")).getD [] = [] then ofString js.script
    else (inputs.lookup (ofString "script")).getD []) = script at he
  split_ifs at he
  · rw [← Option.some_inj.mp he]
  · rw [← Option.some.inj he]
  · cases herr : (interpreter script).err with
    | none =>
      rw [herr] at he
      cases he
    | some err =>
      rw [herr] at he
      rw [← Option.some.inj he]
      exact h script err herr

section

variable (hcalm : host.Calm p) (hi : i < p.steps.length)
include hcalm hi

theorem runJSStep_follows (js : JSStep) :
    Follows st.steps i step (runJSStep host withSecrets st i step exprs js)
      (jsVerdict host withSecrets i step exprs js) := by
  unfold runJSStep jsVerdict
  cases resolveInputs host i step.id withSecrets exprs js.inputs with
  | error reason => exact follows_unevaluated reason
  | ok call => exact settleAction_follows (runJS_calm fun script => hcalm.interpreter i hi script _)

theorem runBuiltinStep_follows (b : BuiltinStep) :
    Follows st.steps i step (runBuiltinStep host withSecrets st i step env exprs b)
      (builtinVerdict host withSecrets i step env exprs b) := by
  unfold runBuiltinStep builtinVerdict
  cases resolveInputs host i step.id withSecrets exprs b.inputs with
  | error reason => exact follows_unevaluated reason
  | ok call =>
    split_ifs
    · exact settleAction_follows (hcalm.builtin i hi _ _ _)
    · exact follows_unevaluated _

theorem runScriptStep_follows :
    Follows st.steps i step (runScriptStep host jobRunID st i step env exprs)
      (scriptVerdict host i step env exprs) := by
  unfold runScriptStep scriptVerdict
  dsimp only
  generalize (if Expression.hasExpression (ofString step.run.script)
    then Expression.interpolate (ofString step.run.script) exprs else .ok (ofString step.run.script)) = script
  cases script with
  | error err => exact follows_unevaluated _
  | ok script =>
    cases renderEnv exprs env (entriesIn (host.orders i) (ownEnv step)) with
    | error err => exact follows_unevaluated _
    | ok env => exact settle_follows (hcalm.script i hi _ _ _)

theorem runPrepared_follows :
    Follows st.steps i step (runPrepared host p jobRunID withSecrets st i step)
      (preparedVerdict host p withSecrets st i step) := by
  unfold runPrepared preparedVerdict
  dsimp only
  cases conditionOf step (exprEnv host p i (stepEnv st step) st.states) with
  | error err => exact follows_unevaluated _
  | ok holds =>
    cases holds with
    | false => exact ⟨rfl, rfl⟩
    | true =>
      cases step.js with
      | some js => exact runJSStep_follows hcalm hi js
      | none =>
        split_ifs
        · exact ⟨rfl, rfl⟩
        · cases step.builtin with
          | some b => exact runBuiltinStep_follows hcalm hi b
          | none => exact runScriptStep_follows hcalm hi

theorem runStep_follows :
    Follows st.steps i step (runStep host p jobRunID withSecrets st i step) (verdict host p withSecrets st i step) := by
  have hgoes : runStep host p jobRunID withSecrets st i step =
      runPrepared host p jobRunID withSecrets { st with env := withStepFiles host i st.env } i step := by
    unfold runStep
    rw [hcalm.done i hi, hcalm.prepared i hi]
    rfl
  have hprepared : Follows { st with env := withStepFiles host i st.env }.steps i step
      (runPrepared host p jobRunID withSecrets { st with env := withStepFiles host i st.env } i step)
      (preparedVerdict host p withSecrets { st with env := withStepFiles host i st.env } i step) :=
    runPrepared_follows hcalm hi
  rw [hgoes]
  exact hprepared

end

end Steps

/-! ## The loop -/

/-- A run that ends with these entries and reports just that. -/
structure Ends (r : Run) (entries : List StepResult) (reached : Bool) : Prop where
  reports : r.reports = [r.result]
  steps : r.result.steps = entries
  success : r.result.success = reached
  cancelled : r.result.cancelled = false

section Loop

variable {host : Host} {p : Plan} {jobRunID : JobRunID} {withSecrets : GoMap Bytes Bytes} {st st' : Progress} {i : Nat}
  {step : PlanStep} {rest : List PlanStep}

theorem runSteps_goOn (h : runStep host p jobRunID withSecrets st i step = (st', none)) :
    runSteps host p jobRunID withSecrets st i (step :: rest) =
      runSteps host p jobRunID withSecrets st' (i + 1) rest := by
  rw [runSteps, h]

theorem runSteps_halt {halt} (h : runStep host p jobRunID withSecrets st i step = (st', some halt)) :
    runSteps host p jobRunID withSecrets st i (step :: rest) = (st', some halt) := by
  rw [runSteps, h]

/-- The run that the loop from the `i`-th step on leads to. -/
def finishFrom (host : Host) (p : Plan) (jobRunID : JobRunID) (withSecrets : GoMap Bytes Bytes) (st : Progress)
    (i : Nat) (rest : List PlanStep) : Run :=
  finish host p jobRunID (runSteps host p jobRunID withSecrets st i rest).1
    (runSteps host p jobRunID withSecrets st i rest).2

/-- The loop agrees with the ledger from the `i`-th step on. -/
def Agrees (host : Host) (p : Plan) (jobRunID : JobRunID) (withSecrets : GoMap Bytes Bytes) (st : Progress) (i : Nat)
    (rest : List PlanStep) : Prop :=
  Ends (finishFrom host p jobRunID withSecrets st i rest)
    (st.steps ++ (ledger (engine host p jobRunID withSecrets) st i rest).1)
    (ledger (engine host p jobRunID withSecrets) st i rest).2

section

variable {out : Progress × Option Halt} (hstep : runStep host p jobRunID withSecrets st i step = out)
include hstep

theorem agrees_goOn {entry} (hgoes : out.2 = none ∧ out.1.steps = st.steps ++ [entry])
    (hledger : ledger (engine host p jobRunID withSecrets) st i (step :: rest) =
      (ledger (engine host p jobRunID withSecrets) out.1 (i + 1) rest).map (entry :: ·) id)
    (hrest : Agrees host p jobRunID withSecrets out.1 (i + 1) rest) :
    Agrees host p jobRunID withSecrets st i (step :: rest) := by
  unfold Agrees finishFrom at hrest ⊢
  rw [hgoes.2, List.append_assoc] at hrest
  rw [hledger, runSteps_goOn (hstep.trans (Prod.ext rfl hgoes.1))]
  exact hrest

theorem agrees_failed {entries skipFrom after} (hdrop : p.steps.drop skipFrom = after)
    (hfails : (∃ reason, out.2 = some (.failed reason skipFrom)) ∧ out.1.steps = st.steps ++ entries)
    (hledger : ledger (engine host p jobRunID withSecrets) st i (step :: rest) = (entries ++ allSkipped after, false)) :
    Agrees host p jobRunID withSecrets st i (step :: rest) := by
  obtain ⟨⟨reason, hhalt⟩, hentries⟩ := hfails
  unfold Agrees finishFrom
  rw [hledger, runSteps_halt (hstep.trans (Prod.ext rfl hhalt)), ← List.append_assoc, ← hentries, ← hdrop]
  exact ⟨rfl, rfl, rfl, rfl⟩

end

theorem runSteps_agrees (hcalm : host.Calm p) (st : Progress) (i : Nat) (hrest : p.steps.drop i = rest) :
    Agrees host p jobRunID withSecrets st i rest := by
  induction rest generalizing st i with
  | nil => exact ⟨rfl, (List.append_nil _).symm, rfl, rfl⟩
  | cons step rest ih =>
    have hi : i < p.steps.length := by
      by_contra hle
      rw [List.drop_eq_nil_of_le (Nat.le_of_not_lt hle)] at hrest
      cases hrest
    have hdrop : p.steps.drop (i + 1) = rest := by
      rw [← List.drop_drop, hrest]
      rfl
    have hnext := ih (runStep host p jobRunID withSecrets st i step).1 (i + 1) hdrop
    have hfollows : Follows st.steps i step (runStep host p jobRunID withSecrets st i step)
        (engine host p jobRunID withSecrets st i step).1 := runStep_follows hcalm hi
    have hledger : ledger (engine host p jobRunID withSecrets) st i (step :: rest) = _ := ledger.eq_2 ..
    cases hverdict : (engine host p jobRunID withSecrets st i step).1 with
    | skipped =>
      rw [hverdict] at hfollows hledger
      exact agrees_goOn rfl hfollows hledger hnext
    | ran exit duration failed =>
      rw [hverdict] at hfollows hledger
      cases failed with
      | false => exact agrees_goOn rfl hfollows hledger hnext
      | true =>
        dsimp only [Follows] at hfollows
        split_ifs at hfollows hledger
        · exact agrees_goOn rfl hfollows hledger hnext
        · exact agrees_failed rfl hdrop hfollows hledger
    | unevaluated =>
      rw [hverdict] at hfollows hledger
      exact agrees_failed rfl hrest ⟨hfollows.1, hfollows.2.trans (List.append_nil _).symm⟩ hledger

end Loop

/-! ## Runs -/

/-- The results that a run reports are those of the ledger, whatever the steps are and do. -/
theorem run_follows_ledger {host : Host} {p : Plan} (jobRunID : JobRunID) {env secrets : GoMap Bytes Bytes}
    (hrender : jobEnv host p = .ok env) (hfetch : fetch host p = .ok secrets) (hmkdir : host.mkdirErr = none)
    (hcalm : host.Calm p) :
    let d := deliver secrets env p.secretRefs
    let entries := ledger (engine host p jobRunID d.withSecrets) d.start 0 p.steps
    Ends (run host p jobRunID) entries.1 entries.2 ∧
      (run host p jobRunID).result.steps.map StepResult.stepID = p.steps.map PlanStep.id := by
  intro d entries
  have hrun : run host p jobRunID = finishFrom host p jobRunID d.withSecrets d.start 0 p.steps := by
    unfold jobEnv at hrender
    unfold run
    dsimp only
    rw [hrender, hfetch, hmkdir]
    rfl
  have hagrees : Agrees host p jobRunID d.withSecrets d.start 0 p.steps := runSteps_agrees hcalm d.start 0 rfl
  have hends : Ends (run host p jobRunID) entries.1 entries.2 := by
    rw [hrun]
    exact hagrees
  refine ⟨hends, ?_⟩
  rw [hends.steps]
  exact ledger_ids ..

/-- A host on which a script that says so fails, and so does the interpreter. -/
def Host.failing : Host :=
  { Host.quiet with
    script := fun _ script _ => (.ran [] (.exited (if script = ofString "false" then 2 else 0)), .none)
    interpreter := fun _ _ _ => ⟨some ⟨ofString "thrown", false⟩, [], []⟩ }

/-- One step is skipped, one fails and is continued, one is a builtin, one fails, one is left. -/
def mixedSteps : List PlanStep :=
  [{ scriptStep "off" "true" with cond := "1 == 2" },
    { scriptStep "try" "false" with continueOnError := true },
    { scriptStep "get" "" with builtin := some ⟨"actions/checkout", "v4", ∅⟩ },
    { scriptStep "js" "" with js := some ⟨"actions/github-script", "v7", "", "", "throw 1", ∅⟩ },
    scriptStep "left" "true"]

theorem Host.failing_calm (p : Plan) : Host.failing.Calm p where
  done _ _ := rfl
  prepared _ _ := rfl
  script _ _ script _ _ err h := by
    have hcases : err = errStepFailed := by
      dsimp only [failing, Process.result] at h
      split_ifs at h
      all_goals exact (Option.some.inj h).symm
    rw [hcases]
    rfl
  builtin _ _ _ _ _ _ h := by cases h
  interpreter _ _ _ _ _ h := by
    rw [← Option.some.inj h]

/-- A skipped step, a tolerated failure, a success, a failure and a step after it. -/
theorem run_follows_ledger_mixed : (∃ entries reached, Ends (run .failing (planOf mixedSteps []) "j") entries reached) ∧
      ((run .failing (planOf mixedSteps []) "j").result.steps.map fun sr => (sr.outcome, sr.conclusion)) =
        [(.skipped, .skipped), (.failure, .success), (.success, .success), (.failure, .failure),
          (.skipped, .skipped)] := by
  refine ⟨⟨_, _, (run_follows_ledger "j" rfl rfl rfl (Host.failing_calm _)).1⟩, ?_⟩
  decide +kernel

/-! ## The delivery of the result -/

/-- The context at the report: `ReportJob` fails just when it is done. -/
structure Context (host : Host) where
  done : Bool
  answers : ∀ result, (host.report result).isSome = done

/-- The results of a run that `ReportJob` took. -/
def delivered (host : Host) (r : Run) : List JobResult := r.reports.filter fun result => (host.report result).isNone

theorem settle_ne_unprepared {st i step outputs exit duration err reason continued} (text : Bytes) :
    (settle st i step outputs exit duration err reason continued).2 ≠ some (.unprepared text) := by
  intro h
  unfold settle at h
  cases err with
  | none => cases h
  | some e =>
    dsimp only at h
    split_ifs at h
    all_goals cases h

theorem prepared_ne_unprepared {host withSecrets st i step r} (h : Prepared host withSecrets st i step r)
    (text : Bytes) :
    r.2 ≠ some (.unprepared text) := by
  intro hhalt
  cases h with
  | failed | entered => cases hhalt
  | action | script => exact settle_ne_unprepared text hhalt

theorem runStep_unprepared (host : Host) (p : Plan) (jobRunID : JobRunID) (withSecrets : GoMap Bytes Bytes)
    (st : Progress) (i : Nat) (step : PlanStep) :
    (∃ text, (runStep host p jobRunID withSecrets st i step).2 = some (.unprepared text)) ↔
      host.done i = false ∧ host.prepareErr i ≠ none := by
  unfold runStep
  cases host.done i with
  | true => simp
  | false =>
    rw [if_neg Bool.false_ne_true]
    cases host.prepareErr i with
    | some err => simp
    | none =>
      refine iff_of_false ?_ (by simp)
      rintro ⟨text, hhalt⟩
      exact prepared_ne_unprepared (runPrepared_prepared p jobRunID _) text hhalt

theorem runSteps_unprepared {host p jobRunID withSecrets st i rest} :
    (∃ text, (runSteps host p jobRunID withSecrets st i rest).2 = some (.unprepared text)) ↔
      ∃ k < rest.length, (runSteps host p jobRunID withSecrets st i (rest.take k)).2 = none ∧
        host.done (i + k) = false ∧ host.prepareErr (i + k) ≠ none := by
  induction rest generalizing st i with
  | nil => simp [runSteps]
  | cons step rest ih =>
    have hfirst : (∃ k < (step :: rest).length,
        (runSteps host p jobRunID withSecrets st i ((step :: rest).take k)).2 = none ∧
          host.done (i + k) = false ∧ host.prepareErr (i + k) ≠ none) ↔
        (host.done i = false ∧ host.prepareErr i ≠ none) ∨
          ∃ k < rest.length, (runSteps host p jobRunID withSecrets st i (step :: rest.take k)).2 = none ∧
            host.done (i + 1 + k) = false ∧ host.prepareErr (i + 1 + k) ≠ none := by
      rw [List.length_cons, Nat.exists_lt_succ_left]
      simp only [List.take_zero, List.take_succ_cons, runSteps, Nat.add_zero, Nat.add_right_comm i, Nat.add_assoc,
        true_and]
    rw [hfirst, ← runStep_unprepared host p jobRunID withSecrets st i step]
    obtain ⟨⟨st', halt⟩, hstep⟩ : ∃ out, runStep host p jobRunID withSecrets st i step = out := ⟨_, rfl⟩
    cases halt with
    | none =>
      simp only [runSteps_goOn hstep, ih, hstep]
      simp
    | some halt =>
      simp only [runSteps_halt hstep, hstep]
      simp

/-- The files can be prepared of every step that the loop comes to. -/
def Prepares (host : Host) (p : Plan) (jobRunID : JobRunID) (d : Delivery) : Prop :=
  ∀ i < p.steps.length, (runSteps host p jobRunID d.withSecrets d.start 0 (p.steps.take i)).2 = none →
    host.done i = false → host.prepareErr i = none

/-- If the environment can be evaluated, secrets are fetched and directory and files made. -/
def Supplied (host : Host) (p : Plan) (jobRunID : JobRunID) : Prop :=
  ∀ env, jobEnv host p = .ok env → ∃ secrets, fetch host p = .ok secrets ∧ host.mkdirErr = none ∧
    Prepares host p jobRunID (deliver secrets env p.secretRefs)

theorem not_prepares_iff {host p jobRunID d} : ¬Prepares host p jobRunID d ↔
      ∃ text, (runSteps host p jobRunID d.withSecrets d.start 0 p.steps).2 = some (.unprepared text) := by
  rw [runSteps_unprepared]
  simp only [Prepares, not_forall, Nat.zero_add, exists_prop, ne_eq]

/-- A run reports one result if the job has what it needs, and nothing otherwise. -/
theorem run_reports (host : Host) (p : Plan) (jobRunID : JobRunID) :
    Supplied host p jobRunID ∧ (∃ result, (run host p jobRunID).reports = [result]) ∨
      ¬Supplied host p jobRunID ∧ (run host p jobRunID).reports = [] := by
  unfold Supplied jobEnv run
  dsimp only
  cases renderEnv _ (baseEnv host p) (entriesIn host.jobOrder (baseEnv host p)) with
  | error e => exact .inl ⟨nofun, _, rfl⟩
  | ok env =>
    simp only [Except.ok.injEq, forall_eq']
    cases fetch host p with
    | error err => exact .inr ⟨nofun, rfl⟩
    | ok secrets =>
      simp only [Except.ok.injEq, exists_eq_left']
      cases host.mkdirErr with
      | some err => exact .inr ⟨nofun, rfl⟩
      | none =>
        by_cases hprepares : Prepares host p jobRunID (deliver secrets env p.secretRefs)
        · refine .inl ⟨⟨rfl, hprepares⟩, ?_⟩
          have hhalt := fun text htext => not_prepares_iff.mpr ⟨text, htext⟩ hprepares
          cases hends : (runSteps host p jobRunID (deliver secrets env p.secretRefs).withSecrets
            (deliver secrets env p.secretRefs).start 0 p.steps).2 with
          | none => exact ⟨_, rfl⟩
          | some halt =>
            cases halt with
            | failed | cancelled => exact ⟨_, rfl⟩
            | unprepared text => exact absurd hends (hhalt text)
        · obtain ⟨text, htext⟩ := not_prepares_iff.mp hprepares
          refine .inr ⟨fun h => hprepares h.2, ?_⟩
          rw [htext]
          rfl

/-- At most one result is delivered; one is just if the context is not done at the report and the job has what it
needs. -/
theorem run_delivers_iff {host : Host} {p : Plan} {jobRunID : JobRunID} (ctx : Context host) :
    (delivered host (run host p jobRunID)).length ≤ 1 ∧
      ((delivered host (run host p jobRunID)).length = 1 ↔ ctx.done = false ∧ Supplied host p jobRunID) := by
  unfold delivered
  rcases run_reports host p jobRunID with ⟨hsupplied, result, hone⟩ | ⟨hsupplied, hnone⟩
  · rw [hone]
    have htaken : (host.report result).isNone = !ctx.done := by rw [← Option.not_isSome, ctx.answers]
    rw [List.filter_singleton, htaken]
    cases ctx.done with
    | false => exact ⟨le_rfl, fun _ => ⟨rfl, hsupplied⟩, fun _ => rfl⟩
    | true => exact ⟨Nat.zero_le 1, nofun, fun h => by cases h.1⟩
  · rw [hnone]
    exact ⟨Nat.zero_le 1, nofun, fun h => absurd h.2 hsupplied⟩

/-- A job of one step whose context is never done. -/
theorem run_delivers_success : ∃ ctx : Context .quiet, ctx.done = false ∧
      (delivered .quiet (run .quiet (planOf [scriptStep "s" "true"] []) "j")).length = 1 :=
  ⟨⟨false, fun _ => rfl⟩, rfl, (run_delivers_iff (⟨false, fun _ => rfl⟩ : Context .quiet)).2.mpr
    ⟨rfl, fun _ _ => ⟨_, rfl, rfl, fun _ _ _ _ => rfl⟩⟩⟩

/-- Its context is done from the start. -/
def Host.stopped : Host :=
  { Host.quiet with done := fun _ => true, report := fun _ => some (ofString "context canceled") }

/-- Its secrets cannot be fetched. -/
def Host.secretless : Host := { Host.quiet with fetchSecrets := fun _ => .error (ofString "status 500") }

/-- It cannot make the files of a step. -/
def Host.full : Host := { Host.quiet with prepareErr := fun _ => some (ofString "no space left on device") }

/-- For a job that is cancelled, or has no secrets or files, nothing is delivered. -/
theorem run_delivers_nothing : (∃ ctx : Context .stopped, ctx.done ∧
      (run .stopped (planOf [scriptStep "s" "true"] []) "j").result.cancelled ∧
      delivered .stopped (run .stopped (planOf [scriptStep "s" "true"] []) "j") = []) ∧
    (∃ ctx : Context .secretless, ctx.done = false ∧
      delivered .secretless (run .secretless (planOf [scriptStep "s" "true"] [⟨"repo", "TOKEN", []⟩]) "j") = []) ∧
    ∃ ctx : Context .full, ctx.done = false ∧
      delivered .full (run .full (planOf [scriptStep "s" "true"] []) "j") = [] :=
  ⟨⟨⟨true, fun _ => rfl⟩, rfl, by decide +kernel, by decide +kernel⟩,
    ⟨⟨false, fun _ => rfl⟩, rfl, by decide +kernel⟩,
    ⟨false, fun _ => rfl⟩, rfl, by decide +kernel⟩

end Forgelet.Executor
