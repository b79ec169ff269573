import Forgelet.Executor.Checkout
import Forgelet.Executor.Ledger
import Forgelet.Executor.Proofs.EngineProofs
import Forgelet.Lib.Decimal

/-!
# Proofs: what a report says

A report is made of step ids, numbers, fixed words and the reason for which the job ended. Only a reason that quotes an
error can bring a text from outside into it, and none is masked.
-/

namespace Forgelet.Executor

open Bytes (ofString byte)
open Expression (hasExpression interpolate)

/-- The reason has the text of an error from outside. -/
def Reason.quotes : Reason → Bool
  | .jobEnv .. | .cond .. | .input .. | .action .. | .script .. | .stepEnv .. => true
  | .cancelledBefore _ | .noBuiltin _ | .cancelled _ | .exited .. => false

/-- What the entry of a step says. -/
def StepResult.texts (sr : StepResult) : List Bytes :=
  [sr.stepID, Bytes.ofInt sr.exitCode, Bytes.ofInt sr.durationMs, ofString sr.outcome.text, ofString sr.conclusion.text]

/-- What a result says in its error and in the entries of its steps. -/
def JobResult.texts (r : JobResult) : List Bytes := r.error :: r.steps.flatMap StepResult.texts

variable {host : Host} {p : Plan} {jobRunID : JobRunID}

/-- The entries are those of the plan's steps, and the error is that of the reason. -/
structure ReportOf (p : Plan) (reason : Option Reason) (r : JobResult) : Prop where
  entries : ∀ sr ∈ r.steps, ∃ step ∈ p.steps, sr.stepID = step.id
  error : r.error = (reason.map Reason.text).getD []
  named : ∀ reason' ∈ reason, reason'.quotes ∨ ∃ step ∈ p.steps, reason'.Of step

/-- The run reports one result, or it ends without a reason and reports none. -/
def Reported (p : Plan) (out : Run) : Prop :=
  (out.reports = [] ∧ out.reason = none) ∨ ∃ r, out.reports = [r] ∧ ReportOf p out.reason r

theorem reported_finish {st halt} (hentries : ∀ sr ∈ st.steps, ∃ step ∈ p.steps, sr.stepID = step.id)
    (hreason : ∀ h reason, halt = some h → h.reason = some reason → ∃ step ∈ p.steps, reason.Of step) :
    Reported p (finish host p jobRunID st halt) := by
  match halt with
  | none => exact .inr ⟨_, rfl, hentries, rfl, nofun⟩
  | some (.failed reason skipFrom) =>
    refine .inr ⟨_, rfl, fun sr hsr => ?_, rfl, fun _ h => .inr (hreason _ _ rfl h)⟩
    rcases List.mem_append.mp hsr with hsr | hsr
    · exact hentries sr hsr
    · obtain ⟨step, hstep, rfl⟩ := List.mem_map.mp hsr
      exact ⟨step, List.mem_of_mem_drop hstep, rfl⟩
  | some (.cancelled reason) => exact .inr ⟨_, rfl, hentries, rfl, fun _ h => .inr (hreason _ _ rfl h)⟩
  | some (.unprepared _) => exact .inl ⟨rfl, rfl⟩

theorem reported_run (host : Host) (p : Plan) (jobRunID : JobRunID) : Reported p (run host p jobRunID) := by
  rcases run_cases host p jobRunID with ⟨k, err, hrun⟩ | ⟨st, result, err, hrun, -⟩ |
    ⟨secrets, env, st, halt, -, hsteps, hrun⟩
  · rw [hrun]
    refine .inr ⟨_, rfl, nofun, rfl, ?_⟩
    rintro _ ⟨⟩
    exact .inl rfl
  · rw [hrun]
    exact .inl ⟨rfl, rfl⟩
  · obtain ⟨new, hnew, hentries⟩ := (moved_of_runSteps hsteps).entries
    rw [hrun]
    apply reported_finish
    · intro sr hsr
      rw [hnew] at hsr
      obtain ⟨e, he, hid⟩ := hentries sr hsr
      exact ⟨e.1, (List.mem_zipIdx' he).2 ▸ List.getElem_mem _, hid⟩
    · intro h reason hhalt hreason
      have hend : (runSteps host p jobRunID (deliver secrets env p.secretRefs).withSecrets
          (deliver secrets env p.secretRefs).start 0 p.steps).2 = some h := by
        rw [hsteps]
        exact hhalt
      exact runSteps_reason hend hreason

/-! ## Quoted errors -/

/-- The job ends, for a reason that quotes an error. -/
def Quotes (out : Progress × Option Halt) (reason : Reason) : Prop :=
  ∃ halt, out.2 = some halt ∧ halt.reason = some reason ∧ reason.quotes

theorem not_quotes_none {st reason} : ¬Quotes (st, none) reason := by
  rintro ⟨halt, h, -⟩
  cases h

theorem quotes_some_iff {st reason} {halt : Halt} :
    Quotes (st, some halt) reason ↔ halt.reason = some reason ∧ reason.quotes := by
  constructor
  · rintro ⟨halt', h, hquotes⟩
    rwa [Option.some.inj h]
  · exact fun h => ⟨halt, rfl, h⟩

theorem quotes_failed_iff {st reason reason' skipFrom} (hquotes : reason'.quotes) :
    Quotes (st, some (.failed reason' skipFrom)) reason ↔ reason = reason' := by
  rw [quotes_some_iff]
  constructor
  · exact fun h => (Option.some.inj h.1).symm
  · rintro rfl
    exact ⟨rfl, hquotes⟩

theorem not_quotes_of_plain {st reason reason'} {halt : Halt} (h : halt.reason = some reason')
    (hplain : reason'.quotes = false) : ¬Quotes (st, some halt) reason := by
  rw [quotes_some_iff, h]
  rintro ⟨hreason, hquotes⟩
  rw [← Option.some.inj hreason, hplain] at hquotes
  cases hquotes

/-- The error of the step ends the job: it is no cancellation, and the step does not go on after errors. -/
def Fatal (step : PlanStep) (err : StepErr) : Prop := err.cancelled = false ∧ step.continueOnError = false

section Told

variable (host : Host) (p : Plan) (withSecrets : GoMap Bytes Bytes) (st : Progress) (i : Nat) (step : PlanStep)
  (reason : Reason)

/-- The errors that end the job at an action: of an input, or those with which it `answers` a call. -/
def ActionTold (exprs : Expression.Env) (inputs : GoMap String String) (answer : Call → Option StepErr) : Prop :=
  match resolveInputs host i step.id withSecrets exprs inputs with
  | .error reason' => reason = reason'
  | .ok call => ∃ err, answer call = some err ∧ Fatal step err ∧ reason = .action step.id err.text

/-- The errors that end the job at a script: of an expression in it, or of one in its environment. -/
def ScriptTold (env : GoMap Bytes Bytes) (exprs : Expression.Env) : Prop :=
  match if hasExpression (ofString step.run.script) then interpolate (ofString step.run.script) exprs
    else .ok (ofString step.run.script) with
  | .error err => reason = .script step.id err
  | .ok _ =>
    ∃ k err, renderEnv exprs env (entriesIn (host.orders i) (ownEnv step)) = .error (k, err) ∧
      reason = .stepEnv step.id k err

/-- The errors that end the job at a step in the state `st`: of one of its expressions, of the interpreter or of its
handler. -/
def Told : Prop :=
  let env := stepEnv st step
  let exprs := exprEnv host p i env st.states
  match conditionOf step exprs with
  | .error err => reason = .cond step.id err
  | .ok false => False
  | .ok true =>
    match step.js with
    | some js =>
      ActionTold host withSecrets i step reason exprs js.inputs fun call =>
        (runJS (host.interpreter i · call.inputs) call.inputs js).err
    | none =>
      step.composite = false ∧
        match step.builtin with
        | some b =>
          ActionTold host withSecrets i step reason exprs b.inputs fun call =>
            if b.action ∉ builtinRegistry then none else (host.builtin i b.action call.inputs env).1.err
        | none => ScriptTold host i step reason env exprs

variable {host p withSecrets st i step reason}

theorem quotes_settle_iff {outputs exit duration err failure continued} :
    Quotes (settle st i step outputs exit duration err failure continued) reason ↔
      ∃ e, err = some e ∧ Fatal step e ∧ reason = failure ∧ reason.quotes := by
  cases err with
  | none =>
    refine iff_of_false not_quotes_none ?_
    rintro ⟨e, h, -⟩
    cases h
  | some e =>
    have hiff : (∃ e', some e = some e' ∧ Fatal step e' ∧ reason = failure ∧ reason.quotes) ↔
        Fatal step e ∧ reason = failure ∧ reason.quotes := by simp
    rw [hiff]
    unfold settle
    dsimp only
    split_ifs with hcancelled hcontinue
    · exact iff_of_false (not_quotes_of_plain rfl rfl) fun h => absurd hcancelled (by simp [h.1.1])
    · exact iff_of_false not_quotes_none fun h => absurd hcontinue (by simp [h.1.2])
    · rw [quotes_some_iff]
      have hfatal : Fatal step e := ⟨by simpa using hcancelled, by simpa using hcontinue⟩
      constructor
      · exact fun h => ⟨hfatal, (Option.some.inj h.1).symm, h.2⟩
      · rintro ⟨-, rfl, hquotes⟩
        exact ⟨rfl, hquotes⟩

theorem quotes_resolveInputs {exprs inputs}
    (h : resolveInputs host i step.id withSecrets exprs inputs = .error reason) : reason.quotes := by
  unfold resolveInputs at h
  split at h
  · rw [← Except.error.inj h]
    rfl
  · cases h

/-- A call of an action, settled. -/
theorem quotes_settleAction_iff {call run files} : Quotes (settleAction host st i step call run files) reason ↔
      ∃ e, run.err = some e ∧ Fatal step e ∧ reason = .action step.id e.text := by
  unfold settleAction
  dsimp only
  rw [quotes_settle_iff]
  constructor
  · rintro ⟨e, he, hfatal, hreason, -⟩
    rw [he] at hreason
    exact ⟨e, he, hfatal, hreason⟩
  · rintro ⟨e, he, hfatal, rfl⟩
    rw [he]
    exact ⟨e, rfl, hfatal, rfl, rfl⟩

theorem quotes_runJSStep_iff {exprs} {js : JSStep} : Quotes (runJSStep host withSecrets st i step exprs js) reason ↔
      ActionTold host withSecrets i step reason exprs js.inputs fun call =>
        (runJS (host.interpreter i · call.inputs) call.inputs js).err := by
  unfold runJSStep ActionTold
  cases h : resolveInputs host i step.id withSecrets exprs js.inputs with
  | error => exact quotes_failed_iff (quotes_resolveInputs h)
  | ok call => exact quotes_settleAction_iff

theorem quotes_runBuiltinStep_iff {env exprs} {b : BuiltinStep} :
    Quotes (runBuiltinStep host withSecrets st i step env exprs b) reason ↔
      ActionTold host withSecrets i step reason exprs b.inputs fun call =>
        if b.action ∉ builtinRegistry then none else (host.builtin i b.action call.inputs env).1.err := by
  unfold runBuiltinStep ActionTold
  cases h : resolveInputs host i step.id withSecrets exprs b.inputs with
  | error => exact quotes_failed_iff (quotes_resolveInputs h)
  | ok call =>
    dsimp only
    by_cases hunknown : b.action ∉ builtinRegistry
    · simp only [if_pos hunknown]
      refine iff_of_false (not_quotes_of_plain rfl rfl) ?_
      rintro ⟨e, he, -⟩
      cases he
    · simp only [if_neg hunknown]
      exact quotes_settleAction_iff

theorem quotes_runScriptStep_iff {env exprs} :
    Quotes (runScriptStep host jobRunID st i step env exprs) reason ↔ ScriptTold host i step reason env exprs := by
  unfold runScriptStep ScriptTold
  dsimp only
  generalize (if hasExpression (ofString step.run.script) then interpolate (ofString step.run.script) exprs
    else .ok (ofString step.run.script)) = script
  cases script with
  | error err => exact quotes_failed_iff rfl
  | ok script =>
    dsimp only
    cases renderEnv exprs env (entriesIn (host.orders i) (ownEnv step)) with
    | error e =>
      refine (quotes_failed_iff rfl).trans ⟨fun h => ⟨_, _, rfl, h⟩, ?_⟩
      rintro ⟨k, err, he, hreason⟩
      rwa [Except.error.inj he]
    | ok env =>
      refine iff_of_false ?_ ?_
      · rw [quotes_settle_iff]
        rintro ⟨-, -, -, rfl, hquotes⟩
        cases hquotes
      · rintro ⟨k, err, he, -⟩
        cases he

/-- A step whose files are made ends the job with a quoted error just if it is told of that. -/
theorem quotes_runPrepared_iff :
    Quotes (runPrepared host p jobRunID withSecrets st i step) reason ↔ Told host p withSecrets st i step reason := by
  unfold runPrepared Told
  dsimp only
  cases conditionOf step (exprEnv host p i (stepEnv st step) st.states) with
  | error err => exact quotes_failed_iff rfl
  | ok holds =>
    cases holds with
    | false => exact iff_of_false not_quotes_none not_false
    | true =>
      dsimp only
      cases step.js with
      | some js => exact quotes_runJSStep_iff
      | none =>
        dsimp only
        cases step.composite with
        | true => exact iff_of_false not_quotes_none fun h => nomatch h.1
        | false =>
          refine Iff.trans ?_ (and_iff_right rfl).symm
          cases step.builtin with
          | some b => exact quotes_runBuiltinStep_iff
          | none => exact quotes_runScriptStep_iff

end Told

/-- The run comes to a step that is told the reason. -/
def ToldIn (host : Host) (p : Plan) (jobRunID : JobRunID) (withSecrets : GoMap Bytes Bytes) (reason : Reason) :
    Progress → Nat → List PlanStep → Prop
  | _, _, [] => False
  | st, i, step :: rest =>
    (host.done i = false ∧ host.prepareErr i = none ∧
      Told host p withSecrets { st with env := withStepFiles host i st.env } i step reason) ∨
    ∃ st', runStep host p jobRunID withSecrets st i step = (st', none) ∧
      ToldIn host p jobRunID withSecrets reason st' (i + 1) rest

section ToldIn

variable {withSecrets : GoMap Bytes Bytes} {st : Progress} {i : Nat} {step : PlanStep} {reason : Reason}

theorem quotes_runStep_iff : Quotes (runStep host p jobRunID withSecrets st i step) reason ↔
      host.done i = false ∧ host.prepareErr i = none ∧
        Told host p withSecrets { st with env := withStepFiles host i st.env } i step reason := by
  unfold runStep
  cases host.done i with
  | true => exact iff_of_false (not_quotes_of_plain rfl rfl) fun h => nomatch h.1
  | false =>
    cases host.prepareErr i with
    | some err => exact iff_of_false (fun h => nomatch (quotes_some_iff.mp h).1) fun h => nomatch h.2.1
    | none => exact quotes_runPrepared_iff.trans (by simp only [true_and])

theorem quotes_runSteps_iff {rest} : Quotes (runSteps host p jobRunID withSecrets st i rest) reason ↔
      ToldIn host p jobRunID withSecrets reason st i rest := by
  induction rest generalizing st i with
  | nil => exact iff_of_false not_quotes_none not_false
  | cons step rest ih =>
    unfold runSteps ToldIn
    rw [← quotes_runStep_iff]
    cases runStep host p jobRunID withSecrets st i step with
    | mk st' halt =>
      cases halt with
      | some halt => exact (or_iff_left (by rintro ⟨_, h, -⟩; cases h)).symm
      | none =>
        dsimp only
        rw [ih, or_iff_right not_quotes_none]
        simp

end ToldIn

/-- The run is told the reason: by the environment of the job, or at a step that it comes to. -/
def ToldTo (host : Host) (p : Plan) (jobRunID : JobRunID) (reason : Reason) : Prop :=
  match jobEnv host p with
  | .error (k, err) => reason = .jobEnv k err
  | .ok env =>
    ∃ secrets, fetch host p = .ok secrets ∧ host.mkdirErr = none ∧
      ToldIn host p jobRunID (deliver secrets env p.secretRefs).withSecrets reason
        (deliver secrets env p.secretRefs).start 0 p.steps

/-- A run ends for a reason that quotes an error just if it is told of that. -/
theorem reason_run_iff {reason} :
    (run host p jobRunID).reason = some reason ∧ reason.quotes ↔ ToldTo host p jobRunID reason := by
  unfold run ToldTo jobEnv
  dsimp only
  cases renderEnv _ (baseEnv host p) (entriesIn host.jobOrder (baseEnv host p)) with
  | error e =>
    refine ⟨fun h => (Option.some.inj h.1).symm, ?_⟩
    rintro rfl
    exact ⟨rfl, rfl⟩
  | ok env =>
    cases hfetch : fetch host p with
    | error err => exact iff_of_false nofun nofun
    | ok secrets =>
      dsimp only
      cases host.mkdirErr with
      | some err => exact iff_of_false nofun nofun
      | none =>
        have hfinish : ∀ out : Progress × Option Halt,
            (finish host p jobRunID out.1 out.2).reason = some reason ∧ reason.quotes ↔ Quotes out reason := by
          rintro ⟨st, halt⟩
          match halt with
          | none => exact iff_of_false nofun not_quotes_none
          | some (.failed _ _) | some (.cancelled _) | some (.unprepared _) =>
            rw [quotes_some_iff]
            rfl
        rw [hfinish, quotes_runSteps_iff]
        simp

theorem letter_notMem_ofInt (n : Int) : byte 'Q' ∉ Bytes.ofInt n := by
  have hnat : byte 'Q' ∉ Bytes.ofNat n.natAbs := by
    intro hmem
    have hdigit := Bytes.isDigit_of_mem_ofNat hmem
    revert hdigit
    decide
  unfold Bytes.ofInt
  split_ifs
  · rw [List.mem_cons, not_or]
    exact ⟨by decide, hnat⟩
  · exact hnat

/-- A host that delivers the secret `Q` and whose scripts fail. -/
def failingHost : Host :=
  { Host.quiet with
    fetchSecrets := fun _ => .ok ((∅ : GoMap Bytes Bytes).insert (ofString "repository/S") (ofString "Q"))
    script := fun _ _ _ => (.ran [] (.exited 1), .none) }

/-- One script that fails, and one secret. -/
def failingPlan : Plan := planOf [scriptStep "s" "false"] [⟨"repository", "S", ofString "S"⟩]

/-- A JavaScript step and a builtin step, each with a secret as its input `token`. -/
def tokenPlan : Plan :=
  planOf
    [{ scriptStep "s" "" with
        js := some ⟨"actions/github-script", "", "", "", "throw core.getInput('token')", ∅⟩
        continueOnError := true },
      { scriptStep "c" "" with
        builtin := some ⟨"actions/checkout", "", (∅ : GoMap String String).insert "repository" "o/n"⟩ }]
    [⟨"repository", "S", ofString "$with:s:token"⟩, ⟨"repository", "S", ofString "$with:c:token"⟩]

/-- A host with a token, on which JavaScript throws its input and git cannot fetch. -/
def tokenHost : Host :=
  { Host.quiet with
    fetchSecrets := fun _ => .ok ((∅ : GoMap Bytes Bytes).insert (ofString "repository/S") (ofString "hunter2"))
    interpreter := fun _ _ inputs => ⟨some ⟨(inputs.lookup (ofString "token")).getD [], false⟩, [], []⟩
    builtin := fun _ _ inputs _ =>
      (⟨checkoutHandler
          { mkdirErr := none
            hasGit := true
            git := fun _ _ => some (⟨ofString "exit status 128", false⟩, ofString "fatal") } inputs, [], []⟩, .none) }

end Forgelet.Executor
