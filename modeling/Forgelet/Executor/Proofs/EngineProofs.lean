import Forgelet.Executor.Engine

/-!
# Proofs: what a step does

A step adds records, entries and calls to a run and takes nothing away. What it adds, and the reason for which it ends
the job, is said once for every kind of step and carried over the loop.
-/

namespace Forgelet.Executor

open Bytes (ofString byte)

theorem Masker.subset_add (m : Masker) (v : Bytes) : m.vals ⊆ (m.add v).vals := by
  unfold Masker.add
  split_ifs
  · exact List.Subset.refl _
  · exact List.Subset.refl _
  · exact List.subset_append_left ..

theorem Masker.mem_add {m : Masker} {v : Bytes} (hv : v ≠ []) : v ∈ (m.add v).vals := by
  unfold Masker.add
  rw [dif_neg hv]
  split_ifs with hthere
  · exact hthere
  · exact List.mem_append_right _ (List.mem_singleton_self v)

theorem deliver_of_mem {P : Delivery → Prop} {secrets refs ref} (env : GoMap Bytes Bytes) (href : ref ∈ refs)
    (hone : ∀ d, P (deliverOne secrets d ref)) (hkeeps : ∀ d ref', P d → P (deliverOne secrets d ref')) :
    P (deliver secrets env refs) := by
  obtain ⟨before, after, rfl⟩ := List.append_of_mem href
  unfold deliver
  rw [List.foldl_append, List.foldl_cons]
  exact List.foldlRecOn after _ (hone _) fun d hd ref' _ => hkeeps d ref' hd

/-- A step for which a handler, or the interpreter, is called. -/
def IsAction (step : PlanStep) : Prop := step.js ≠ none ∨ step.builtin ≠ none

instance : DecidablePred IsAction := fun step => inferInstanceAs (Decidable (step.js ≠ none ∨ step.builtin ≠ none))

/-- The reasons for which a step ends the job name the step or the action. -/
def Reason.Of (step : PlanStep) : Reason → Prop
  | .jobEnv _ _ => False
  | .noBuiltin name => ∃ b, step.builtin = some b ∧ name = ofString b.action
  | .cancelledBefore id | .cond id _ | .input id _ _ | .cancelled id | .action id _ | .script id _ | .stepEnv id _ _
  | .exited id _ => id = step.id

/-- The reason for which the job ends, if it is reported. -/
def Halt.reason : Halt → Option Reason
  | .failed reason _ => some reason
  | .cancelled reason => some reason
  | .unprepared _ => none

/-- What becomes of a step whose files are prepared: no evaluation, an entry alone, a call or a script. -/
inductive Prepared (host : Host) (withSecrets : GoMap Bytes Bytes) (st : Progress) (i : Nat) (step : PlanStep) :
    Progress × Option Halt → Prop
  | failed {reason} (hreason : reason.Of step) : Prepared host withSecrets st i step (st, some (.failed reason i))
  | entered {sr} (hid : sr.stepID = step.id) : Prepared host withSecrets st i step (st.close ∅ sr, none)
  | action {call run files} (haction : IsAction step)
      (hcall : call.index = i ∧ call.inputs = overlay withSecrets step.id call.plain) :
      Prepared host withSecrets st i step (settleAction host st i step call run files)
  | script {h lines files st' outputs exit err continued}
      (hfold : st' = (foldFiles
        { st with
          masker := (emitLines h st.masker lines).1
          log := st.log ++ (emitLines h st.masker lines).2 } step.id ∅ files).1) :
      Prepared host withSecrets st i step
        (settle st' i step outputs exit (host.durations i) err (.exited step.id exit) continued)

section Prepared

variable {host : Host} {withSecrets : GoMap Bytes Bytes} {i : Nat} {step : PlanStep} {exprs : Expression.Env}
  {inputs : GoMap String String}

theorem resolveInputs_ok {call} (h : resolveInputs host i step.id withSecrets exprs inputs = .ok call) :
    call.index = i ∧ call.inputs = overlay withSecrets step.id call.plain := by
  unfold resolveInputs at h
  split at h
  · cases h
  · rw [← Except.ok.inj h]
    exact ⟨rfl, rfl⟩

theorem resolveInputs_error {reason} (h : resolveInputs host i step.id withSecrets exprs inputs = .error reason) :
    reason.Of step := by
  unfold resolveInputs at h
  split at h
  · rw [← Except.error.inj h]
    exact rfl
  · cases h

theorem runPrepared_prepared (p : Plan) (jobRunID : JobRunID) (st : Progress) :
    Prepared host withSecrets st i step (runPrepared host p jobRunID withSecrets st i step) := by
  unfold runPrepared
  dsimp only
  split
  · exact .failed rfl
  · exact .entered rfl
  · cases hjs : step.js with
    | some js =>
      have haction : IsAction step := .inl (by rw [hjs]; exact Option.some_ne_none js)
      dsimp only
      unfold runJSStep
      cases hcall : resolveInputs host i step.id withSecrets _ js.inputs with
      | error reason => exact .failed (resolveInputs_error hcall)
      | ok call => exact .action haction (resolveInputs_ok hcall)
    | none =>
      split_ifs
      · exact .entered rfl
      · cases hbuiltin : step.builtin with
        | some b =>
          have haction : IsAction step := .inr (by rw [hbuiltin]; exact Option.some_ne_none b)
          dsimp only
          unfold runBuiltinStep
          cases hcall : resolveInputs host i step.id withSecrets _ b.inputs with
          | error reason => exact .failed (resolveInputs_error hcall)
          | ok call =>
            split_ifs
            · exact .action haction (resolveInputs_ok hcall)
            · exact .failed ⟨b, hbuiltin, rfl⟩
        | none =>
          unfold runScriptStep
          dsimp only
          split
          · exact .failed rfl
          · split
            · exact .failed rfl
            · exact .script rfl

end Prepared

/-- From a state of a run to a later one: values stay registered, records are logged with them, and handlers get the
inputs and secrets of their step. -/
structure Moved (withSecrets : GoMap Bytes Bytes) (steps : List (PlanStep × Nat)) (st st' : Progress) : Prop where
  masker : st.masker.vals ⊆ st'.masker.vals
  log : ∃ new, st'.log = st.log ++ new ∧ ∀ l ∈ new, st.masker.vals ⊆ l.masker.vals
  entries : ∃ new, st'.steps = st.steps ++ new ∧ ∀ sr ∈ new, ∃ e ∈ steps, sr.stepID = e.1.id
  calls : ∃ new, st'.calls = st.calls ++ new ∧
    ∀ c ∈ new, ∃ e ∈ steps, IsAction e.1 ∧ c.index = e.2 ∧ c.inputs = overlay withSecrets e.1.id c.plain

namespace Moved

variable {withSecrets : GoMap Bytes Bytes} {steps : List (PlanStep × Nat)} {i : Nat} {step : PlanStep}
  {st st' st'' : Progress}

theorem nothing {α : Type} (l : List α) (P : α → Prop) : ∃ new, l = l ++ new ∧ ∀ x ∈ new, P x :=
  ⟨[], (List.append_nil l).symm, nofun⟩

theorem both {α : Type} {l l' l'' : List α} {P Q : α → Prop} (h : ∃ new, l' = l ++ new ∧ ∀ x ∈ new, P x)
    (h' : ∃ new, l'' = l' ++ new ∧ ∀ x ∈ new, Q x) (hQ : ∀ x, Q x → P x) : ∃ new, l'' = l ++ new ∧ ∀ x ∈ new, P x := by
  obtain ⟨new, rfl, hnew⟩ := h
  obtain ⟨new', rfl, hnew'⟩ := h'
  refine ⟨new ++ new', List.append_assoc .., fun x hx => ?_⟩
  rcases List.mem_append.mp hx with hx | hx
  · exact hnew x hx
  · exact hQ x (hnew' x hx)

theorem refl (st : Progress) : Moved withSecrets steps st st :=
  ⟨List.Subset.refl _, nothing .., nothing .., nothing ..⟩

theorem trans (h : Moved withSecrets steps st st') (h' : Moved withSecrets steps st' st'') :
    Moved withSecrets steps st st'' :=
  ⟨List.Subset.trans h.masker h'.masker, both h.log h'.log fun _ hl => List.Subset.trans h.masker hl,
    both h.entries h'.entries fun _ hx => hx, both h.calls h'.calls fun _ hx => hx⟩

theorem of_eq (hmasker : st'.masker = st.masker) (hlog : st'.log = st.log) (hsteps : st'.steps = st.steps)
    (hcalls : st'.calls = st.calls) : Moved withSecrets steps st st' := by
  refine ⟨?_, ?_, ?_, ?_⟩
  · rw [hmasker]
    exact List.Subset.refl _
  · rw [hlog]
    exact nothing ..
  · rw [hsteps]
    exact nothing ..
  · rw [hcalls]
    exact nothing ..

theorem logAll (st : Progress) (records : List LogRecord) : Moved withSecrets steps st (st.logAll records) := by
  refine ⟨List.Subset.refl _, ⟨_, rfl, fun l hl => ?_⟩, nothing .., nothing ..⟩
  obtain ⟨record, -, rfl⟩ := List.mem_map.mp hl
  exact List.Subset.refl _

theorem entry (hstep : (step, i) ∈ steps) {sr} (hid : sr.stepID = step.id) (hmasker : st'.masker = st.masker)
    (hlog : st'.log = st.log) (hsteps : st'.steps = st.steps ++ [sr]) (hcalls : st'.calls = st.calls) :
    Moved withSecrets steps st st' := by
  refine ⟨?_, ?_, ⟨[sr], hsteps, fun x hx => ?_⟩, ?_⟩
  · rw [hmasker]
    exact List.Subset.refl _
  · rw [hlog]
    exact nothing ..
  · rw [List.mem_singleton.mp hx]
    exact ⟨_, hstep, hid⟩
  · rw [hcalls]
    exact nothing ..

theorem close (hstep : (step, i) ∈ steps) (outputs : GoMap Bytes Bytes) {sr} (hid : sr.stepID = step.id) :
    Moved withSecrets steps st (st.close outputs sr) :=
  entry hstep hid rfl rfl rfl rfl

theorem call (hstep : (step, i) ∈ steps) (haction : IsAction step) {c}
    (hc : c.index = i ∧ c.inputs = overlay withSecrets step.id c.plain) :
    Moved withSecrets steps st { st with calls := st.calls ++ [c] } := by
  refine ⟨List.Subset.refl _, nothing .., nothing .., ⟨[c], rfl, fun x hx => ?_⟩⟩
  rw [List.mem_singleton.mp hx]
  exact ⟨_, hstep, haction, hc⟩

theorem foldFiles (id : Bytes) (outputs : GoMap Bytes Bytes) (files : StepFiles) :
    Moved withSecrets steps st (Executor.foldFiles st id outputs files).1 := by
  have hsplit : ∃ env pathEntries records, (Executor.foldFiles st id outputs files).1 =
      { st with env := env, pathEntries := pathEntries }.logAll records := ⟨_, _, _, rfl⟩
  obtain ⟨env, pathEntries, records, heq⟩ := hsplit
  have hchange : Moved withSecrets steps st { st with env := env, pathEntries := pathEntries } :=
    of_eq rfl rfl rfl rfl
  rw [heq]
  exact hchange.trans (logAll _ records)

theorem settle (hstep : (step, i) ∈ steps) (outputs : GoMap Bytes Bytes) (exit duration : Int) (err : Option StepErr)
    (reason : Reason) (continued : LogRecord) :
    Moved withSecrets steps st (Executor.settle st i step outputs exit duration err reason continued).1 := by
  unfold Executor.settle
  cases err with
  | none => exact close hstep _ rfl
  | some e =>
    dsimp only
    split_ifs
    · exact refl st
    · exact (logAll st _).trans (close hstep _ rfl)
    · exact entry hstep rfl rfl rfl rfl rfl

theorem settleAction (hstep : (step, i) ∈ steps) (haction : IsAction step) {host c run files}
    (hc : c.index = i ∧ c.inputs = overlay withSecrets step.id c.plain) :
    Moved withSecrets steps st (Executor.settleAction host st i step c run files).1 := by
  have hlogged : Moved withSecrets steps st ({ st with calls := st.calls ++ [c] }.logAll run.log) :=
    (call hstep haction hc).trans (logAll _ run.log)
  exact hlogged.trans ((foldFiles step.id (applyKVs ∅ run.outputs) files).trans (settle hstep ..))

theorem emitLines (h : Handler) (m : Masker) (lines : List Bytes) : m.vals ⊆ (Executor.emitLines h m lines).1.vals ∧
      ∀ l ∈ (Executor.emitLines h m lines).2, m.vals ⊆ l.masker.vals := by
  induction lines generalizing m with
  | nil => exact ⟨List.Subset.refl _, fun l hl => (List.not_mem_nil hl).elim⟩
  | cons line rest ih =>
    have hfirst : m.vals ⊆ (emitLine m line).1.vals := by
      unfold emitLine
      cases parseCommand line with
      | none => exact List.Subset.refl _
      | some cmd =>
        dsimp only
        split_ifs
        · exact m.subset_add _
        · exact List.Subset.refl _
    obtain ⟨hrest, hlog⟩ := ih (emitLine m line).1
    refine ⟨List.Subset.trans hfirst hrest, fun l hl => ?_⟩
    rcases List.mem_append.mp hl with hl | hl
    · obtain ⟨record, -, rfl⟩ := List.mem_map.mp hl
      exact hfirst
    · exact List.Subset.trans hfirst (hlog l hl)

theorem output (h : Handler) (lines : List Bytes) : Moved withSecrets steps st
      { st with
        masker := (Executor.emitLines h st.masker lines).1
        log := st.log ++ (Executor.emitLines h st.masker lines).2 } :=
  ⟨(emitLines h st.masker lines).1, ⟨_, rfl, (emitLines h st.masker lines).2⟩, nothing .., nothing ..⟩

theorem prepared (hstep : (step, i) ∈ steps) {host r} (h : Prepared host withSecrets st i step r) :
    Moved withSecrets steps st r.1 := by
  cases h with
  | failed => exact refl st
  | entered hid => exact close hstep _ hid
  | action haction hcall => exact settleAction hstep haction hcall
  | @script h lines files st' outputs exit err continued hfold =>
    have hfiles : Moved withSecrets steps st st' := by
      rw [hfold]
      exact (output h lines).trans (foldFiles step.id ∅ files)
    exact hfiles.trans (settle hstep ..)

theorem runStep (hstep : (step, i) ∈ steps) (host : Host) (p : Plan) (jobRunID : JobRunID) :
    Moved withSecrets steps st (Executor.runStep host p jobRunID withSecrets st i step).1 := by
  unfold Executor.runStep
  split_ifs
  · exact refl st
  · split
    · exact refl st
    · have hfiles : Moved withSecrets steps st { st with env := withStepFiles host i st.env } :=
        of_eq rfl rfl rfl rfl
      exact hfiles.trans (prepared hstep (runPrepared_prepared p jobRunID _))

theorem runSteps (host : Host) (p : Plan) (jobRunID : JobRunID) {rest} (hrest : ∀ e ∈ rest.zipIdx i, e ∈ steps) :
    Moved withSecrets steps st (Executor.runSteps host p jobRunID withSecrets st i rest).1 := by
  induction rest generalizing st i with
  | nil => exact refl st
  | cons step rest ih =>
    rw [List.zipIdx_cons, List.forall_mem_cons] at hrest
    have hstep : Moved withSecrets steps st (Executor.runStep host p jobRunID withSecrets st i step).1 :=
      runStep hrest.1 host p jobRunID
    unfold Executor.runSteps
    cases heq : Executor.runStep host p jobRunID withSecrets st i step with
    | mk st' halt =>
      rw [heq] at hstep
      cases halt with
      | some halt => exact hstep
      | none => exact hstep.trans (ih hrest.2)

end Moved

variable {p : Plan} {jobRunID : JobRunID}

section Reasons

variable {st st' : Progress} {i : Nat} {step : PlanStep} {halt : Halt} {reason : Reason}

theorem settle_reason {outputs exit duration err failure continued}
    (h : (settle st i step outputs exit duration err failure continued).2 = some halt)
    (hreason : halt.reason = some reason) (hfailure : failure.Of step) : reason.Of step := by
  unfold settle at h
  cases err with
  | none => cases h
  | some e =>
    dsimp only at h
    split_ifs at h
    · rw [← Option.some_inj.mp h] at hreason
      rw [← Option.some.inj hreason]
      exact rfl
    · rw [← Option.some.inj h] at hreason
      rw [← Option.some.inj hreason]
      exact hfailure

theorem prepared_reason {host withSecrets r} (h : Prepared host withSecrets st i step r) (hhalt : r.2 = some halt)
    (hreason : halt.reason = some reason) : reason.Of step := by
  cases h with
  | failed hof =>
    rw [← Option.some.inj hhalt] at hreason
    rw [← Option.some.inj hreason]
    exact hof
  | entered => cases hhalt
  | action | script => exact settle_reason hhalt hreason rfl

theorem runStep_reason {host withSecrets} (h : (runStep host p jobRunID withSecrets st i step).2 = some halt)
    (hreason : halt.reason = some reason) : reason.Of step := by
  unfold runStep at h
  split_ifs at h
  · rw [← Option.some.inj h] at hreason
    rw [← Option.some.inj hreason]
    exact rfl
  · split at h
    · rw [← Option.some.inj h] at hreason
      cases hreason
    · exact prepared_reason (runPrepared_prepared p jobRunID _) h hreason

theorem runSteps_reason {host withSecrets rest} (h : (runSteps host p jobRunID withSecrets st i rest).2 = some halt)
    (hreason : halt.reason = some reason) : ∃ step ∈ rest, reason.Of step := by
  induction rest generalizing st i with
  | nil => cases h
  | cons step rest ih =>
    unfold runSteps at h
    cases heq : runStep host p jobRunID withSecrets st i step with
    | mk st' halt' =>
      rw [heq] at h
      cases halt' with
      | some halt' =>
        have hend : (runStep host p jobRunID withSecrets st i step).2 = some halt := by
          rw [heq]
          exact h
        exact ⟨step, (.head _), runStep_reason hend hreason⟩
      | none =>
        obtain ⟨step', hmem, hof⟩ := ih h
        exact ⟨step', .tail _ hmem, hof⟩

end Reasons

/-- A run ends with an error in the environment, or before any step, or runs the steps with the secrets. -/
theorem run_cases (host : Host) (p : Plan) (jobRunID : JobRunID) :
    (∃ k err, run host p jobRunID = reported host (deliver ∅ (baseEnv host p) []).start
      ⟨jobRunID, false, false, [], (Reason.jobEnv k err).text⟩ (some (.jobEnv k err))
      (some (.stepFailed (Reason.jobEnv k err).text))) ∨
    (∃ st result err, run host p jobRunID = unreported st result err ∧ st.log = [] ∧ st.calls = []) ∨
    ∃ secrets env st halt, fetch host p = .ok secrets ∧
      runSteps host p jobRunID (deliver secrets env p.secretRefs).withSecrets (deliver secrets env p.secretRefs).start 0
        p.steps = (st, halt) ∧ run host p jobRunID = finish host p jobRunID st halt := by
  unfold run
  dsimp only
  cases hrender : renderEnv _ (baseEnv host p) (entriesIn host.jobOrder (baseEnv host p)) with
  | error e => exact .inl ⟨e.1, e.2, rfl⟩
  | ok env =>
    cases hfetch : fetch host p with
    | error err => exact .inr (.inl ⟨_, _, _, rfl, rfl, rfl⟩)
    | ok secrets =>
      cases host.mkdirErr with
      | some err => exact .inr (.inl ⟨_, _, _, rfl, rfl, rfl⟩)
      | none => exact .inr (.inr ⟨secrets, env, _, _, rfl, rfl, rfl⟩)

theorem moved_of_runSteps {host secrets env st halt}
    (h : runSteps host p jobRunID (deliver secrets env p.secretRefs).withSecrets
      (deliver secrets env p.secretRefs).start 0 p.steps = (st, halt)) :
    Moved (deliver secrets env p.secretRefs).withSecrets p.steps.zipIdx
      (deliver secrets env p.secretRefs).start st := by
  have hmoved : Moved (deliver secrets env p.secretRefs).withSecrets p.steps.zipIdx
      (deliver secrets env p.secretRefs).start
      (runSteps host p jobRunID (deliver secrets env p.secretRefs).withSecrets
        (deliver secrets env p.secretRefs).start 0 p.steps).1 :=
    Moved.runSteps host p jobRunID fun e he => he
  rw [h] at hmoved
  exact hmoved

theorem finish_calls (host : Host) (p : Plan) (jobRunID : JobRunID) (st : Progress) (halt : Option Halt) :
    (finish host p jobRunID st halt).calls = st.calls := by
  match halt with
  | none => rfl
  | some (.failed _ _) => rfl
  | some (.cancelled _) => rfl
  | some (.unprepared _) => rfl

/-- A step that leaves no files. -/
def StepFiles.none : StepFiles := ⟨[], [], [], []⟩

/-- A host on which nothing happens; it evaluates. -/
def Host.quiet : Host where
  workDir := ofString "/w"
  goos := ofString "linux"
  goarch := ofString "amd64"
  defaultEnv := ∅
  jobHasher _ := .ok []
  jobOrder := MapOrder.written Bytes
  fetchSecrets _ := .ok ∅
  mkdirErr := none
  done _ := false
  prepareErr _ := none
  hashers _ _ := .ok []
  orders _ := MapOrder.written Bytes
  script _ _ _ := (.ran [] (.exited 0), .none)
  builtin _ _ _ _ := (⟨none, [], []⟩, .none)
  interpreter _ _ _ := ⟨none, [], []⟩
  jsFiles _ := .none
  durations _ := 0
  report _ := none

/-- A plan with these steps and references. -/
def planOf (steps : List PlanStep) (refs : List SecretRef) : Plan where
  jobRunID := "j"
  repository := ⟨"github", "o", "n"⟩
  eventName := "push"
  actor := ""
  sha := ""
  ref := ""
  runnerClass := ""
  env := ∅
  steps := steps
  secretRefs := refs

/-- A step of a script alone. -/
def scriptStep (id script : String) : PlanStep where
  id := ofString id
  name := ""
  cond := ""
  run := ⟨script, none⟩
  builtin := none
  js := none
  continueOnError := false

end Forgelet.Executor
