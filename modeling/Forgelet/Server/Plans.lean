import Forgelet.Run.Plan
import Forgelet.Server.WorkflowSource

/-!
# Building plans

`buildPlan` and its helpers (`internal/server/server.go`, `ParseUses` of `internal/provider/github`): the
conversion of a compiled job instance into an executor plan. Maps are read in the order of their entries.
-/

namespace Forgelet

open Bytes (ofString)
open Compiler (JobInstance)

namespace Server

/-- `secretRefName` recognizes a value that is one secret placeholder. -/
def secretRefName (v : String) : Option String :=
  let v := GoString.trimSpace v
  if !GoString.hasPrefix v "$\x7b\x7b secrets." || !GoString.hasSuffix v "\x7d\x7d" then none
  else
    let name := GoString.trimSpace
      (GoString.trimSuffix (GoString.trimPrefix v "$\x7b\x7b secrets.") "\x7d\x7d")
    if name = "" then none else some name

/-- The loops over `env` and `with`: a secret placeholder becomes a reference. -/
def splitSecrets (envName : String → Bytes) (kept : GoMap String String) (refs : List SecretRef) :
    List ((_ : String) × String) → GoMap String String × List SecretRef
  | [] => (kept, refs)
  | ⟨k, v⟩ :: rest =>
    match secretRefName v with
    | some name =>
      splitSecrets envName kept
        (refs ++ [{ scope := "repository", name := name, env := envName k }]) rest
    | none => splitSecrets envName (kept.insert k v) refs rest

/-- The variable of a secret in the `with` of a step. -/
def withName (id : Bytes) (k : String) : Bytes :=
  ofString "$with:" ++ id ++ ofString (":" ++ k)

/-- `truncate`, which counts bytes. -/
def truncate (s : Bytes) (n : Nat) : Bytes := s.take n

/-- What follows the first slash, or the whole text. -/
def afterSlash (s : String) : String :=
  match GoString.cut s '/' with
  | some (_, base) => base
  | none => s

/-- The name of a step without one: its action, or the first word of its script. -/
def stDisplayName (st : Compiler.Step) : Option Bytes :=
  if st.name ≠ "" then some (ofString st.name)
  else match st.uses with
    | some call => some (ofString (afterSlash call.action))
    | none =>
      if st.rawUses ≠ "" then
        match GoString.cut st.rawUses '/' with
        | some (_, base) =>
          match GoString.cutLast base '@' with
          | some (base, _) => some (ofString base)
          | none => some (ofString base)
        | none => some (ofString st.rawUses)
      else (GoString.fields st.run).head?.map fun word => truncate (ofString word) 24

/-- The parts of a `uses` reference to a repository. -/
structure ActionRef where
  owner : String
  repo : String
  path : String
  ref : String
deriving DecidableEq

/-- `github.ParseUses`; `none` is an error. -/
def parseUses (uses : String) : Option ActionRef :=
  match GoString.cutLast (GoString.trimSpace uses) '@' with
  | none => none
  | some (repoPart, ref) =>
    if ref = "" then none
    else match GoString.split repoPart '/' with
      | owner :: repo :: path =>
        if owner = "" ∨ repo = "" then none
        else some { owner := owner, repo := repo, path := GoString.join "/" path, ref := ref }
      | _ => none

/-- The substitution of `inputs` in a script, one input after the other. -/
def substScript (script : String) (inputs : GoMap String String) : String :=
  inputs.entries.foldl (fun script e =>
    GoString.replaceAll
      (GoString.replaceAll script ("$\x7b\x7b inputs." ++ e.1 ++ " \x7d\x7d") e.2)
      ("$\x7b\x7binputs." ++ e.1 ++ "\x7d\x7d") e.2) script

/-- The substitution of `inputs` in a `with` value. -/
def substInput (v : String) (inputs : GoMap String String) : String :=
  inputs.entries.foldl (fun v e =>
    GoString.replaceAll v ("$\x7b\x7b inputs." ++ e.1 ++ " \x7d\x7d") e.2) v

/-- A plan step that does nothing yet. -/
def emptyStep (id : Bytes) (name : String) : PlanStep where
  id := id
  name := name
  cond := ""
  run := { script := "", env := none }
  builtin := none
  js := none
  continueOnError := false

/-- One step of a composite action, the `i`-th. -/
def compositeStep (inputs : GoMap String String) (outerID : Bytes) (i : Nat)
    (cs : CompositeActionStep) : PlanStep :=
  let ps := emptyStep (outerID ++ ofString "-" ++ Bytes.ofNat i) cs.name
  if cs.run ≠ "" then { ps with run := { script := substScript cs.run inputs, env := none } }
  else if cs.uses ≠ "" then
    { ps with
      js := some
        { repo := cs.uses
          ref := ""
          path := ""
          main := ""
          script := ""
          inputs := cs.inputs.entries.foldl (fun m e => m.insert e.1 (substInput e.2 inputs)) ∅ } }
  else ps

/-- The steps of a composite action. -/
def expandComposite (steps : List CompositeActionStep) (inputs : GoMap String String)
    (outerID : Bytes) : List PlanStep :=
  steps.zipIdx.map fun e => compositeStep inputs outerID e.2 e.1

/-- The JavaScript action as the executor loads it. -/
def jsStep (action : ActionRef) (main : String) (inputs : GoMap String String) : JSStep where
  repo := action.owner ++ "/" ++ action.repo
  ref := action.ref
  path := action.path
  main := main
  script := (inputs.lookup "script").getD ""
  inputs := inputs

/-- An action that is no builtin: a composite one is expanded, others are JavaScript. -/
def actionSteps (src : WorkflowSource) (ps : PlanStep) (action : ActionRef)
    (inputs : GoMap String String) : List PlanStep :=
  let fallback := [{ ps with js := some (jsStep action "" inputs) }]
  match src.actionFetcher with
  | none => fallback
  | some fetch =>
    match fetch action.owner action.repo action.ref action.path with
    | .error _ => fallback
    | .ok info =>
      if GoString.hasPrefix info.runsUsing "composite" then expandComposite info.steps inputs ps.id
      else if GoString.hasPrefix info.runsUsing "node" then
        [{ ps with js := some (jsStep action info.main inputs) }]
      else fallback

/-- The body of the loop of `buildPlan`, with the references so far. -/
def planStep (src : WorkflowSource) (refs : List SecretRef) (st : Compiler.Step) (id : Bytes) :
    List PlanStep × List SecretRef :=
  let ps : PlanStep :=
    { emptyStep id st.name with cond := st.cond, continueOnError := st.continueOnError }
  match st.uses with
  | some call =>
    let (inputs, refs) := splitSecrets (withName id) ∅ refs call.inputs.entries
    ([{ ps with
        builtin := some { action := call.action, version := call.version, inputs := inputs } }], refs)
  | none =>
    if st.rawUses ≠ "" then
      let action := (parseUses st.rawUses).getD
        { owner := "", repo := st.rawUses, path := "", ref := "main" }
      let (inputs, refs) := splitSecrets (withName id) ∅ refs st.rawWith.entries
      (actionSteps src ps action inputs, refs)
    else ([{ ps with run := { script := st.run, env := st.env } }], refs)

/-- The loop of `buildPlan` over the steps. -/
def planSteps (src : WorkflowSource) (steps : List PlanStep) (refs : List SecretRef) :
    List Compiler.Step → Except Err (List PlanStep × List SecretRef)
  | [] => .ok (steps, refs)
  | st :: rest =>
    match stDisplayName st with
    | none => .error (.errorf "runtime error: index out of range [0] with length 0")
    | some id =>
      let (made, refs) := planStep src refs st id
      planSteps src (steps ++ made) refs rest

/-- `buildPlan` converts a compiled job instance into an executor plan. -/
def buildPlan (src : WorkflowSource) (rec : JobRunRecord) (ev : Event) (inst : JobInstance) :
    Except Err Plan :=
  let (env, refs) := splitSecrets ofString ∅ [] inst.env.entries
  match planSteps src [] refs inst.steps with
  | .error err => .error err
  | .ok (steps, refs) =>
    .ok
      { jobRunID := rec.id
        repository := ev.repository
        eventName := ev.name
        actor := ev.actor
        sha := ev.sha
        ref := ev.ref
        runnerClass := inst.runnerClass
        env := env
        steps := steps
        secretRefs := refs }

end Server

end Forgelet
