import Forgelet.Lib.Glob
import Forgelet.Scheduler.Port
import Forgelet.Workflow.Syntax

/-!
# The workflow compiler

`internal/workflow/compiler`: validation, the order of the jobs by their `needs`, the builtin actions
and the expansion of matrices into job instances.
-/

namespace Forgelet.Compiler

open GoString (quote)
open Syntax

/-- A compiled `uses:` reference to a builtin. -/
structure BuiltinCall where
  action : String
  version : String
  inputs : GoMap String String
deriving DecidableEq

/-- A step; `uses` is set for builtins, `rawUses` and `rawWith` for other actions. -/
structure Step where
  name : String
  cond : String
  run : String
  uses : Option BuiltinCall
  rawUses : String
  rawWith : GoMap String String
  continueOnError : Bool
  env : Option (GoMap String String)
deriving DecidableEq

/-- One executable job; `matrix` is `none` for a job without a matrix. -/
structure JobInstance where
  key : String
  displayName : String
  runnerClass : String
  cond : String
  dependsOn : List String
  matrix : Option (GoMap String String)
  env : GoMap String String
  steps : List Step
deriving DecidableEq

/-- A warning about a step. -/
structure Warning where
  job : String
  step : Nat
  msg : String
deriving DecidableEq

/-- What `Compile` returns. -/
structure Compiled where
  name : String
  jobs : List JobInstance
  warnings : List Warning
  push : Option PushTrigger
  pr : Option PushTrigger
  schedule : List String
deriving DecidableEq

/-- `Registry`: the builtin actions and the inputs they support. -/
def registry : List (String × List String) :=
  [("actions/checkout", ["repository", "ref", "token", "fetch-depth", "persist-credentials"]),
    ("actions/cache", ["key", "restore-keys", "path"]),
    ("actions/upload-artifact", ["name", "path", "retention-days"]),
    ("actions/download-artifact", ["name", "path"])]

/-- The builtin actions, sorted. -/
def registryNames : List String := (registry.map (·.1)).insertionSort (· ≤ ·)

/-- The bytes of a name. -/
def bytes (s : String) : List UInt8 := s.toList.flatMap String.utf8EncodeChar

/-- The rest of a row of the edit distances, from those to the left and above. -/
def distanceRow (c : UInt8) (left diag : Nat) : List UInt8 → List Nat → List Nat
  | d :: b, above :: prev =>
    let cost := if c = d then 0 else 1
    let cur := min (min (above + 1) (left + 1)) (diag + cost)
    cur :: distanceRow c cur above b prev
  | _, _ => []

/-- One iteration of the outer loop of `editDistance`. -/
def nextRow (b : List UInt8) (prev : List Nat) (i : Nat) (c : UInt8) : List Nat :=
  i :: distanceRow c i (prev.headD 0) b prev.tail

/-- The outer loop of `editDistance`. -/
def distanceRows (b : List UInt8) (prev : List Nat) (i : Nat) : List UInt8 → List Nat
  | [] => prev
  | c :: a => distanceRows b (nextRow b prev i c) (i + 1) a

/-- The edit distance of two names, computed row by row. -/
def editDistance (a b : List UInt8) : Nat :=
  (distanceRows b (List.range (b.length + 1)) 1 a).getLastD 0

/-- `nearest`: the registry entry within edit distance 2, if any. -/
def nearest (s : String) : String :=
  (registry.foldl (fun (best : String × Nat) entry =>
    let d := editDistance (bytes (GoString.toLower s)) (bytes entry.1)
    if d < best.2 then (entry.1, d) else best) ("", 3)).1

/-- `parseUses` splits `owner/repo@ref` into registry key and version. -/
def parseUses (uses : String) : Except Err (String × String) :=
  match GoString.cut (GoString.trimSpace uses) '@' with
  | none => .error (.errorf ("uses " ++ quote uses ++ " must be <owner>/<repo>@<ref>"))
  | some (action, version) =>
    if action = "" ∨ version = "" then
      .error (.errorf ("uses " ++ quote uses ++ " must be <owner>/<repo>@<ref>"))
    else if (registry.lookup action).isNone then
      if nearest action ≠ "" then
        .error (.errorf ("action " ++ quote uses ++
          " is not a forgelet builtin; did you mean " ++ quote (nearest action) ++ "?"))
      else
        .error (.errorf ("action " ++ quote uses ++
          " is not a forgelet builtin (available: " ++ GoString.join ", " registryNames ++ ")"))
    else .ok (action, version)

/-- The loop of `compileBuiltin`; the last unsupported input is warned about. -/
def compileInputs (jobID : String) (idx : Nat) (action : String) (supported : List String)
    (inputs : GoMap String String) (warn : Option Warning) :
    List ((_ : String) × String) → GoMap String String × Option Warning
  | [] => (inputs, warn)
  | ⟨k, v⟩ :: rest =>
    if k ∈ supported then
      compileInputs jobID idx action supported (inputs.insert k v) warn rest
    else
      compileInputs jobID idx action supported inputs
        (some { job := jobID, step := idx,
                msg := "input " ++ quote k ++ " is not supported by " ++ action }) rest

/-- `compileBuiltin` resolves a `uses` step against the registry. -/
def compileBuiltin (jobID : String) (idx : Nat) (st : Syntax.Step) :
    Except Err (BuiltinCall × Option Warning) :=
  match parseUses st.uses with
  | .error err => .error err
  | .ok (action, version) =>
    let supported := (registry.lookup action).getD []
    let (inputs, warn) := compileInputs jobID idx action supported ∅ none st.inputs.entries
    .ok ({ action := action, version := version, inputs := inputs }, warn)

/-- The marks of the depth-first search. -/
inductive Mark
  | unvisited
  | visiting
  | done
deriving DecidableEq, Repr

/-- The variables of the search: the marks and the jobs in order. -/
structure Topo where
  state : GoMap String Mark
  out : List Job
deriving DecidableEq

/-- `state[id]`. -/
def Topo.mark (st : Topo) (id : String) : Mark := (st.state.lookup id).getD .unvisited

/-- `state[id] = m`. -/
def Topo.setMark (st : Topo) (id : String) (m : Mark) : Topo :=
  { st with state := st.state.insert id m }

/-- The loop of `visit` over the needs of a job. -/
def visitNeeds (byID : GoMap String Job) (visit : Topo → Job → Except Err Topo) (st : Topo) :
    List String → Except Err Topo
  | [] => .ok st
  | dep :: rest =>
    match byID.lookup dep with
    | none => .error .nilPointerPanic
    | some j =>
      match visit st j with
      | .error err => .error err
      | .ok st => visitNeeds byID visit st rest

/-- The error of a fuel that was too small; `topoSort` never returns it. -/
def outOfFuel : Err := .errorf "topoSort: out of fuel"

/-- `visit`; the number of jobs bounds its depth. -/
def visit (byID : GoMap String Job) : Nat → Topo → Job → Except Err Topo
  | 0, _, _ => .error outOfFuel
  | fuel + 1, st, j =>
    match st.mark j.id with
    | .done => .ok st
    | .visiting => .error (.errorf ("compile: needs cycle through job " ++ quote j.id))
    | .unvisited =>
      match visitNeeds byID (visit byID fuel) (st.setMark j.id .visiting) j.needs with
      | .error err => .error err
      | .ok st => .ok { st.setMark j.id .done with out := st.out ++ [j] }

/-- The loop of `topoSort` over the jobs in document order. -/
def visitAll (byID : GoMap String Job) (fuel : Nat) (st : Topo) : List Job → Except Err Topo
  | [] => .ok st
  | j :: rest =>
    match visit byID fuel st j with
    | .error err => .error err
    | .ok st => visitAll byID fuel st rest

/-- The jobs by id, which may not repeat. -/
def indexJobs (byID : GoMap String Job) : List Job → Except Err (GoMap String Job)
  | [] => .ok byID
  | j :: rest =>
    if (byID.lookup j.id).isSome then
      .error (.errorf ("compile: duplicate job " ++ quote j.id))
    else indexJobs (byID.insert j.id j) rest

/-- The first reference to a job that does not exist. -/
def unknownNeed (byID : GoMap String Job) (jobs : List Job) : Option (Job × String) :=
  jobs.findSome? fun j => (j.needs.find? fun dep => (byID.lookup dep).isNone).map (j, ·)

/-- `topoSort` orders the jobs so that dependencies come first. -/
def topoSort (jobs : List Job) : Except Err (List Job) :=
  match indexJobs ∅ jobs with
  | .error err => .error err
  | .ok byID =>
    match unknownNeed byID jobs with
    | some (j, dep) =>
      .error (.errorf ("compile: job " ++ quote j.id ++ " needs unknown job " ++
        quote dep))
    | none =>
      match visitAll byID (jobs.length + 1) { state := ∅, out := [] } jobs with
      | .error err => .error err
      | .ok st => .ok st.out

/-- The combinations of the axes, as lists of `axis=value` in the order of the axes. -/
def combos (matrix : GoMap String (List String)) (acc : List (List String)) :
    List String → List (List String)
  | [] => acc
  | axis :: rest =>
    combos matrix
      (acc.flatMap fun combo =>
        ((matrix.lookup axis).getD []).map fun value => combo ++ [axis ++ "=" ++ value]) rest

/-- The axis and the value of a part, split at its first `=`. -/
def splitPart (part : String) : String × String := (GoString.cut part '=').getD (part, "")

/-- The instance of a job for one combination. -/
def instanceOf (job : Job) (inst : JobInstance) (combo : List String) : JobInstance :=
  let pairs := combo.map splitPart
  let parts := pairs.map (·.2)
  { inst with
    matrix := some (pairs.foldl (fun m p => m.insert p.1 p.2) ∅)
    key := job.id ++ "[" ++ GoString.join "," parts ++ "]"
    displayName := inst.displayName ++ " (" ++ GoString.join ", " parts ++ ")" }

/-- `expandMatrix` produces one instance per combination of the axes. -/
def expandMatrix (job : Job) (inst : JobInstance) : Except Err (List JobInstance) :=
  if job.matrix.entries.isEmpty then .ok [{ inst with matrix := none }]
  else
    match job.matrix.entries.find? (·.2.isEmpty) with
    | some axis =>
      .error (.errorf ("compile: job " ++ quote job.id ++ " matrix axis " ++
        quote axis.1 ++ " has no values"))
    | none =>
      let axes := job.matrix.keys.insertionSort (· ≤ ·)
      .ok ((combos job.matrix [[]] axes).map (instanceOf job inst))

/-- The name of a job, or its id. -/
def displayName (job : Job) : String := if job.name ≠ "" then job.name else job.id

/-- A step that runs a script. -/
def runStep (st : Syntax.Step) : Step where
  name := st.name
  cond := st.cond
  run := st.run
  uses := none
  rawUses := ""
  rawWith := ∅
  continueOnError := st.continueOnError
  env := st.env

/-- The loop of `Compile` over steps. The two kinds of error are told apart by their text. -/
def compileSteps (file : String) (job : Job) (warnings : List Warning) (steps : List Step) (i : Nat) :
    List Syntax.Step → Except Err (List Step × List Warning)
  | [] => .ok (steps, warnings)
  | st :: rest =>
    let located := "compile " ++ file ++ ": job " ++ quote job.id ++ " step " ++ toString i
    if GoString.trimSpace st.run = "" ∧ st.uses = "" then .error (.errorf (located ++ ": empty run"))
    else if st.uses ≠ "" then
      match compileBuiltin job.id i st with
      | .error err =>
        if GoString.contains err.text "did you mean" then .error (.wrap (located ++ ": ") err "")
        else if GoString.contains err.text "not a forgelet builtin" then
          compileSteps file job warnings
            (steps ++ [{ runStep st with run := "", rawUses := st.uses, rawWith := st.inputs }])
            (i + 1) rest
        else .error (.wrap (located ++ ": ") err "")
      | .ok (call, warn) =>
        compileSteps file job (warnings ++ warn.toList)
          (steps ++ [{ runStep st with run := "", uses := some call }]) (i + 1) rest
    else compileSteps file job warnings (steps ++ [runStep st]) (i + 1) rest

/-- The body of the loop of `Compile` over the ordered jobs. -/
def compileJob (file : String) (warnings : List Warning) (job : Job) :
    Except Err (List JobInstance × List Warning) :=
  let located := "compile " ++ file ++ ": job " ++ quote job.id
  if GoString.trimSpace job.runsOn = "" then .error (.errorf (located ++ ": empty runs-on"))
  else if job.steps.isEmpty then .error (.errorf (located ++ ": no steps"))
  else
    match compileSteps file job warnings [] 0 job.steps with
    | .error err => .error err
    | .ok (steps, warnings) =>
      let inst : JobInstance :=
        { key := job.id
          displayName := displayName job
          runnerClass := job.runsOn
          cond := job.cond
          dependsOn := job.needs
          matrix := none
          env := job.env.getD ∅
          steps := steps }
      match expandMatrix job inst with
      | .error err => .error (.wrap ("compile " ++ file ++ ": ") err "")
      | .ok expanded => .ok (expanded, warnings)

/-- The loop of `Compile` over the ordered jobs. -/
def compileJobs (file : String) (jobs : List JobInstance) (warnings : List Warning) :
    List Job → Except Err (List JobInstance × List Warning)
  | [] => .ok (jobs, warnings)
  | job :: rest =>
    match compileJob file warnings job with
    | .error err => .error err
    | .ok (expanded, warnings) => compileJobs file (jobs ++ expanded) warnings rest

/-- `Compile`. -/
def compile (wf : Workflow) : Except Err Compiled :=
  if wf.jobs.isEmpty then .error (.errorf ("compile " ++ wf.file ++ ": no jobs"))
  else
    match topoSort wf.jobs with
    | .error err => .error (.wrap ("compile " ++ wf.file ++ ": ") err "")
    | .ok ordered =>
      match compileJobs wf.file [] [] ordered with
      | .error err => .error err
      | .ok (jobs, warnings) =>
        .ok { name := wf.name, jobs := jobs, warnings := warnings, push := wf.on.push,
              pr := wf.on.pullRequest, schedule := wf.on.schedule }

/-- `matchGlob`: malformed patterns never match. -/
def matchGlob (pattern s : String) : Bool :=
  match Glob.pathMatch pattern s with
  | .error _ => false
  | .ok matched => matched

/-- The patterns, and those with an exclamation mark. -/
def splitExclusions (patterns : List String) : List String × List String :=
  (patterns.filter fun p => !GoString.hasPrefix p "!",
    (patterns.filter fun p => GoString.hasPrefix p "!").map fun p => GoString.trimPrefix p "!")

/-- Whether the trigger fires for the branch. -/
def matchesFilters (trigger : PushTrigger) (branch : String) : Bool :=
  if trigger.branchesIgnore.any (matchGlob · branch) then false
  else
    let (incl, excl) := splitExclusions trigger.branches
    if excl.any (matchGlob · branch) then false
    else if incl.isEmpty then true
    else incl.any (matchGlob · branch)

/-- Whether a push to `ref` starts the workflow. -/
def Compiled.matchesPush (c : Compiled) (ref : String) : Bool :=
  match c.push with
  | none => false
  | some trigger => matchesFilters trigger (trimRefPrefix ref)

/-- Whether a pull request to `baseRef` starts the workflow. -/
def Compiled.matchesPullRequest (c : Compiled) (baseRef : String) : Bool :=
  match c.pr with
  | none => false
  | some trigger => matchesFilters trigger (trimRefPrefix baseRef)

end Forgelet.Compiler
