import Forgelet.Workflow.Compiler

/-!
# The workflow source

`workflowSource` (`internal/server/server.go`): the workflow files of a repository, and the job instances of those that
an event triggers. What it reads from outside is given as functions: the directory, the fetchers, the base branch in a
payload, and the parser; nothing here depends on what that accepts.
-/

namespace Forgelet

open Compiler (Compiled JobInstance)

/-- A file of the workflow directory. -/
structure WorkflowFile where
  name : String
  data : Bytes
deriving DecidableEq

/-- `CompositeActionStep`, one step of a composite action. -/
structure CompositeActionStep where
  name : String
  run : String
  uses : String
  inputs : GoMap String String
deriving DecidableEq

/-- `ActionMeta`, the metadata of an action. -/
structure ActionMeta where
  runsUsing : String
  main : String
  steps : List CompositeActionStep
deriving DecidableEq

/-- `readDir` lists a directory, `actionFetcher` gets owner, repository, ref and path, and `baseRef` is
`pull_request.base.ref`. -/
structure WorkflowSource where
  dir : String
  readDir : String → Except Err (List WorkflowFile)
  fetcher : Option (RepositoryRef → String → Except Err (List WorkflowFile))
  actionFetcher : Option (String → String → String → String → Except Err ActionMeta)
  parse : String → Bytes → Except Err Syntax.Workflow
  baseRef : Payload → String

/-- What the store is told about a job. -/
def intentFor (j : JobInstance) : JobIntent where
  jobKey := j.key
  runnerClass := j.runnerClass
  dependsOn := j.dependsOn
  matrix := j.matrix
  planDigest := ""
  condition := j.cond

namespace WorkflowSource

variable (src : WorkflowSource)

/-- The files of a directory, by name. -/
def readDirSorted (dir : String) : Except Err (List WorkflowFile) :=
  (src.readDir dir).map fun files => files.insertionSort fun a b => a.name ≤ b.name

/-- The workflow files of a directory. -/
def listYAML (dir : String) : Except Err (List WorkflowFile) :=
  if dir = "" then .error (.errorf "workflows dir not configured")
  else (src.readDirSorted dir).map fun files =>
    files.filter fun f => GoString.hasSuffix f.name ".yml" || GoString.hasSuffix f.name ".yaml"

/-- The workflow files, fetched or from the directory. -/
def load (repo : RepositoryRef) (ref : String) : Except Err (List WorkflowFile) :=
  match src.fetcher with
  | some fetch => fetch repo ref
  | none => src.listYAML src.dir

/-- Whether the event starts the workflow. -/
def triggers (ev : Event) (payload : Payload) (c : Compiled) : Bool :=
  if ev.name = "push" then c.matchesPush ev.ref
  else if ev.name = "pull_request" then c.matchesPullRequest (src.baseRef payload)
  else if ev.name = "schedule" then !c.schedule.isEmpty
  else false

/-- The loop of `matchedJobs` over the files. -/
def matchFiles (ev : Event) (payload : Payload) (out : List JobInstance) :
    List WorkflowFile → Except Err (List JobInstance)
  | [] => .ok out
  | f :: rest =>
    match src.parse f.name f.data with
    | .error err => .error (.wrap "workflow source: " err "")
    | .ok wf =>
      match Compiler.compile wf with
      | .error err => .error (.wrap "workflow source: " err "")
      | .ok c =>
        matchFiles ev payload (if src.triggers ev payload c then out ++ c.jobs else out) rest

/-- The ref to load the workflows from. -/
def refOf (ev : Event) : String := if ev.name = "schedule" then ev.ref else ev.sha

/-- `matchedJobs`: the job instances of all the files the event triggers. -/
def matchedJobs (ev : Event) (payload : Payload) : Except Err (List JobInstance) :=
  if ev.name ≠ "push" ∧ ev.name ≠ "pull_request" ∧ ev.name ≠ "schedule" then .ok []
  else
    match src.load ev.repository (refOf ev) with
    | .error err => .error (.wrap "workflow source: " err "")
    | .ok files => src.matchFiles ev payload [] files

/-- `Compile` implements `scheduler.Compiler`. -/
def compile (ev : Event) (payload : Payload) : Except Err (List JobIntent) :=
  match src.matchedJobs ev payload with
  | .error err => .error err
  | .ok jobs => .ok (jobs.map intentFor)

end WorkflowSource

end Forgelet
