import Forgelet.Scheduler.Schedule
import Forgelet.Server.Server

/-!
# Scheduled workflows

`internal/server/schedule.go`: the lister that the server gives to the cron scheduler, and `ScheduleOnce`
(`server.go`), one tick whose deliveries the server ingests itself.
-/

namespace Forgelet.Server

open Schedule

/-- A repository that is searched for schedules. -/
structure ScheduledRepo where
  owner : String
  name : String
deriving DecidableEq

/-- `repoSchedules`. `defaultBranch` is there if the fetcher is a `DefaultBrancher`. -/
structure RepoSchedules where
  repos : List ScheduledRepo
  src : WorkflowSource
  defaultBranch : Option (RepositoryRef → Except Err String)

namespace RepoSchedules

variable (l : RepoSchedules)

/-- The ref at which the workflows of a repository are read. -/
def refFor (repo : RepositoryRef) : Except Err String :=
  match l.defaultBranch with
  | none => .ok ""
  | some branch =>
    match branch repo with
    | .error err =>
      .error (.wrap ("schedule: resolve " ++ repo.owner ++ "/" ++ repo.name ++ " default branch: ") err "")
    | .ok name => .ok ("refs/heads/" ++ name)

/-- The schedules of a file; one that does not parse has none. -/
def ofFile (repo : RepositoryRef) (ref : String) (f : WorkflowFile) : List ScheduledWorkflow :=
  match l.src.parse f.name f.data with
  | .error _ => []
  | .ok wf =>
    wf.on.schedule.map fun c => { repository := repo, fileName := f.name, ref := ref, cron := c }

/-- The body of the loop of `List` over the repositories. -/
def ofRepo (r : ScheduledRepo) : Except Err (List ScheduledWorkflow) :=
  let repo := { provider := "github", owner := r.owner, name := r.name }
  match l.refFor repo with
  | .error err => .error err
  | .ok ref =>
    match l.src.load repo ref with
    | .error err =>
      .error (.wrap ("schedule: load " ++ r.owner ++ "/" ++ r.name ++ " workflows: ") err "")
    | .ok files => .ok (files.flatMap (l.ofFile repo ref))

/-- The loop of `List`, with the schedules found so far. -/
def listLoop (out : List ScheduledWorkflow) : List ScheduledRepo → Except Err (List ScheduledWorkflow)
  | [] => .ok out
  | r :: rest =>
    match l.ofRepo r with
    | .error err => .error err
    | .ok found => listLoop (out ++ found) rest

/-- All schedules of the repositories. -/
def list : Except Err (List ScheduledWorkflow) := l.listLoop [] l.repos

end RepoSchedules

/-- The server as the `IngestPort` of its scheduler. -/
def ingestPort (opts : Options) (now : State → Time) (skipTime : State → JobRunID → Time) : IngestPort State :=
  fun st d => ingest opts d (now st) (skipTime st) st

/-- `ScheduleOnce`, which does nothing without scheduled repositories. -/
def scheduleOnce (opts : Options) (schedules : RepoSchedules) (parse : Parser) (fuel : Nat) (now : Time)
    (ingestTime : State → Time) (skipTime : State → JobRunID → Time) (fired : Fired) (st : State) :
    Option (Ticked State) :=
  if schedules.repos.isEmpty then some { emitted := 0, err := none, fired := fired, world := st, attempts := [] }
  else
    tick parse (ingestPort opts ingestTime skipTime) fuel { listed := schedules.list, now := now } fired st

end Forgelet.Server
