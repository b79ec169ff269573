import Forgelet.Lib.Bytes
import Forgelet.Scheduler.Port

/-!
# The executor plan

`internal/run/plan/plan.go`. The id of a step may be cut in the middle of a character, so it is a byte string, as are
the names of variables made from it. Of the fields that nothing sets, `Composite` is read for whether it is set;
`Shell`, `WorkingDir` and `TimeoutSecs` are left out.
-/

namespace Forgelet

/-- A reference to a secret; `env` is the variable the executor exposes it under. -/
structure SecretRef where
  scope : String
  name : String
  env : Bytes
deriving DecidableEq

/-- A step with a script. -/
structure RunStep where
  script : String
  env : Option (GoMap String String)
deriving DecidableEq

/-- A step that the executor implements. -/
structure BuiltinStep where
  action : String
  version : String
  inputs : GoMap String String
deriving DecidableEq

/-- A step with a JavaScript action. -/
structure JSStep where
  repo : String
  ref : String
  path : String
  main : String
  script : String
  inputs : GoMap String String
deriving DecidableEq

/-- A step of a plan; `cond` is its raw `if`. -/
structure PlanStep where
  id : Bytes
  name : String
  cond : String
  run : RunStep
  builtin : Option BuiltinStep
  js : Option JSStep
  composite : Bool := false
  continueOnError : Bool
deriving DecidableEq

/-- Everything the executor needs to run one JobRun. -/
structure Plan where
  jobRunID : JobRunID
  repository : RepositoryRef
  eventName : String
  actor : String
  sha : String
  ref : String
  runnerClass : String
  env : GoMap String String
  steps : List PlanStep
  secretRefs : List SecretRef
deriving DecidableEq

/-- The errors of `Digest`; the encoding itself does not fail. -/
def Plan.digestError (p : Plan) : Option Err :=
  if p.jobRunID = "" then some (.errorf "plan: empty job run id")
  else if p.steps.isEmpty then some (.errorf ("plan " ++ p.jobRunID ++ ": no steps"))
  else none

end Forgelet
