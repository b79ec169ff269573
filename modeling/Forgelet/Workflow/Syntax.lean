import Forgelet.Lib.GoMap
import Forgelet.Lib.Strings

/-!
# The workflow syntax tree

The AST of `internal/workflow/syntax`. Source positions are left out, since nothing after the parser
reads them; a map that the code tests for nil is an `Option`.
-/

namespace Forgelet.Syntax

/-- The filters of `on.push` and `on.pull_request`. -/
structure PushTrigger where
  branches : List String
  branchesIgnore : List String
deriving DecidableEq

/-- The declared triggers; `schedule` lists cron expressions. -/
structure Triggers where
  push : Option PushTrigger
  pullRequest : Option PushTrigger
  schedule : List String
deriving DecidableEq

/-- One `run` or `uses` step. -/
structure Step where
  name : String
  cond : String
  run : String
  uses : String
  inputs : GoMap String String
  continueOnError : Bool
  env : Option (GoMap String String)
deriving DecidableEq

/-- One workflow job. `matrix` maps axis names to their values. -/
structure Job where
  id : String
  name : String
  runsOn : String
  cond : String
  needs : List String
  matrix : GoMap String (List String)
  env : Option (GoMap String String)
  steps : List Step
deriving DecidableEq

/-- A workflow file. -/
structure Workflow where
  file : String
  name : String
  on : Triggers
  jobs : List Job
deriving DecidableEq

/-- `isIdentifier` on a list; `first` says whether the next one is the first. -/
def isIdentifierList (first : Bool) : List Char → Bool
  | [] => true
  | r :: rest =>
    let n := r.toNat
    if (97 ≤ n && n ≤ 122) || (65 ≤ n && n ≤ 90) || r == '_' then isIdentifierList false rest
    else if (48 ≤ n && n ≤ 57) || r == '-' then if first then false else isIdentifierList false rest
    else false

/-- `isIdentifier`: what the parser accepts as a job id or an axis name. -/
def isIdentifier (s : String) : Bool := if s = "" then false else isIdentifierList true s.toList

/-- `TrimRefPrefix` strips `refs/heads/` for branch matching. -/
def trimRefPrefix (ref : String) : String := GoString.trimPrefix ref "refs/heads/"

end Forgelet.Syntax
