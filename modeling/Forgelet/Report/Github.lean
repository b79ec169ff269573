import Forgelet.Lib.Rfc3339
import Forgelet.Report.Report

/-!
# Check runs at GitHub

`CheckReporter.Report` (`internal/provider/github/check.go`), and what GitHub makes of its requests: a list of check
runs, of which a listing gives one page.
-/

namespace Forgelet.Report

/-! ## GitHub -/

/-- What a request says about a check run; a field that is not sent is `none`. -/
structure CheckPayload where
  name : String
  headSHA : String
  externalID : String
  detailsURL : String
  status : String
  conclusion : Option String
  startedAt : Option String
  completedAt : Option String
deriving DecidableEq

/-- A commit of a repository. -/
structure Commit where
  owner : String
  repo : String
  sha : String
deriving DecidableEq

/-- A check run as GitHub keeps it. -/
structure CheckRun where
  id : Nat
  commit : Commit
  name : String
  externalID : String
  detailsURL : String
  status : String
  conclusion : Option String
  startedAt : Option String
  completedAt : Option String
deriving DecidableEq

/-- The check run that a payload creates. -/
def CheckRun.create (id : Nat) (owner repo : String) (p : CheckPayload) : CheckRun where
  id := id
  commit := ⟨owner, repo, p.headSHA⟩
  name := p.name
  externalID := p.externalID
  detailsURL := p.detailsURL
  status := p.status
  conclusion := p.conclusion
  startedAt := p.startedAt
  completedAt := p.completedAt

/-- An update keeps the commit. A check run that is not completed has no conclusion; times not sent stay. -/
def CheckRun.update (r : CheckRun) (p : CheckPayload) : CheckRun :=
  { r with
    name := p.name
    externalID := p.externalID
    detailsURL := p.detailsURL
    status := p.status
    conclusion := p.conclusion
    startedAt := p.startedAt.or r.startedAt
    completedAt := p.completedAt.or r.completedAt }

/-- The check runs, oldest first. No two have the same id. -/
structure Github where
  runs : List CheckRun
  next : Nat
  fresh : ∀ r ∈ runs, r.id < next
  distinct : (runs.map (·.id)).Nodup

namespace Github

/-- No check run yet. -/
def new : Github where
  runs := []
  next := 0
  fresh := nofun
  distinct := .nil

/-- The check runs of a commit. -/
def onCommit (g : Github) (c : Commit) : List CheckRun := g.runs.filter fun r => r.commit = c

/-- `POST /repos/{owner}/{repo}/check-runs`. -/
def create (g : Github) (owner repo : String) (p : CheckPayload) : Github where
  runs := g.runs ++ [.create g.next owner repo p]
  next := g.next + 1
  fresh := by
    intro r hr
    rcases List.mem_append.mp hr with hold | hnew
    · exact (g.fresh r hold).trans (Nat.lt_succ_self _)
    · rw [List.mem_singleton.mp hnew]
      exact Nat.lt_succ_self _
  distinct := by
    rw [List.map_append, List.map_singleton, List.nodup_append]
    refine ⟨g.distinct, List.nodup_singleton _, ?_⟩
    intro a ha b hb
    obtain ⟨r, hr, rfl⟩ := List.mem_map.mp ha
    rw [List.mem_singleton.mp hb]
    exact (g.fresh r hr).ne

/-- A check run after an update of the one with some id in some repository. -/
def rewrite (owner repo : String) (id : Nat) (p : CheckPayload) (r : CheckRun) : CheckRun :=
  if r.id = id ∧ r.commit.owner = owner ∧ r.commit.repo = repo then r.update p else r

theorem rewrite_id (owner repo : String) (id : Nat) (p : CheckPayload) (r : CheckRun) :
    (rewrite owner repo id p r).id = r.id := by
  unfold rewrite
  split <;> rfl

/-- `PATCH /repos/{owner}/{repo}/check-runs/{id}`. -/
def update (g : Github) (owner repo : String) (id : Nat) (p : CheckPayload) : Github where
  runs := g.runs.map (rewrite owner repo id p)
  next := g.next
  fresh := by
    intro r hr
    obtain ⟨r', hr', rfl⟩ := List.mem_map.mp hr
    rw [rewrite_id]
    exact g.fresh r' hr'
  distinct := by
    have hids : (fun r => r.id) ∘ rewrite owner repo id p = fun r => r.id := funext (rewrite_id owner repo id p)
    rw [List.map_map, hids]
    exact g.distinct

end Github

/-- A page of a listing with `per_page=100`, which holds all entries if it can. -/
structure Page where
  entries : List CheckRun → List CheckRun
  length_le : ∀ l, (entries l).length ≤ 100
  sub : ∀ l, entries l ⊆ l
  whole : ∀ l, l.length ≤ 100 → l ⊆ entries l

/-- The first hundred. -/
def Page.oldest : Page where
  entries l := l.take 100
  length_le l := List.length_take_le 100 l
  sub l := List.take_subset 100 l
  whole l h := by rw [List.take_of_length_le h]; exact List.Subset.refl l

/-- The last hundred. -/
def Page.newest : Page where
  entries l := l.reverse.take 100
  length_le l := List.length_take_le 100 l.reverse
  sub l := fun _ hr => List.mem_reverse.mp (List.take_subset 100 l.reverse hr)
  whole l h := by
    rw [List.take_of_length_le (by rw [List.length_reverse]; exact h)]
    exact fun _ hr => List.mem_reverse.mpr hr

/-! ## The reporter -/

/-- The answer to a request for the check runs of a commit. -/
inductive ListAnswer
  | failed (err : Err)
  | response (code : Nat) (body : Except Err Page)

/-- What becomes of a request that creates or updates a check run. -/
inductive WriteAnswer
  /-- it does not arrive -/
  | unsent (err : Err)
  /-- it is carried out, but the answer does not arrive -/
  | lost (err : Err)
  /-- it is carried out if the status code is below 300 -/
  | response (code : Nat) (status : String)

/-- What a call of `Report` meets. -/
structure Network where
  token : Except Err String
  listing : ListAnswer
  write : WriteAnswer

/-- Whether GitHub carries the request out. -/
def WriteAnswer.arrives : WriteAnswer → Bool
  | unsent _ => false
  | lost _ => true
  | response code _ => code < 300

/-- The body of a request. -/
def checkPayload (check : Check) (sha : String) : CheckPayload where
  name := check.name
  headSHA := sha
  externalID := check.externalID
  detailsURL := check.detailsURL
  status := check.status.text
  conclusion := if check.status = .completed then some check.conclusionText else none
  startedAt := check.startedAt.map Rfc3339.format
  completedAt := check.completedAt.map Rfc3339.format

/-- The address without its query. -/
def redactPath (url : String) : String := String.ofList (url.toList.takeWhile (· ≠ '?'))

/-- The check run of an earlier report, looked for on the first page. -/
def findByExternalID (net : Network) (g : Github) (commit : Commit) (externalID : String) :
    Except Err (Option CheckRun) :=
  match net.listing with
  | .failed err => .error (.wrap ("github check: list for " ++ externalID ++ ": ") err "")
  | .response code body =>
    if code ≠ 200 then .error (.errorf ("github check: list status " ++ toString code))
    else match body with
      | .error err => .error (.wrap "github check: decode list response: " err "")
      | .ok page => .ok ((page.entries (g.onCommit commit)).find? (·.externalID = externalID))

/-- `do`: its result. -/
def sendResult (net : Network) (method url : String) : Except Err Unit :=
  match net.write with
  | .unsent err | .lost err => .error err
  | .response code status =>
    if code ≥ 300 then .error (.errorf ("github check: " ++ method ++ " " ++ redactPath url ++ " status " ++ status))
    else .ok ()

/-- `do`: GitHub after it, where `done` is GitHub after the request. -/
def sendEffect (net : Network) (g done : Github) : Github := if net.write.arrives then done else g

/-- `Report`: its result, and GitHub after it. -/
def report (baseURL : String) (net : Network) (run : RunRecord) (check : Check) (g : Github) :
    Except Err Unit × Github :=
  match net.token with
  | .error err => (.error (.wrap "github check: token: " err ""), g)
  | .ok _ =>
    let owner := run.event.repository.owner
    let name := run.event.repository.name
    if owner = "" ∨ name = "" then
      (.error (.errorf ("github check: run " ++ run.id ++ " has no repository")), g)
    else if run.event.sha = "" then
      (.error (.errorf ("github check: run " ++ run.id ++ " has no head sha")), g)
    else
      match findByExternalID net g ⟨owner, name, run.event.sha⟩ check.externalID with
      | .error err => (.error err, g)
      | .ok existing =>
        let body := checkPayload check run.event.sha
        let url := baseURL ++ "/repos/" ++ owner ++ "/" ++ name ++ "/check-runs"
        match existing with
        | some r =>
          ((sendResult net "PATCH" (url ++ "/" ++ toString r.id)).mapError fun err =>
              .wrap ("github check: update " ++ check.externalID ++ ": ") err "",
            sendEffect net g (g.update owner name r.id body))
        | none =>
          ((sendResult net "POST" url).mapError fun err =>
              .wrap ("github check: create " ++ check.externalID ++ ": ") err "",
            sendEffect net g (g.create owner name body))

/-! ## Sequences of reports -/

/-- A call of `Report`. -/
structure ReportCall where
  net : Network
  run : RunRecord
  check : Check

namespace ReportCall

/-- The commit that is reported on. -/
def commit (c : ReportCall) : Commit :=
  ⟨c.run.event.repository.owner, c.run.event.repository.name, c.run.event.sha⟩

/-- The page that is listed, if one is. -/
def page (c : ReportCall) : Option Page :=
  match c.net.listing with
  | .response code (.ok page) => if code = 200 then some page else none
  | _ => none

/-- The call gets as far as a request that GitHub carries out. -/
def arrives (c : ReportCall) : Bool :=
  c.net.token.isOk && c.commit.owner != "" && c.commit.repo != "" && c.commit.sha != "" && c.page.isSome &&
    c.net.write.arrives

end ReportCall

/-- GitHub after some calls, one after the other. -/
def reports (baseURL : String) (calls : List ReportCall) (g : Github) : Github :=
  calls.foldl (fun g c => (report baseURL c.net c.run c.check g).2) g

/-- The last check that was reported under an external id. -/
def lastReported (x : String) : List ReportCall → Option Check
  | [] => none
  | c :: rest => (lastReported x rest).or (if c.check.externalID = x ∧ c.arrives then some c.check else none)

/-- A check run carries the state of a check. -/
structure CheckRun.Carries (r : CheckRun) (check : Check) : Prop where
  name : r.name = check.name
  detailsURL : r.detailsURL = check.detailsURL
  status : r.status = check.status.text
  conclusion : r.conclusion = if check.status = .completed then some check.conclusionText else none
  startedAt : ∀ t, check.startedAt = some t → r.startedAt = some (Rfc3339.format t)
  completedAt : ∀ t, check.completedAt = some t → r.completedAt = some (Rfc3339.format t)

end Forgelet.Report
