import Forgelet.Executor.Output

/-!
# Checkout

`checkoutHandler` of `internal/runtime/executor/builtin.go`: the arguments of the calls of git, and the error that
the handler returns. What git does is an argument, which is given the calls before.
-/

namespace Forgelet.Executor

open Bytes (ofString byte)

/-- The standard alphabet. -/
def base64Digit (n : Nat) : UInt8 :=
  if n < 26 then UInt8.ofNat (65 + n)
  else if n < 52 then UInt8.ofNat (71 + n)
  else if n < 62 then UInt8.ofNat (n - 4)
  else if n = 62 then byte '+'
  else byte '/'

/-- `StdEncoding.EncodeToString`. -/
def base64 : Bytes → Bytes
  | [] => []
  | [a] => [base64Digit (a.toNat / 4), base64Digit (a.toNat % 4 * 16), byte '=', byte '=']
  | [a, b] =>
    [base64Digit (a.toNat / 4), base64Digit (a.toNat % 4 * 16 + b.toNat / 16), base64Digit (b.toNat % 16 * 4), byte '=']
  | a :: b :: c :: rest =>
    base64Digit (a.toNat / 4) :: base64Digit (a.toNat % 4 * 16 + b.toNat / 16) ::
      base64Digit (b.toNat % 16 * 4 + c.toNat / 64) :: base64Digit (c.toNat % 64) :: base64 rest

/-- What the handler meets: the error of making the workspace, whether it is a repository, and git. -/
structure Machine where
  mkdirErr : Option StepErr
  hasGit : Bool
  git : List (List Bytes) → List Bytes → Option (StepErr × Bytes)

/-- `runGit`, with the calls so far. -/
def runGit (m : Machine) (calls : List (List Bytes)) (args : List Bytes) : Option StepErr × List (List Bytes) :=
  ((m.git calls args).map fun r =>
      ⟨ofString "git " ++ Bytes.join [byte ' '] args ++ ofString ": " ++ r.1.text ++
        ofString ": " ++ r.2, r.1.cancelled⟩,
    calls ++ [args])

/-- The address to fetch from; `owner/name` is on GitHub. -/
def repositoryURL (repo : Bytes) : Bytes :=
  if (ofString "/").isPrefixOf repo then ofString "file://" ++ repo
  else if Bytes.contains repo (ofString "://") = false ∧ repo.count (byte '/') = 1 then
    if (ofString ".git").isSuffixOf repo then ofString "https://github.com/" ++ repo
    else ofString "https://github.com/" ++ repo ++ ofString ".git"
  else repo

/-- The token as it stands in the header. -/
def credential (token : Bytes) : Bytes := base64 (ofString "x-access-token:" ++ token)

/-- `git` arguments with the header for the host of the repository. -/
def withToken (token repoURL : Bytes) (args : List Bytes) : List Bytes :=
  if token = [] ∨ (ofString "https://").isPrefixOf repoURL = false then args
  else
    let host := (repoURL.splitOn (byte '/')).getD 2 (ofString "github.com")
    let extra := ofString "http.https://" ++ host ++ ofString "/.extraheader=AUTHORIZATION: basic " ++ credential token
    [ofString "-c", extra] ++ args

/-- The depth of a fetch; `none` is an error. -/
def fetchDepth (s : Bytes) : Option Int :=
  if s = [] then some 1
  else
    match Bytes.atoi s with
    | none => none
    | some v => if v < 0 then none else some v

/-- The arguments of `git fetch`. -/
def fetchArgs (ref : Bytes) (depth : Int) : List Bytes :=
  [ofString "fetch", ofString "origin"] ++ (if ref = [] then [] else [ref]) ++
    (if 0 < depth then [ofString "--depth", Bytes.ofInt depth] else [])

/-- The calls of git for a new repository; a remote that exists is changed. -/
def initRepository (m : Machine) (repoURL : Bytes) : Option StepErr × List (List Bytes) :=
  if m.hasGit then (none, [])
  else
    match runGit m [] [ofString "init"] with
    | (some err, calls) => (some err, calls)
    | (none, calls) =>
      match runGit m calls [ofString "remote", ofString "add", ofString "origin", repoURL] with
      | (none, calls) => (none, calls)
      | (some _, calls) =>
        (none, (runGit m calls [ofString "remote", ofString "set-url", ofString "origin", repoURL]).2)

/-- The checkout after the fetch. Without a ref, nothing that fails here is an error. -/
def checkoutFetched (m : Machine) (calls : List (List Bytes)) (ref : Bytes) : Option StepErr :=
  if ref = [] then none
  else
    match runGit m calls [ofString "checkout", ofString "FETCH_HEAD"] with
    | (none, _) => none
    | (some err, calls) =>
      match runGit m calls [ofString "checkout", ref] with
      | (none, _) => none
      | (some err₂, _) =>
        some ⟨ofString "checkout " ++ Bytes.quote ref ++ ofString ": " ++ err.text ++ [byte '\n'] ++ err₂.text,
          err.cancelled || err₂.cancelled⟩

/-- The builtin `actions/checkout`. -/
def checkoutHandler (m : Machine) (inputs : GoMap Bytes Bytes) : Option StepErr :=
  let input (key : String) : Bytes := Bytes.trimSpace ((inputs.lookup (ofString key)).getD [])
  let persist := input "persist-credentials"
  let repo := input "repository"
  if persist ≠ [] ∧ persist ≠ ofString "true" ∧ persist ≠ ofString "false" then
    some ⟨ofString "actions/checkout: persist-credentials must be true or false, got " ++ Bytes.quote persist, false⟩
  else if repo = [] then
    some ⟨ofString "actions/checkout: repository input is required when no default is available", false⟩
  else
    match fetchDepth (input "fetch-depth") with
    | none => some ⟨ofString "actions/checkout: invalid fetch-depth " ++ Bytes.quote (input "fetch-depth"), false⟩
    | some depth =>
      match m.mkdirErr with
      | some err => some ⟨ofString "checkout: mkdir workspace: " ++ err.text, err.cancelled⟩
      | none =>
        let repoURL := repositoryURL repo
        match initRepository m repoURL with
        | (some err, _) => some err
        | (none, calls) =>
          match runGit m calls (withToken (input "token") repoURL (fetchArgs (input "ref") depth)) with
          | (some err, _) => some err
          | (none, calls) => checkoutFetched m calls (input "ref")

end Forgelet.Executor
