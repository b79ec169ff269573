import Forgelet.Security.Policy

/-!
# Verification of executor tokens

`Verifier.Verify` (`internal/security/tokenreview/tokenreview.go`, with `bindings.go`) presents the token of a caller
to the TokenReview API and binds the pod that the API names to the job it runs.
-/

namespace Forgelet.TokenReview

open GoString (quote)
open Policy

/-- The status of a token review. -/
structure Status where
  authenticated : Bool
  error : String
  audiences : List String
  username : String
  extra : GoMap String (List String)

/-- What the TokenReview API answers for a token and audiences. -/
abbrev ReviewAPI := String → List String → Except Err Status

/-- `BindingSource`: the job of a pod, by namespace, name and uid. -/
abbrev BindingSource := String → String → String → Except Err JobRunID

/-- `InMemoryBindings`: a table by uid. -/
def inMemoryBindings (byUID : GoMap String JobRunID) : BindingSource := fun _ _ podUID =>
  match byUID.lookup podUID with
  | none => .error (.errorf ("pod " ++ quote podUID ++ " is not bound to any job run"))
  | some id => .ok id

/-- A pod as the verifier reads it. -/
structure Pod where
  uid : String
  labels : GoMap String String

/-- The label with the id of the job run. -/
def defaultJobRunLabel : String := "ci.forgelet.dev/jobrun-id"

/-- `PodLabelBindings`: the label of the pod, if it is the one that was reviewed. -/
def podLabelBindings (getPod : String → String → Except Err Pod) (label : String) : BindingSource :=
  fun ns podName podUID =>
    match getPod ns podName with
    | .error err => .error (.wrap ("load pod " ++ ns ++ "/" ++ podName ++ ": ") err "")
    | .ok pod =>
      if pod.uid ≠ podUID then
        .error (.errorf ("pod " ++ ns ++ "/" ++ podName ++ " uid " ++ quote pod.uid ++
          " does not match the reviewed " ++ quote podUID))
      else
        let id := (pod.labels.lookup label).getD ""
        if id = "" then
          .error (.errorf ("pod " ++ ns ++ "/" ++ podName ++ " has no " ++ quote label ++ " label"))
        else .ok id

/-- What a `Verifier` is wired with; `ns` is the namespace. -/
structure Verifier where
  audience : String
  ns : String
  saName : String
  scopes : List String
  bindings : Option BindingSource

/-- The identity of a verified caller. -/
structure Verified extends Identity where
  audience : String
  ns : String
  podUID : String
  tokenID : String
  issuedAt : Time
deriving DecidableEq

/-- An error that wraps `ErrInvalidToken`. -/
def invalidToken (detail : String) : Err := .wrap "" (.errorf "identity: invalid token") (": " ++ detail)

/-- What the name of a service account starts with. -/
def serviceAccountStart : String := "system:serviceaccount:"

/-- `parseServiceAccount`: the namespace and the service account. -/
def parseServiceAccount (username : String) : Except Err (String × String) :=
  if GoString.hasPrefix username serviceAccountStart = false then
    .error (invalidToken ("user " ++ quote username ++ " is not a service account"))
  else
    match GoString.cut (GoString.trimPrefix username serviceAccountStart) ':' with
    | none => .error (invalidToken ("malformed service account username " ++ quote username))
    | some (ns, sa) =>
      if ns = "" ∨ sa = "" ∨ GoString.contains sa ":" then
        .error (invalidToken ("malformed service account username " ++ quote username))
      else .ok (ns, sa)

/-- The value, if there is just one. -/
def onlyValue : Option (List String) → Option String
  | some [v] => some v
  | _ => none

/-- `extras`: the closure `lookup`. -/
def lookupExtra (extra : GoMap String (List String)) (oldKey newKey : String) : Option String :=
  [oldKey, newKey].findSome? fun key => onlyValue (extra.lookup key)

/-- `PodUIDExtraKey` and `podUIDExtraKeyNew`. -/
def podUIDOf (extra : GoMap String (List String)) : Option String :=
  lookupExtra extra "authentication.k8s.io/pod-uid" "authentication.kubernetes.io/pod-uid"

/-- `PodNameExtraKey` and `podNameExtraKeyNew`. -/
def podNameOf (extra : GoMap String (List String)) : Option String :=
  lookupExtra extra "authentication.k8s.io/pod-name" "authentication.kubernetes.io/pod-name"

/-- `extras`: the uid and the name of the pod. -/
def extras (extra : GoMap String (List String)) : Except Err (String × String) :=
  match podUIDOf extra with
  | none => .error (invalidToken "no pod uid extra")
  | some podUID =>
    match podNameOf extra with
    | none => .error (invalidToken "no pod name extra")
    | some podName => .ok (podUID, podName)

/-- `Verify`, from the answer of the API on. -/
def verifyStatus (v : Verifier) (bindings : BindingSource) (now : Time) (status : Status) : Except Err Verified :=
  if status.authenticated = false then
    .error (invalidToken (if status.error = "" then "token not authenticated" else status.error))
  else
    match parseServiceAccount status.username with
    | .error err => .error err
    | .ok (ns, sa) =>
      if ns ≠ v.ns then
        .error (invalidToken ("namespace " ++ quote ns ++ " is not an executor namespace"))
      else if sa ≠ v.saName then
        .error (invalidToken ("service account " ++ quote sa ++ " may not execute jobs"))
      else
        match extras status.extra with
        | .error err => .error err
        | .ok (podUID, podName) =>
          match bindings ns podName podUID with
          | .error err => .error (invalidToken err.text)
          | .ok jobRunID =>
            .ok { jobRunID := jobRunID, scopes := v.scopes, audience := v.audience, ns := ns, podUID := podUID,
                  tokenID := "sa:" ++ sa ++ ":" ++ podUID, issuedAt := now }

/-- `Verify`. -/
def verify (v : Verifier) (api : ReviewAPI) (now : Time) (raw : String) : Except Err Verified :=
  match v.bindings with
  | none => .error (.errorf "tokenreview: Audience, Namespace, SAName and Bindings are required")
  | some bindings =>
    if v.audience = "" ∨ v.ns = "" ∨ v.saName = "" then
      .error (.errorf "tokenreview: Audience, Namespace, SAName and Bindings are required")
    else
      match api raw [v.audience] with
      | .error err => .error (invalidToken ("review failed: " ++ err.text))
      | .ok status => verifyStatus v bindings now status

end Forgelet.TokenReview
