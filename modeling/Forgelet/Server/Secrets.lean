import Forgelet.Server.Server

/-!
# The secrets endpoint

`handleSecrets` (`internal/server/server.go`), with the checks of `jobFromPath`. The request is what is left of it
after the authentication middleware and the decoding of its body.
-/

namespace Forgelet.Server

open Policy

/-- A request for the secrets of a job. `body` is `none` where it does not decode. -/
structure SecretsRequest where
  id : JobRunID
  ident : Option Identity
  body : Option (List Ref)
deriving DecidableEq

/-- Where values come from: the sealed store, and the map `Options.SecretValues`. -/
structure SecretSource where
  store : Option (String → String → Option String)
  values : GoMap String String

/-- What the handler answers. -/
inductive Response
  | httpError (text : String) (code : Nat)
  | secrets (out : GoMap String String)
deriving DecidableEq

/-- The key of a secret in the answer. -/
def secretKey (r : Ref) : String := r.scope ++ "/" ++ r.name

/-- The value of a secret, if there is one. -/
def SecretSource.value (src : SecretSource) (r : Ref) : Option String :=
  match src.store with
  | none => src.values.lookup (secretKey r)
  | some getSecret =>
    match getSecret r.scope r.name with
    | some v => some v
    | none => src.values.lookup (secretKey r)

/-- The values of the references. -/
def collectValues (src : SecretSource) (out : GoMap String String) : List Ref → GoMap String String
  | [] => out
  | r :: rest =>
    match src.value r with
    | some v => collectValues src (out.insert (secretKey r) v) rest
    | none => collectValues src out rest

/-- The checks of `jobFromPath`, the scope and the body. -/
def checkRequest (req : SecretsRequest) : Except Response (Identity × List Ref) :=
  if req.id = "" then .error (.httpError "missing job run id" 400)
  else
    match req.ident with
    | none => .error (.httpError "missing identity" 401)
    | some ident =>
      match authorizeExecution ident req.id with
      | .error _ => .error (.httpError "identity not bound to this job run" 403)
      | .ok () =>
        if ident.hasScope scopeSecretsRead = false then
          .error (.httpError "missing scope secrets:read" 403)
        else
          match req.body with
          | none => .error (.httpError "malformed request" 400)
          | some requested => .ok (ident, requested)

/-- The references that the plan allows. -/
def planRefs (p : Plan) : List Ref := p.secretRefs.map fun r => { scope := r.scope, name := r.name }

/-- The answer for a job whose plan is `p`. -/
def respond (src : SecretSource) (ident : Identity) (requested : List Ref) (p : Plan)
    (trust : Option TrustLevel) : Response :=
  .secrets (collectValues src ∅ (decideSecrets ident requested (planRefs p) trust).allowed)

/-- The request for secrets. -/
def handleSecrets (src : SecretSource) (req : SecretsRequest) (st : State) : Response :=
  match checkRequest req with
  | .error response => response
  | .ok (ident, requested) =>
    match st.plans.lookup req.id with
    | none => .httpError "plan not found" 404
    | some p => respond src ident requested p (st.trust.lookup req.id)

end Forgelet.Server
