import Forgelet.Lib.Unmarshal

/-!
# Pull requests of GitHub

The payload of a `pull_request` webhook, as `DecodePull` (`internal/provider/github/webhook.go`) reads it.
-/

namespace Forgelet.Webhook

open Bytes (ofString)
open Json (GoType)

/-- The fields of a repository: `prPayload.Pr.Base.Repo`, and the head's. -/
def repoFields : List (Bytes × GoType) :=
  [(ofString "name", .string), (ofString "owner", .struct [(ofString "login", .string)])]

/-- The type `prPayload`. -/
def prPayloadType : GoType :=
  .struct [(ofString "action", .string), (ofString "number", .int),
    (ofString "pull_request", .struct
      [(ofString "head", .struct [(ofString "ref", .string), (ofString "sha", .string),
        (ofString "repo", .struct ((ofString "fork", .bool) :: repoFields))]),
      (ofString "base", .struct [(ofString "ref", .string), (ofString "repo", .struct repoFields)])])]

/-- `prPayload`, without the number, which nothing reads. -/
structure PRPayload where
  action : Bytes
  headRef : Bytes
  headSHA : Bytes
  headFork : Bool
  headName : Bytes
  headOwner : Bytes
  baseRef : Bytes
  baseName : Bytes
  baseOwner : Bytes
deriving DecidableEq

/-- A path below `pull_request`. -/
def pullPath (path : List String) : List Bytes := (ofString "pull_request") :: path.map ofString

/-- `json.Unmarshal` into `prPayload`. -/
def prPayload (body : Bytes) : Option PRPayload :=
  match Json.tree body with
  | none => none
  | some j =>
    if prPayloadType.mismatch j then none
    else some {
      action := j.stringAt [ofString "action"]
      headRef := j.stringAt (pullPath ["head", "ref"])
      headSHA := j.stringAt (pullPath ["head", "sha"])
      headFork := j.boolAt (pullPath ["head", "repo", "fork"])
      headName := j.stringAt (pullPath ["head", "repo", "name"])
      headOwner := j.stringAt (pullPath ["head", "repo", "owner", "login"])
      baseRef := j.stringAt (pullPath ["base", "ref"])
      baseName := j.stringAt (pullPath ["base", "repo", "name"])
      baseOwner := j.stringAt (pullPath ["base", "repo", "owner", "login"]) }

end Forgelet.Webhook
