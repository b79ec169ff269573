import Forgelet.Provider.Webhook
import Forgelet.Server.Server

/-!
# The trust in a pull request

What `trustFor` (`internal/server/server.go`) reads of a payload, and what the two repositories of a pull request are.
-/

namespace Forgelet.Server

open Bytes (ofString)
open Json (GoType)
open Webhook (PRPayload prPayload pullPath)

/-- The type that `trustFor` decodes into. -/
def trustPayloadType : GoType :=
  .struct [(ofString "pull_request", .struct
    [(ofString "head", .struct [(ofString "repo", .struct [(ofString "fork", .bool)])])])]

/-- `trustFor`: `pull_request.head.repo.fork`, if it decodes. -/
def headForkOf (payload : Payload) : Option Bool :=
  match Json.tree payload with
  | none => none
  | some j =>
    if trustPayloadType.mismatch j then none else some (j.boolAt (pullPath ["head", "repo", "fork"]))

/-- The head of a pull request is in the repository it is made to. -/
def SameRepository (p : PRPayload) : Prop :=
  p.headName ≠ [] ∧ p.headOwner ≠ [] ∧ p.headName = p.baseName ∧ p.headOwner = p.baseOwner

instance (p : PRPayload) : Decidable (SameRepository p) :=
  inferInstanceAs (Decidable (p.headName ≠ [] ∧ p.headOwner ≠ [] ∧ p.headName = p.baseName ∧ p.headOwner = p.baseOwner))

/-- The payload decodes, and the head is in the repository of the pull request. -/
def FromSameRepository (payload : Payload) : Prop := ∃ p, prPayload payload = some p ∧ SameRepository p

/-- The head is in the repository of the pull request, or marked as a fork. -/
def MarksForks (payload : Payload) : Prop := FromSameRepository payload ∨ headForkOf payload = some true

end Forgelet.Server
