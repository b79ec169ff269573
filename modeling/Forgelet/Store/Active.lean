import Forgelet.Scheduler.Port

/-!
# The in-memory active store

`memory.ActiveStore` (`internal/storage/memory/store.go`): the deterministic create-or-get of the active
objects, with the counters of its calls.
-/

namespace Forgelet

/-- The objects by job, the uids by name, and the counts of calls and inserts. -/
structure ActiveStore where
  objects : GoMap JobRunID ActiveObject
  uids : GoMap String String
  createCalls : Nat
  deleteCalls : Nat
  created : Nat
deriving DecidableEq

namespace ActiveStore

/-- `NewActiveStore`. -/
def new : ActiveStore where
  objects := ∅
  uids := ∅
  createCalls := 0
  deleteCalls := 0
  created := 0

/-- `CreateOrGet`. A uid, once given to a name, stays with it. -/
def createOrGet (a : ActiveStore) (id : JobRunID) : ActiveObject × ActiveStore :=
  let a := { a with createCalls := a.createCalls + 1 }
  match a.objects.lookup id with
  | some obj => (obj, a)
  | none =>
    let name := crName id
    let uid := (a.uids.lookup name).getD ("uid-" ++ name)
    let obj : ActiveObject := { name := name, uid := uid }
    (obj,
      { a with
        created := a.created + 1
        uids := a.uids.insert name uid
        objects := a.objects.insert id obj })

/-- `Delete`: deleting a missing object succeeds. -/
def delete (a : ActiveStore) (id : JobRunID) : ActiveStore :=
  { a with deleteCalls := a.deleteCalls + 1, objects := a.objects.erase id }

end ActiveStore

end Forgelet
