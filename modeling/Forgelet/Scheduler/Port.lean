import Forgelet.Run.Model

/-!
# The scheduler's ports

What the scheduler use cases share with the stores behind them (`internal/run/scheduler/port.go`
and `idgen.go`): the active object of a JobRun, the errors, and the source of ids.
-/

namespace Forgelet

/-- An object of the cluster. -/
structure ActiveObject where
  name : String
  uid : String
deriving DecidableEq, Repr

/-- The sentinel errors, those of `fmt.Errorf`, and the panics of a nil map and a nil pointer. -/
inductive Err
  | errNoQueuedJob
  | errRunNotFound
  | errJobRunNotFound
  | errJobNotDispatchable
  | errorf (msg : String)
  | wrap (before : String) (cause : Err) (after : String)
  | nilMapPanic
  | nilPointerPanic
deriving DecidableEq, Repr

/-- `error.Error`. -/
def Err.text : Err → String
  | errNoQueuedJob => "scheduler: no queued job run"
  | errRunNotFound => "scheduler: run not found"
  | errJobRunNotFound => "scheduler: job run not found"
  | errJobNotDispatchable => "scheduler: job run not dispatchable"
  | errorf msg => msg
  | wrap before cause after => before ++ cause.text ++ after
  | nilMapPanic => "assignment to entry in nil map"
  | nilPointerPanic => "invalid memory address or nil pointer dereference"

/-- `IDGen`: the `n`-th id is `mint n`, and none is minted twice. -/
structure IDSource where
  mint : Nat → String
  mint_injective : Function.Injective mint
  mint_ne_empty : ∀ n, mint n ≠ ""

/-- Ids in unary: `"i"`, `"ii"`, `"iii"`. They evaluate, and sort by age. -/
def IDSource.unary : IDSource where
  mint n := String.ofList (List.replicate (n + 1) 'i')
  mint_injective a b h := by
    have hlen := congrArg List.length (String.ofList_injective h)
    simpa using hlen
  mint_ne_empty n h := by
    have hlen := congrArg List.length (congrArg String.toList h)
    simp at hlen

/-- The id source of a store, and its clock, whose `n`-th reading is `clock n`. -/
structure Wiring where
  ids : IDSource
  clock : Nat → Time

/-- A wiring that evaluates: unary ids, and a clock that counts its readings. -/
def Wiring.unary : Wiring where
  ids := IDSource.unary
  clock n := n

end Forgelet
