import Forgelet.Lib.Bytes
import Forgelet.Lib.Moments
import Forgelet.Lib.Rfc3339
import Forgelet.Scheduler.Port

/-!
# The cron scheduler

`internal/run/schedule/schedule.go`: `Tick` lists the scheduled workflows and hands a delivery to `Ingest` for the
latest fire time of each that is due. Only the last fire time of every key is remembered, and only after a delivery was
accepted. The lister, the clock and `Ingest` are arguments; `robfig/cron` is given by what it promises about `Next`.
-/

namespace Forgelet

/-- `ScheduledWorkflow`, a workflow file with one of its cron expressions. -/
structure ScheduledWorkflow where
  repository : RepositoryRef
  fileName : String
  ref : String
  cron : String
deriving DecidableEq

namespace Schedule

/-- The zero `time.Time`, the beginning of the year 1. -/
def zeroTime : Time := -62135596800000000000

/-- The result of `Next` as an optional time: the zero time says that there is none. -/
def nextFire (next : Time → Time) (t : Time) : Option Time :=
  if next t = zeroTime then none else some (next t)

/-- `cron.Schedule`: `Next` returns the first fire time after a time. -/
structure Cron where
  next : Time → Time
  fires : Set Time
  successor : Moments.Successor fires (nextFire next)

/-- `parser.Parse`. -/
abbrev Parser := String → Option Cron

/-- The key under which the last time is remembered. -/
def scheduleKey (sw : ScheduledWorkflow) : String :=
  sw.repository.owner ++ "/" ++ sw.repository.name ++ ":" ++ sw.fileName ++ ":" ++ sw.cron

/-- The delivery for the fire time `latest`. -/
def deliveryFor (sw : ScheduledWorkflow) (latest : Time) : Delivery where
  key :=
    { provider := "forgelet"
      deliveryID := "schedule:" ++ sw.repository.owner ++ "/" ++ sw.repository.name ++ ":" ++ sw.fileName ++
        ":" ++ sw.cron ++ ":" ++ Rfc3339.format latest }
  event :=
    { provider := "forgelet"
      name := "schedule"
      deliveryID := sw.repository.owner ++ "/" ++ sw.repository.name ++ "@" ++ sw.fileName
      repository := sw.repository
      ref := sw.ref
      sha := ""
      actor := "forgelet-schedule" }
  payload := Bytes.ofString ("\x7b\"cron\":" ++ GoString.quote sw.cron ++ ",\"fire_time\":" ++
    GoString.quote (Rfc3339.format latest) ++ ",\"workflow\":" ++ GoString.quote sw.fileName ++ "\x7d")

/-! ## The walk -/

/-- The walk from fire time to fire time, `latest` being the last one seen. -/
def walk (next : Time → Time) (now : Time) : Nat → Time → Time → Option Time
  | 0, _, _ => none
  | fuel + 1, cursor, latest =>
    let n := next cursor
    if n = zeroTime ∨ now < n then some latest else walk next now fuel n n

/-- A day in nanoseconds. -/
def day : Time := 24 * 3600 * 1000000000

/-- `fired`, the last fire time that was emitted for every schedule key. -/
abbrev Fired := GoMap String Time

/-- `s.fired[key]`, the zero time for a key without history. -/
def lastEmitted (fired : Fired) (sw : ScheduledWorkflow) : Time :=
  (fired.lookup (scheduleKey sw)).getD zeroTime

/-- The fire time to be emitted for a workflow, if any, within the fuel. -/
def due (parse : Parser) (fuel : Nat) (now : Time) (fired : Fired) (sw : ScheduledWorkflow) :
    Option (Option Time) :=
  match parse sw.cron with
  | none => some none
  | some sched =>
    let last := lastEmitted fired sw
    let cursor := if last = zeroTime then now - day else last
    match walk sched.next now fuel cursor zeroTime with
    | none => none
    | some latest => if latest = zeroTime ∨ latest = last then some none else some (some latest)

/-! ## Ticks -/

/-- A call of `Ingest` that a tick makes, and whether it succeeded. -/
structure Attempt where
  now : Time
  workflow : ScheduledWorkflow
  latest : Time
  emitted : Bool
deriving DecidableEq

/-- What a tick returns, the history, the state of `Ingest`, and the calls. -/
structure Ticked (World : Type) where
  emitted : Nat
  err : Option Err
  fired : Fired
  world : World
  attempts : List Attempt

/-- `IngestPort`, as a function on the state of the world. -/
abbrev IngestPort (World : Type) := World → Delivery → Except Err (RunID × Bool) × World

section

variable {World : Type} (parse : Parser) (ingest : IngestPort World) (fuel : Nat)

/-- The loop of `Tick`, which ends at the first `Ingest` that fails. -/
def tickLoop (now : Time) : List ScheduledWorkflow → Nat → Fired → World → Option (Ticked World)
  | [], emitted, fired, w => some { emitted := emitted, err := none, fired := fired, world := w, attempts := [] }
  | sw :: rest, emitted, fired, w =>
    match due parse fuel now fired sw with
    | none => none
    | some none => tickLoop now rest emitted fired w
    | some (some latest) =>
      match ingest w (deliveryFor sw latest) with
      | (.error err, w) =>
        some
          { emitted := emitted
            err := some
              (.wrap ("schedule: ingest " ++ (deliveryFor sw latest).key.text ++ ": ") err "")
            fired := fired
            world := w
            attempts := [{ now := now, workflow := sw, latest := latest, emitted := false }] }
      | (.ok _, w) =>
        (tickLoop now rest (emitted + 1) (fired.insert (scheduleKey sw) latest) w).map fun r =>
          { r with
            attempts := { now := now, workflow := sw, latest := latest, emitted := true } :: r.attempts }

/-- What a tick is exposed to: the result of `List` and the reading of the clock. -/
structure TickInput where
  listed : Except Err (List ScheduledWorkflow)
  now : Time

/-- `Tick`. -/
def tick (input : TickInput) (fired : Fired) (w : World) : Option (Ticked World) :=
  match input.listed with
  | .error err =>
    some
      { emitted := 0
        err := some (.wrap "schedule: list: " err "")
        fired := fired
        world := w
        attempts := [] }
  | .ok workflows => tickLoop parse ingest fuel input.now workflows 0 fired w

/-- The calls of `Ingest` that a sequence of ticks makes, for each tick. -/
def ticks : List TickInput → Fired → World → Option (List (List Attempt))
  | [], _, _ => some []
  | input :: rest, fired, w =>
    match tick parse ingest fuel input fired w with
    | none => none
    | some r => (ticks rest r.fired r.world).map (r.attempts :: ·)

end

end Schedule

end Forgelet
