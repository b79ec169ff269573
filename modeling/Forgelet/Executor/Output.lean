import Forgelet.Executor.Commands
import Forgelet.Executor.Mask

/-!
# The output of a script

`runStepScript` and `emitLine` of `internal/runtime/executor/engine.go`: the loop that cuts the output of a script into
lines and hands them on, and the result of the process. What became of the process is an argument.
-/

namespace Forgelet.Executor

open Bytes (ofString byte)

/-- A record that was logged, with the registered values and its handler. -/
structure Logged where
  masker : Masker
  handler : Handler
  record : LogRecord

/-- The record as it reaches the inner handler. -/
def Logged.received (l : Logged) : Received := l.handler.handle l.masker l.record

/-- The inner loop: the complete lines in the buffer, without carriage returns, and the rest. -/
def takeLines : Nat → Bytes → List Bytes × Bytes
  | 0, buf => ([], buf)
  | fuel + 1, buf =>
    match Bytes.index [byte '\n'] buf with
    | none => ([], buf)
    | some idx =>
      let (lines, rest) := takeLines fuel (buf.drop (idx + 1))
      (trimLast (byte '\r') (buf.take idx) :: lines, rest)

/-- The read loop: the lines that are handed on. What is left at the end is a line. -/
def readLines (buf : Bytes) : List Bytes → List Bytes
  | [] => if buf = [] then [] else [buf]
  | chunk :: rest =>
    let (lines, buf) := takeLines (buf ++ chunk).length (buf ++ chunk)
    lines ++ readLines buf rest

/-- `fmt.Sprint` of a map, whose keys are sorted. -/
def sprintMap (m : GoMap Bytes Bytes) : Bytes :=
  ofString "map[" ++
    Bytes.join [byte ' '] ((Bytes.sort m.keys).map fun k => k ++ [byte ':'] ++ (m.lookup k).getD []) ++ ofString "]"

/-- The record of one line of output. -/
def outRecord (line : Bytes) : LogRecord where
  message := ofString "out"
  attrs := [(ofString "message", .string line)]

/-- The record of a command, if it has one. -/
def Command.record (cmd : Command) : Option LogRecord :=
  match cmd.name with
  | .addMask => none
  | .group | .endGroup =>
    some
      { message := ofString "group"
        attrs := [(ofString "action", .string (ofString cmd.name.text)), (ofString "title", .string cmd.message)] }
  | .warning | .error | .notice | .debug =>
    some
      { message := ofString "annotation"
        attrs :=
          [(ofString "level", .string (ofString cmd.name.text)), (ofString "message", .string cmd.message),
            (ofString "params", .string (sprintMap cmd.parameters))] }

/-- `emitLine`: the values registered afterwards, and the record. -/
def emitLine (m : Masker) (line : Bytes) : Masker × Option LogRecord :=
  match parseCommand line with
  | some cmd => (if cmd.name = .addMask then m.add cmd.message else m, cmd.record)
  | none => (m, some (outRecord line))

/-- The lines of a script. A value is registered before the next line is logged. -/
def emitLines (h : Handler) (m : Masker) : List Bytes → Masker × List Logged
  | [] => (m, [])
  | line :: rest =>
    let (m', record) := emitLine m line
    let (m'', logged) := emitLines h m' rest
    (m'', record.toList.map (⟨m', h, ·⟩) ++ logged)

/-! ## The process -/

/-- The error of a step: its text, and whether it wraps a cancellation. -/
structure StepErr where
  text : Bytes
  cancelled : Bool
deriving DecidableEq

/-- The process ended with an error. -/
def errStepFailed : StepErr := ⟨ofString "executor: step failed", false⟩

/-- The context was done. -/
def errCancelled : StepErr := ⟨ofString "executor: job cancelled", true⟩

/-- A process ends with an exit code, an error of `Wait`, or when the context is done. -/
inductive ProcessEnd
  | exited (code : Int)
  | waitFailed (err : Bytes)
  | cancelled

/-- A script is not started, with the error of `runStepScript`, or is read and ends. -/
inductive Process
  | notStarted (err : Bytes)
  | ran (reads : List Bytes) (ended : ProcessEnd)

/-- The exit code and the error that `runStepScript` returns. -/
def Process.result (id : Bytes) : Process → Int × Option StepErr
  | .notStarted err => (0, some ⟨err, false⟩)
  | .ran _ .cancelled => (-1, some errCancelled)
  | .ran _ (.exited code) => (code, if code = 0 then none else some errStepFailed)
  | .ran _ (.waitFailed err) => (-1, some ⟨ofString "executor: wait step " ++ id ++ ofString ": " ++ err, false⟩)

/-- The lines that a process prints. -/
def Process.lines : Process → List Bytes
  | .notStarted _ => []
  | .ran reads _ => readLines [] reads

end Forgelet.Executor
