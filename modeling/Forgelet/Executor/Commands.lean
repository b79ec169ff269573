import Forgelet.Lib.Bytes
import Forgelet.Lib.GoMap
import Forgelet.Lib.Replace

/-!
# Commands of steps

What a step tells the executor: the workflow commands in its output (`internal/runtime/executor/command`) and the
files it writes (`internal/runtime/executor/filecommand`).
-/

namespace Forgelet.Executor

open Bytes (ofString byte)

/-- The workflow commands that are recognised. -/
inductive CommandName
  | addMask
  | group
  | endGroup
  | warning
  | error
  | notice
  | debug
deriving DecidableEq

/-- The name as a script prints it. -/
def CommandName.text : CommandName → String
  | addMask => "add-mask"
  | group => "group"
  | endGroup => "endgroup"
  | warning => "warning"
  | error => "error"
  | notice => "notice"
  | debug => "debug"

/-- All of them. -/
def CommandName.all : List CommandName := [.addMask, .group, .endGroup, .warning, .error, .notice, .debug]

/-- `Command`; parameters that are absent are none. -/
structure Command where
  name : CommandName
  parameters : GoMap Bytes Bytes
  message : Bytes
deriving DecidableEq

/-- The parameters `k=v`, separated by commas. -/
def parseParams (s : Bytes) : GoMap Bytes Bytes :=
  (s.splitOn (byte ',')).foldl (fun out part =>
    match Bytes.index [byte '='] part with
    | some eq => if 0 < eq then out.insert (part.take eq) (part.drop (eq + 1)) else out
    | none => out) ∅

/-- `Parse`; `none` is an ordinary line. -/
def parseCommand (line : Bytes) : Option Command :=
  if (ofString "::").isPrefixOf line = false then none
  else
    let rest := line.drop 2
    match Bytes.index (ofString "::") rest with
    | none => none
    | some stop =>
      let head := rest.take stop
      let (name, parameters) := match Bytes.index [byte ' '] head with
        | some idx => (head.take idx, parseParams (head.drop (idx + 1)))
        | none => (head, ∅)
      (CommandName.all.find? fun c => ofString c.text = Bytes.toLower (Bytes.trimSpace name)).map fun c =>
        { name := c, parameters := parameters, message := rest.drop (stop + 2) }

/-- `strings.TrimSuffix` with one byte. -/
def trimLast (b : UInt8) (s : Bytes) : Bytes := if s.getLast? = some b then s.dropLast else s

/-- The lines of a file; the last newline ends a line. -/
def splitLines (s : Bytes) : List Bytes :=
  let s := Replace.replaceAll [byte '\r', byte '\n'] [byte '\n'] s
  if s = [] then [] else (trimLast (byte '\n') s).splitOn (byte '\n')

/-- The lines of a heredoc up to its delimiter, and those after it. -/
def heredocBody (delim : Bytes) : List Bytes → Option (List Bytes × List Bytes)
  | [] => none
  | line :: rest =>
    if line = delim then some ([], rest)
    else (heredocBody delim rest).map fun r => (line :: r.1, r.2)

/-- The loop of `ParseKVFile` over the lines. The fuel bounds the number of rounds. -/
def parseKVLines : Nat → List Bytes → Except Bytes (List (Bytes × Bytes))
  | 0, _ => .ok []
  | _, [] => .ok []
  | fuel + 1, line :: rest =>
    if line.trimSpace = [] then parseKVLines fuel rest
    else
      match Bytes.index (ofString "<<") line with
      | some (idx + 1) =>
        let key := Bytes.trimSpace (line.take (idx + 1))
        let delim := Bytes.trimSpace (line.drop (idx + 3))
        if key = [] ∨ delim = [] then
          .error (ofString "filecommand: malformed heredoc opener " ++ Bytes.quote line)
        else
          match heredocBody delim rest with
          | none =>
            .error (ofString "filecommand: heredoc for " ++ Bytes.quote key ++ ofString " not closed by " ++
              Bytes.quote delim)
          | some (body, rest) =>
            (parseKVLines fuel rest).map ((key, Bytes.join [byte '\n'] body) :: ·)
      | _ =>
        match Bytes.index [byte '='] line with
        | some (eq + 1) =>
          (parseKVLines fuel rest).map ((Bytes.trimSpace (line.take (eq + 1)), line.drop (eq + 2)) :: ·)
        | _ =>
          .error (ofString "filecommand: malformed line " ++ Bytes.quote line ++
            ofString " (want NAME=value or NAME<<DELIM)")

/-- The entries of `GITHUB_ENV` or `GITHUB_OUTPUT`. -/
def parseKVFile (data : Bytes) : Except Bytes (List (Bytes × Bytes)) :=
  parseKVLines (splitLines data).length (splitLines data)

/-- `Apply`, the assignments one after the other. -/
def applyKVs (env : GoMap Bytes Bytes) (kvs : List (Bytes × Bytes)) : GoMap Bytes Bytes :=
  kvs.foldl (fun env kv => env.insert kv.1 kv.2) env

/-- The entries of `GITHUB_PATH`. -/
def parsePathFile (data : Bytes) : List Bytes := (splitLines data).filter fun line => line.trimSpace ≠ []

end Forgelet.Executor
