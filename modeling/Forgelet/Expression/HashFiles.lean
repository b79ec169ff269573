import Forgelet.Lib.Bytes
import Forgelet.Lib.GoMap

/-!
# Hashing files

`DirHasher` of `internal/workflow/expression/hashfiles.go`. `path.Match` and SHA-256 are parameters; of the workspace
there is what the walk through it reports and what is read from its files.
-/

namespace Forgelet.Expression

open Bytes (ofString byte)

section Glob

variable (pathMatch : Bytes → Bytes → Except Bytes Bool)

/-- `matchSegments`. An error behind `**` counts as no match. -/
def matchSegments : List Bytes → List Bytes → Except Bytes Bool
  | [], seg => .ok seg.isEmpty
  | p :: pat, seg =>
    if p = ofString "**" then .ok (seg.tails.any fun rest => (matchSegments pat rest).toOption == some true)
    else
      match seg with
      | [] => .ok false
      | s :: seg =>
        match pathMatch p s with
        | .error err => .error err
        | .ok false => .ok false
        | .ok true => matchSegments pat seg

/-- A path without slashes at its ends, split at the others. -/
def segments (s : Bytes) : List Bytes :=
  let trimmed := ((s.dropWhile (· == byte '/')).reverse.dropWhile (· == byte '/')).reverse
  trimmed.splitOn (byte '/')

/-- A pattern matches a path segment by segment. -/
def matchGlob (pattern name : Bytes) : Except Bytes Bool :=
  matchSegments pathMatch (segments pattern) (segments name)

end Glob

/-- An error of the walk through the workspace. -/
structure WalkError where
  text : Bytes
  notExist : Bool
deriving DecidableEq

/-- The calls of the walk, each with a path and whether its file is regular, and the files. -/
structure Workspace where
  walk : List (Except WalkError (Bytes × Bool))
  read : Bytes → Except Bytes Bytes

section Hash

variable (pathMatch : Bytes → Bytes → Except Bytes Bool) (patterns : List Bytes)

/-- The loop over the patterns. -/
def matchesAny (name : Bytes) : List Bytes → Except WalkError Bool
  | [] => .ok false
  | pat :: rest =>
    match matchGlob pathMatch pat name with
    | .error err => .error ⟨ofString "pattern " ++ Bytes.quote pat ++ ofString ": " ++ err, false⟩
    | .ok true => .ok true
    | .ok false => matchesAny name rest

/-- The walk with the matches so far. -/
def walkMatches (found : GoMap Bytes Bool) :
    List (Except WalkError (Bytes × Bool)) → Except WalkError (GoMap Bytes Bool)
  | [] => .ok found
  | .error err :: _ => .error err
  | .ok (name, regular) :: rest =>
    if regular = false then walkMatches found rest
    else
      match matchesAny pathMatch name patterns with
      | .error err => .error err
      | .ok matched => walkMatches (if matched then found.insert name true else found) rest

/-- The files are written to the hash one after the other. -/
def copyFiles (ws : Workspace) (written : Bytes) : List Bytes → Except Bytes Bytes
  | [] => .ok written
  | f :: rest =>
    match ws.read f with
    | .error err => .error err
    | .ok data => copyFiles ws (written ++ data) rest

/-- `DirHasher.HashFiles`; `sum` is the hash in hexadecimal. -/
def hashFiles (sum : Bytes → Bytes) (ws : Workspace) : Except Bytes Bytes :=
  match walkMatches pathMatch patterns ∅ ws.walk with
  | .error err => if err.notExist then .ok [] else .error err.text
  | .ok found =>
    if found.entries.isEmpty then .ok []
    else (copyFiles ws [] (Bytes.sort found.keys)).map sum

end Hash

end Forgelet.Expression
