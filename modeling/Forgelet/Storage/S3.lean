import Forgelet.Lib.Bytes
import Forgelet.Scheduler.Port

/-!
# The object store

The names of objects and `CacheResolve` (`internal/storage/s3/store.go`). The first eight hexadecimal digits of the
SHA-256 sum of a key are a parameter, and so is the bucket: a request may fail, and a listing is in any order.
-/

namespace Forgelet.S3

open Bytes (ofString byte trimSpace)

/-- `model.RepositoryRef`, as byte strings. -/
structure Repository where
  provider : Bytes
  owner : Bytes
  name : Bytes
deriving DecidableEq

/-- The hash of a key: eight lower case hexadecimal digits. -/
structure Digest where
  hash : Bytes → Bytes
  length : ∀ key, (hash key).length = 8
  hex : ∀ key, ∀ b ∈ hash key, b ∈ ofString "0123456789abcdef"

/-- `strings.Map` in `sanitizePrefix`, for one code point. -/
def sanitizeRune (r : Char) : UInt8 :=
  if ('a' ≤ r ∧ r ≤ 'z') ∨ ('A' ≤ r ∧ r ≤ 'Z') ∨ ('0' ≤ r ∧ r ≤ '9') ∨ r = '-' ∨ r = '_' then byte r else byte '-'

/-- `strings.Trim` of dashes. -/
def trimDashes (s : Bytes) : Bytes :=
  ((s.dropWhile (· == byte '-')).reverse.dropWhile (· == byte '-')).reverse

/-- The readable part of an object name. -/
def sanitizePrefix (key : Bytes) : Bytes :=
  let sanitized := trimDashes ((key.runes.map sanitizeRune).take 100)
  if sanitized = [] then ofString "key" else sanitized

/-- The readable part and the hash. -/
def sanitizeKey (d : Digest) (key : Bytes) : Bytes := sanitizePrefix key ++ byte '-' :: d.hash key

/-- An object of a repository. -/
def objectName (repo : Repository) (rest : Bytes) : Bytes :=
  repo.provider ++ byte '/' :: (repo.owner ++ byte '/' :: (repo.name ++ byte '/' :: rest))

/-- What the names of the caches of a repository start with. -/
def cachePrefix (repo : Repository) (rest : Bytes) : Bytes := objectName repo (ofString "cache/" ++ rest)

/-- The object of a cache. -/
def cacheKey (d : Digest) (repo : Repository) (key : Bytes) : Bytes := cachePrefix repo (sanitizeKey d key)

/-- The object of an artifact. -/
def artifactKey (repo : Repository) (runID name : Bytes) : Bytes :=
  objectName repo (ofString "artifacts/" ++ (runID ++ byte '/' :: (name ++ ofString ".tar.gz")))

/-- `Exists` and `ListObjects`: what is found is there, and listed objects have the prefix. -/
structure Bucket where
  objects : List Bytes
  stat : Bytes → Except Err Bool
  list : Bytes → List (Except Err Bytes)
  stat_ok : ∀ k found, stat k = .ok found → (found ↔ k ∈ objects)
  list_ok : ∀ p k, .ok k ∈ list p → k ∈ objects ∧ p <+: k

/-- The first object of a listing; errors are passed over. -/
def firstListed : List (Except Err Bytes) → Option Bytes
  | [] => none
  | .error _ :: rest => firstListed rest
  | .ok k :: _ => some k

/-- The loop of `CacheResolve` over the restore keys. -/
def resolveRestore (d : Digest) (b : Bucket) (repo : Repository) : List Bytes → Except Err (Option Bytes)
  | [] => .ok none
  | rk :: rest =>
    let rk := trimSpace rk
    if rk = [] then resolveRestore d b repo rest
    else
      match b.stat (cacheKey d repo rk) with
      | .error err => .error err
      | .ok true => .ok (some (cacheKey d repo rk))
      | .ok false =>
        match firstListed (b.list (cachePrefix repo (sanitizePrefix rk))) with
        | some k => .ok (some k)
        | none => resolveRestore d b repo rest

/-- `CacheResolve`: the object that hit. -/
def cacheResolve (d : Digest) (b : Bucket) (repo : Repository) (key : Bytes) (restoreKeys : List Bytes) :
    Except Err (Option Bytes) :=
  match b.stat (cacheKey d repo key) with
  | .error err => .error err
  | .ok true => .ok (some (cacheKey d repo key))
  | .ok false => resolveRestore d b repo restoreKeys

end Forgelet.S3
