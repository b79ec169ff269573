import Forgelet.Lib.Bytes

/-!
# Go's `path.Match`

The glob matcher of the package `path`: `*` matches any bytes other than `/`, `?` one code point other than `/`, `[..]`
a class of code points, and a backslash quotes what follows. A `*` may end inside the encoding of a code point.
-/

namespace Glob

open Bytes (byte decodeRune ofString runeError)

/-- `ErrBadPattern`. -/
structure BadPattern where
deriving DecidableEq, Repr

/-- The first code point of a text that is not empty, and the rest. -/
def decode : Bytes → Char × Bytes
  | [] => (runeError, [])
  | b :: rest => let (r, width) := decodeRune b rest; (r, (b :: rest).drop width)

/-- `getEsc`: a possibly quoted character of a class, and the rest. -/
def getEsc (chunk : Bytes) : Except BadPattern (Char × Bytes) :=
  if chunk.head? = some (byte '-') || chunk.head? = some (byte ']') then .error {}
  else
    match if chunk.head? = some (byte '\\') then chunk.drop 1 else chunk with
    | [] => .error {}
    | b :: rest =>
      let (r, width) := decodeRune b rest
      let rest := (b :: rest).drop width
      if (r = runeError && width = 1) || rest.isEmpty then .error {} else .ok (r, rest)

/-- Whether `r` is in a range of a class; `nrange` counts those seen. -/
def ranges (r : Char) (found : Bool) (nrange : Nat) : Nat → Bytes → Except BadPattern (Bool × Bytes)
  | 0, _ => .error {}
  | fuel + 1, chunk =>
    if chunk.head? = some (byte ']') && 0 < nrange then .ok (found, chunk.drop 1)
    else
      match getEsc chunk with
      | .error e => .error e
      | .ok (lo, rest) =>
        match if rest.head? = some (byte '-') then getEsc (rest.drop 1) else .ok (lo, rest) with
        | .error e => .error e
        | .ok (hi, rest) =>
          ranges r (found || (lo.toNat ≤ r.toNat && r.toNat ≤ hi.toNat)) (nrange + 1) fuel rest

/-- Matches a chunk against the beginning of `s`; after a mismatch the rest is only checked to be well formed. -/
def matchChunk : Nat → Bytes → Option Bytes → Except BadPattern (Option Bytes)
  | 0, _, s => .ok s
  | _, [], s => .ok s
  | fuel + 1, c :: chunk, s =>
    -- a name that is used up fails the match
    let s := if s = some [] then none else s
    if c = byte '[' then
      let negated := chunk.head? = some (byte '^')
      let chunk := if negated then chunk.drop 1 else chunk
      let r := (s.map (decode · |>.1)).getD '\x00'
      match ranges r false 0 (chunk.length + 1) chunk with
      | .error e => .error e
      | .ok (found, rest) => matchChunk fuel rest (if found = negated then none else s.map (decode · |>.2))
    else if c = byte '?' then
      matchChunk fuel chunk (s.bind fun s => if s.head? = some (byte '/') then none else some (decode s).2)
    else
      match if c = byte '\\' then chunk else c :: chunk with
      | [] => .error {}
      | c :: chunk => matchChunk fuel chunk (s.bind fun s => if s.head? = some c then some (s.drop 1) else none)

/-- The length of the first chunk: up to the first `*` outside a class. -/
def chunkLength (inrange : Bool) : Bytes → Nat
  | [] => 0
  | [b] => if b = byte '*' && !inrange then 0 else 1
  | b :: c :: rest =>
    if b = byte '\\' then chunkLength inrange rest + 2
    else if b = byte '*' && !inrange then 0
    else chunkLength (b = byte '[' || (inrange && b != byte ']')) (c :: rest) + 1

/-- `scanChunk`: whether the pattern begins with `*`, its first chunk and the rest. -/
def scanChunk (pattern : Bytes) : Bool × Bytes × Bytes :=
  let rest := pattern.dropWhile (· == byte '*')
  let n := chunkLength false rest
  (pattern.head? == some (byte '*'), rest.take n, rest.drop n)

/-- The rest of a pattern is still checked after a mismatch. -/
def wellFormed : Nat → Bytes → Except BadPattern Unit
  | 0, _ => .ok ()
  | fuel + 1, pattern =>
    if pattern.isEmpty then .ok ()
    else
      let (_, chunk, rest) := scanChunk pattern
      match matchChunk (chunk.length + 1) chunk none with
      | .error e => .error e
      | .ok _ => wellFormed fuel rest

/-- The places after a `*` at which the chunk is tried; no `/` is skipped. -/
def skips : Bytes → List Bytes
  | [] => []
  | b :: rest => if b = byte '/' then [] else rest :: skips rest

/-- The first place at which the chunk matches; the last chunk uses up the name. -/
def firstMatch (chunk : Bytes) (last : Bool) : List Bytes → Except BadPattern (Option Bytes)
  | [] => .ok none
  | s :: rest =>
    match matchChunk (chunk.length + 1) chunk (some s) with
    | .error e => .error e
    | .ok none => firstMatch chunk last rest
    | .ok (some t) => if last && !t.isEmpty then firstMatch chunk last rest else .ok (some t)

/-- The loop of `Match` over the chunks. -/
def matchLoop : Nat → Bytes → Bytes → Except BadPattern Bool
  | 0, _, _ => .ok false
  | fuel + 1, pattern, name =>
    if pattern.isEmpty then .ok name.isEmpty
    else
      let (star, chunk, rest) := scanChunk pattern
      if star && chunk.isEmpty then .ok (byte '/' ∉ name)
      else
        let places := name :: if star then skips name else []
        match firstMatch chunk rest.isEmpty places with
        | .error e => .error e
        | .ok (some t) => matchLoop fuel rest t
        | .ok none =>
          match wellFormed (rest.length + 1) rest with
          | .error e => .error e
          | .ok () => .ok false

/-- `path.Match`. -/
def pathMatch (pattern name : String) : Except BadPattern Bool :=
  matchLoop ((ofString pattern).length + 1) (ofString pattern) (ofString name)

example : pathMatch "release/*" "release/1.0" = .ok true := by decide
example : pathMatch "v[0-9]?" "v1x" = .ok true := by decide
example : pathMatch "v[" "v1" = .error {} := by decide
example : pathMatch "*??" "€" = .ok true := by decide +kernel

end Glob
