import Forgelet.Lib.Bytes
import Forgelet.Lib.Entries

/-!
# JSON as `encoding/json` reads and writes it

`Decoder.Decode` into an empty interface with `UseNumber`, and `Marshal`. The decoder takes the first value of its
input and does not look further. Errors are the texts of the scanner, which stops at the first byte that no value
continues with.
-/

/-- A decoded value. A number keeps its text; an object keeps the order of its keys. -/
inductive Json
  | null
  | bool (b : Bool)
  | number (text : Bytes)
  | string (s : Bytes)
  | array (items : List Json)
  | object (entries : List (Bytes × Json))

namespace Json

open Bytes (byte ofString)

/-! ## Reading -/

/-- The errors of the scanner: the input ended, or a byte did not fit. -/
inductive ScanError
  | eof
  | unexpectedEOF
  | invalid (c : UInt8) (context : String)
  | maxDepth
deriving DecidableEq

/-- A byte in single quotes: `quoteChar`. -/
def quoteChar (c : UInt8) : Bytes :=
  if c == byte '\'' then ofString "'\\''"
  else if c == byte '"' then ofString "'\"'"
  else
    let quoted := Bytes.quote (String.utf8EncodeChar (Char.ofNat c.toNat))
    [byte '\''] ++ (quoted.drop 1).dropLast ++ [byte '\'']

/-- `error.Error`. -/
def ScanError.text : ScanError → Bytes
  | eof => ofString "EOF"
  | unexpectedEOF => ofString "unexpected EOF"
  | invalid c context => ofString "invalid character " ++ quoteChar c ++ ofString (" " ++ context)
  | maxDepth => ofString "exceeded max depth"

/-- White space between tokens. -/
def isSpace (c : UInt8) : Bool := c == 0x20 || c == 9 || c == 13 || c == 10

/-- The text after white space. -/
def skipSpace (s : Bytes) : Bytes := s.dropWhile isSpace

/-- The rest of a literal of which `done` has been read. -/
def literal (name : String) (value : Json) : Bytes → Bytes → Except ScanError (Json × Bytes)
  | [], s => .ok (value, s)
  | _ :: _, [] => .error .unexpectedEOF
  | want :: more, c :: rest =>
    if c == want then literal name value more rest
    else .error (.invalid c ("in literal " ++ name ++ " (expecting '" ++
      String.ofList [Char.ofNat want.toNat] ++ "')"))

/-- At least one digit, and what follows the digits. -/
def digits1 (context : String) (s : Bytes) : Except ScanError (Bytes × Bytes) :=
  match s with
  | [] => .error .unexpectedEOF
  | c :: _ =>
    if Bytes.isDigit c then .ok (s.takeWhile Bytes.isDigit, s.dropWhile Bytes.isDigit)
    else .error (.invalid c context)

/-- The integer part of a number: a zero, or digits that do not start with one. -/
def integerPart (s : Bytes) : Except ScanError (Bytes × Bytes) :=
  match s with
  | [] => .error .unexpectedEOF
  | c :: rest => if c == byte '0' then .ok ([c], rest) else digits1 "in numeric literal" s

/-- The fraction of a number, if it has one. -/
def fractionPart (s : Bytes) : Except ScanError (Bytes × Bytes) :=
  match s with
  | c :: rest =>
    if c == byte '.' then do
      let (ds, rest) ← digits1 "after decimal point in numeric literal" rest
      return (c :: ds, rest)
    else return ([], s)
  | [] => return ([], [])

/-- The exponent of a number, if it has one. -/
def exponentPart (s : Bytes) : Except ScanError (Bytes × Bytes) :=
  match s with
  | c :: rest =>
    if c == byte 'e' || c == byte 'E' then
      let (sign, rest) := match rest with
        | d :: rest' => if d == byte '+' || d == byte '-' then ([d], rest') else ([], rest)
        | [] => ([], [])
      do
        let (ds, rest) ← digits1 "in exponent of numeric literal" rest
        return (c :: sign ++ ds, rest)
    else return ([], s)
  | [] => return ([], [])

/-- A number, kept as it is written. -/
def numberLiteral (s : Bytes) : Except ScanError (Json × Bytes) := do
  let (sign, s) := match s with
    | c :: rest => if c == byte '-' then ([c], rest) else ([], s)
    | [] => ([], [])
  let (whole, s) ← integerPart s
  let (fraction, s) ← fractionPart s
  let (exponent, s) ← exponentPart s
  return (.number (sign ++ whole ++ fraction ++ exponent), s)

/-- The value of a hexadecimal digit. -/
def hexValue (c : UInt8) : Option Nat :=
  if Bytes.isDigit c then some (c.toNat - 48)
  else if 0x61 ≤ c && c ≤ 0x66 then some (c.toNat - 87)
  else if 0x41 ≤ c && c ≤ 0x46 then some (c.toNat - 55)
  else none

/-- One element of a string literal: a byte, an escaped byte or an escaped code unit. -/
inductive Piece
  | plain (c : UInt8)
  | escaped (c : UInt8)
  | unit (n : Nat)
deriving DecidableEq

/-- The four digits of a `\u` escape. -/
def hex4 : Nat → Nat → Bytes → Except ScanError (Nat × Bytes)
  | 0, n, s => .ok (n, s)
  | _ + 1, _, [] => .error .unexpectedEOF
  | k + 1, n, c :: rest =>
    match hexValue c with
    | some d => hex4 k (n * 16 + d) rest
    | none => .error (.invalid c "in \\u hexadecimal character escape")

/-- The pieces of a string literal up to its closing quote, with fuel. -/
def pieces : Nat → Bytes → Except ScanError (List Piece × Bytes)
  | 0, _ => .error .unexpectedEOF
  | _ + 1, [] => .error .unexpectedEOF
  | fuel + 1, c :: rest =>
    if c == byte '"' then .ok ([], rest)
    else if c == byte '\\' then
      match rest with
      | [] => .error .unexpectedEOF
      | e :: rest =>
        if e == byte 'u' then do
          let (n, rest) ← hex4 4 0 rest
          let (ps, rest) ← pieces fuel rest
          return (.unit n :: ps, rest)
        else if e ∈ ofString "bfnrt\\/\"" then do
          let (ps, rest) ← pieces fuel rest
          return (.escaped e :: ps, rest)
        else .error (.invalid e "in string escape code")
    else if c < 0x20 then .error (.invalid c "in string literal")
    else do
      let (ps, rest) ← pieces fuel rest
      return (.plain c :: ps, rest)

/-- The byte that an escape of one letter stands for. -/
def unescape (e : UInt8) : UInt8 :=
  if e == byte 'b' then 8
  else if e == byte 'f' then 12
  else if e == byte 'n' then 10
  else if e == byte 'r' then 13
  else if e == byte 't' then 9
  else e

/-- What an unpaired surrogate becomes. -/
def replacement : Bytes := String.utf8EncodeChar Bytes.runeError

/-- The text of the pieces. Invalid bytes and unpaired surrogates become U+FFFD. -/
def unquote (plain : Bytes) : List Piece → Bytes
  | [] => flush plain
  | .plain c :: rest => unquote (plain ++ [c]) rest
  | .escaped e :: rest => flush plain ++ [unescape e] ++ unquote [] rest
  | .unit hi :: .unit lo :: rest =>
    if 0xD800 ≤ hi && hi < 0xDC00 && 0xDC00 ≤ lo && lo < 0xE000 then
      flush plain ++
        String.utf8EncodeChar (Char.ofNat ((hi - 0xD800) * 1024 + (lo - 0xDC00) + 0x10000)) ++
        unquote [] rest
    else flush plain ++ encodeUnit hi ++ unquote [] (.unit lo :: rest)
  | .unit n :: rest => flush plain ++ encodeUnit n ++ unquote [] rest
where
  flush (plain : Bytes) : Bytes := plain.runes.flatMap String.utf8EncodeChar
  encodeUnit (n : Nat) : Bytes :=
    if 0xD800 ≤ n && n < 0xE000 then replacement else String.utf8EncodeChar (Char.ofNat n)

/-- A string, after its opening quote. -/
def stringBody (s : Bytes) : Except ScanError (Bytes × Bytes) := do
  let (ps, rest) ← pieces (s.length + 1) s
  return (unquote [] ps, rest)

mutual

/-- A value at the given depth of nesting, with fuel. -/
def value : Nat → Nat → Bytes → Except ScanError (Json × Bytes)
  | 0, _, _ => .error .maxDepth
  | fuel + 1, depth, s =>
    match skipSpace s with
    | [] => .error .unexpectedEOF
    | c :: rest =>
      if c == byte '{' then
        if 10000 < depth + 1 then .error .maxDepth
        else match skipSpace rest with
          | [] => .error .unexpectedEOF
          | d :: rest' =>
            if d == byte '}' then .ok (.object [], rest') else members fuel (depth + 1) [] rest
      else if c == byte '[' then
        if 10000 < depth + 1 then .error .maxDepth
        else match skipSpace rest with
          | [] => .error .unexpectedEOF
          | d :: rest' =>
            if d == byte ']' then .ok (.array [], rest') else elements fuel (depth + 1) [] rest
      else if c == byte '"' then do
        let (text, rest) ← stringBody rest
        return (.string text, rest)
      else if c == byte 't' then literal "true" (.bool true) (ofString "rue") rest
      else if c == byte 'f' then literal "false" (.bool false) (ofString "alse") rest
      else if c == byte 'n' then literal "null" .null (ofString "ull") rest
      else if c == byte '-' || Bytes.isDigit c then numberLiteral (c :: rest)
      else .error (.invalid c "looking for beginning of value")

/-- The elements of an array. -/
def elements : Nat → Nat → List Json → Bytes → Except ScanError (Json × Bytes)
  | 0, _, _, _ => .error .maxDepth
  | fuel + 1, depth, done, s => do
    let (item, s) ← value fuel depth s
    match skipSpace s with
    | [] => .error .unexpectedEOF
    | c :: rest =>
      if c == byte ',' then elements fuel depth (done ++ [item]) rest
      else if c == byte ']' then .ok (.array (done ++ [item]), rest)
      else .error (.invalid c "after array element")

/-- The members of an object. -/
def members : Nat → Nat → List (Bytes × Json) → Bytes → Except ScanError (Json × Bytes)
  | 0, _, _, _ => .error .maxDepth
  | fuel + 1, depth, done, s =>
    match skipSpace s with
    | [] => .error .unexpectedEOF
    | c :: rest =>
      if c == byte '"' then do
        let (key, s) ← stringBody rest
        match skipSpace s with
        | [] => .error .unexpectedEOF
        | c :: s =>
          if c == byte ':' then do
            let (item, s) ← value fuel depth s
            match skipSpace s with
            | [] => .error .unexpectedEOF
            | c :: rest =>
              if c == byte ',' then members fuel depth (Entries.assign key item done) rest
              else if c == byte '}' then .ok (.object (Entries.assign key item done), rest)
              else .error (.invalid c "after object key:value pair")
          else .error (.invalid c "after object key")
      else .error (.invalid c "looking for beginning of object key string")

end

/-- `Decoder.Decode` on a text. -/
def decode (s : Bytes) : Except ScanError Json :=
  if (skipSpace s).isEmpty then .error .eof
  else (value (2 * s.length + 2) 0 s).map (·.1)

/-! ## Writing -/

/-- What `Marshal` writes for one code point of a string. -/
def escapeChunk (c : Char × Bytes) : Bytes :=
  let n := c.1.toNat
  match c.2 with
  | [b] =>
    if 0x80 ≤ b then ofString "\\ufffd"
    else if b == byte '"' || b == byte '\\' then [byte '\\', b]
    else if b == 8 then ofString "\\b"
    else if b == 12 then ofString "\\f"
    else if b == 10 then ofString "\\n"
    else if b == 13 then ofString "\\r"
    else if b == 9 then ofString "\\t"
    else if b < 0x20 || b == byte '<' || b == byte '>' || b == byte '&' then
      ofString "\\u00" ++ Bytes.hex 2 b.toNat
    else [b]
  | bytes => if n == 0x2028 || n == 0x2029 then ofString "\\u" ++ Bytes.hex 4 n else bytes

/-- A string with its escapes. -/
def quote (s : Bytes) : Bytes := [byte '"'] ++ s.chunks.flatMap escapeChunk ++ [byte '"']

/-- `isValidNumber`: the whole text is a number. -/
def isValidNumber (s : Bytes) : Bool :=
  match s with
  | [] => false
  | _ => match numberLiteral s with
    | .ok (_, []) => true
    | _ => false

mutual

/-- `Marshal`: members are sorted by key, and a number whose text is none is an error. -/
def marshal : Json → Except Bytes Bytes
  | .null => .ok (ofString "null")
  | .bool b => .ok (ofString (if b then "true" else "false"))
  | .number text =>
    if isValidNumber text then .ok text
    else .error (ofString "json: invalid number literal " ++ Bytes.quote text)
  | .string s => .ok (quote s)
  | .array items => do
    let texts ← marshalItems items
    return [byte '['] ++ Bytes.join [byte ','] texts ++ [byte ']']
  | .object entries => do
    let texts ← marshalEntries entries
    let sorted := texts.insertionSort fun a b => Bytes.le a.1 b.1 = true
    return [byte '{'] ++
      Bytes.join [byte ','] (sorted.map fun e => quote e.1 ++ [byte ':'] ++ e.2) ++ [byte '}']

/-- The texts of the elements. -/
def marshalItems : List Json → Except Bytes (List Bytes)
  | [] => .ok []
  | item :: rest => do
    let text ← marshal item
    let texts ← marshalItems rest
    return text :: texts

/-- The texts of the members. -/
def marshalEntries : List (Bytes × Json) → Except Bytes (List (Bytes × Bytes))
  | [] => .ok []
  | (key, item) :: rest => do
    let text ← marshal item
    let texts ← marshalEntries rest
    return (key, text) :: texts

end

end Json
