import Forgelet.Lib.Float64

/-!
# The expression lexer

`internal/workflow/expression/lexer.go`. The lexer reads bytes, and so do its offsets and columns. A `Cursor` is its
state; what a case of `next` consumes is computed from the rest of the text, and the cursor moves over it byte by byte.
-/

namespace Forgelet.Expression

open Bytes (byte ofString)

/-- `ParseError`, with a byte offset and a line and column that start at 1. -/
structure ParseError where
  expr : Bytes
  offset : Nat
  line : Nat
  column : Nat
  msg : Bytes
deriving DecidableEq

/-- Operators and brackets. -/
inductive Punct
  | not
  | and
  | or
  | eq
  | ne
  | lt
  | le
  | gt
  | ge
  | dot
  | lbrack
  | rbrack
  | lparen
  | rparen
  | comma
deriving DecidableEq

/-- The operator as it is written. -/
def Punct.text : Punct → String
  | not => "!"
  | and => "&&"
  | or => "||"
  | eq => "=="
  | ne => "!="
  | lt => "<"
  | le => "<="
  | gt => ">"
  | ge => ">="
  | dot => "."
  | lbrack => "["
  | rbrack => "]"
  | lparen => "("
  | rparen => ")"
  | comma => ","

/-- What a token is: its kind with the decoded value. -/
inductive Tok
  | eof
  | ident (text : Bytes)
  | number (num : Float64) (text : Bytes)
  | string (str : Bytes)
  | punct (p : Punct)
deriving DecidableEq

/-- A token and where it stands. -/
structure Token where
  tok : Tok
  start : Nat
  line : Nat
  col : Nat
deriving DecidableEq

/-- The state of the lexer: the text that remains and the position it starts at. -/
structure Cursor where
  rest : Bytes
  pos : Nat
  line : Nat
  col : Nat
deriving DecidableEq

namespace Cursor

/-- `newLexer`. -/
def start (src : Bytes) : Cursor where
  rest := src
  pos := 0
  line := 1
  col := 1

/-- `advance` over the byte `c`. -/
def advance (cur : Cursor) (c : UInt8) : Cursor where
  rest := cur.rest.tail
  pos := cur.pos + 1
  line := if c == 10 then cur.line + 1 else cur.line
  col := if c == 10 then 1 else cur.col + 1

/-- The cursor after the bytes `consumed`. -/
def advanceAll (cur : Cursor) (consumed : Bytes) : Cursor := consumed.foldl advance cur

/-- The token of kind `tok` that starts at the cursor. -/
def token (cur : Cursor) (tok : Tok) : Token where
  tok := tok
  start := cur.pos
  line := cur.line
  col := cur.col

/-- `errf` at the cursor. -/
def errf (src : Bytes) (cur : Cursor) (msg : Bytes) : ParseError where
  expr := src
  offset := cur.pos
  line := cur.line
  column := cur.col
  msg := msg

end Cursor

/-! ## Character classes -/

/-- What separates tokens. -/
def isBlank (c : UInt8) : Bool := c == 0x20 || c == 9 || c == 13 || c == 10

/-- What an identifier starts with. -/
def isIdentStart (c : UInt8) : Bool :=
  (0x61 ≤ c && c ≤ 0x7A) || (0x41 ≤ c && c ≤ 0x5A) || c == byte '_'

/-- What an identifier goes on with. -/
def isIdentPart (c : UInt8) : Bool := isIdentStart c || Bytes.isDigit c || c == byte '-'

/-- A digit comes next. -/
def startsWithDigit : Bytes → Bool
  | c :: _ => Bytes.isDigit c
  | [] => false

/-! ## Tokens -/

/-- The loop over the digits of a number: at most one point, and only before a digit. -/
def numberBody (hasDot : Bool) : Bytes → Bytes
  | [] => []
  | c :: rest =>
    if Bytes.isDigit c then c :: numberBody hasDot rest
    else if c == byte '.' && !hasDot && startsWithDigit rest then c :: numberBody true rest
    else []

/-- The text of a number, with its sign. -/
def numberText : Bytes → Bytes
  | [] => []
  | c :: rest => if c == byte '-' then c :: numberBody false rest else numberBody false (c :: rest)

/-- The loop over a string literal: the decoded text and what was consumed. Two quotes stand for one. -/
def stringBody : Bytes → Option (Bytes × Bytes)
  | [] => none
  | c :: rest =>
    if c == byte '\'' then
      match rest with
      | d :: rest' =>
        if d == byte '\'' then (stringBody rest').map fun r => (d :: r.1, c :: d :: r.2)
        else some ([], [c])
      | [] => some ([], [c])
    else (stringBody rest).map fun r => (c :: r.1, c :: r.2)

/-- The operators of two characters, in the order in which they are tried. -/
def longPuncts : List Punct := [.and, .or, .eq, .ne, .le, .ge]

/-- The operators of one character. -/
def shortPuncts : List Punct := [.not, .lt, .gt, .dot, .lbrack, .rbrack, .lparen, .rparen, .comma]

/-- The punctuation a text starts with, the longest match first. -/
def punctAt (s : Bytes) : Option Punct :=
  (longPuncts ++ shortPuncts).find? fun p => (ofString p.text).isPrefixOf s

/-- `string(c)`: the encoding of the code point with the value of the byte. -/
def runeText (c : UInt8) : Bytes := String.utf8EncodeChar (Char.ofNat c.toNat)

/-- What is wrong with a character that starts no token. -/
def unexpected (c : UInt8) : Bytes :=
  if c == byte '"' then ofString "double-quoted strings are not supported; use single quotes"
  else if c ∈ ofString "+-*/%" then
    ofString "arithmetic operator " ++ Bytes.quote (runeText c) ++
      ofString " is not in the supported subset"
  else ofString "unexpected character " ++ Bytes.quote (runeText c)

/-- `next` after the white space. -/
def lexToken (src : Bytes) (cur : Cursor) : Except ParseError (Token × Cursor) :=
  match cur.rest with
  | [] => .ok (cur.token .eof, cur)
  | c :: rest =>
    if isIdentStart c then
      let text := cur.rest.takeWhile isIdentPart
      .ok (cur.token (.ident text), cur.advanceAll text)
    else if Bytes.isDigit c || (c == byte '-' && startsWithDigit rest) then
      let digits := numberText cur.rest
      match Float64.parse digits with
      | none => .error (cur.errf src (ofString "bad number " ++ Bytes.quote digits))
      | some num => .ok (cur.token (.number num digits), cur.advanceAll digits)
    else if c == byte '\'' then
      match stringBody rest with
      | none => .error (cur.errf src (ofString "unterminated string"))
      | some (text, consumed) => .ok (cur.token (.string text), cur.advanceAll (c :: consumed))
    else
      match punctAt cur.rest with
      | some p => .ok (cur.token (.punct p), cur.advanceAll (ofString p.text))
      | none => .error (cur.errf src (unexpected c))

/-- `next`. -/
def lexNext (src : Bytes) (cur : Cursor) : Except ParseError (Token × Cursor) :=
  lexToken src (cur.advanceAll (cur.rest.takeWhile isBlank))

/-- The loop of `tokens`. The length of the text bounds the number of rounds. -/
def tokensFrom (src : Bytes) : Nat → Cursor → List Token → Except ParseError (List Token)
  | 0, cur, _ => .error (cur.errf src (ofString "lexer: out of fuel"))
  | fuel + 1, cur, out =>
    match lexNext src cur with
    | .error err => .error err
    | .ok (tok, cur) =>
      if tok.tok = .eof then .ok (out ++ [tok]) else tokensFrom src fuel cur (out ++ [tok])

/-- `tokens` tokenizes the whole input. -/
def tokens (src : Bytes) : Except ParseError (List Token) :=
  tokensFrom src (src.length + 1) (Cursor.start src) []

end Forgelet.Expression
