import Forgelet.Expression.Lexer
import Forgelet.Expression.Value

/-!
# The expression parser

`internal/workflow/expression/parser.go`: recursive descent over the tokens from the current one on. The calls are
counted by a fuel; `parse` gives enough of it for every token list.
-/

namespace Forgelet.Expression

open Bytes (byte ofString)

/-- The operators of two sides. -/
inductive BinOp
  | or
  | and
  | eq
  | ne
  | lt
  | le
  | gt
  | ge
deriving DecidableEq

/-- `node`, the syntax tree of expressions. The only unary operator is `!`. -/
inductive Node
  | literal (v : Value)
  | ident (name : Bytes)
  | member (obj prop : Node)
  | unary (x : Node)
  | binary (op : BinOp) (l r : Node)
  | call (name : Bytes) (args : List Node)

/-! ## The token list -/

/-- `cur`. The list of a lexed text is never empty. -/
def cur : List Token → Token
  | t :: _ => t
  | [] => { tok := .eof, start := 0, line := 0, col := 0 }

/-- `next`, which stays at the end of the text. -/
def next : List Token → List Token
  | t :: rest => if t.tok = .eof then t :: rest else rest
  | [] => []

/-- `match`: the tokens after the punctuation `p`, if the current token is one. -/
def accept (p : Punct) (ts : List Token) : Option (List Token) :=
  if (cur ts).tok = .punct p then some (next ts) else none

/-- An error at a token. -/
def errAt (expr : Bytes) (t : Token) (msg : Bytes) : ParseError where
  expr := expr
  offset := t.start
  line := t.line
  column := t.col
  msg := msg

/-- A token in an error message. -/
def describe (t : Token) : Bytes :=
  match t.tok with
  | .eof => ofString "end of expression"
  | .ident text => ofString "identifier " ++ Bytes.quote text
  | .number _ text => ofString "number " ++ text
  | .string str => ofString "string " ++ Bytes.quote str
  | .punct p => Bytes.quote (ofString p.text)

/-- The comparison that a token stands for. -/
def compareOp : Tok → Option BinOp
  | .punct .eq => some .eq
  | .punct .ne => some .ne
  | .punct .lt => some .lt
  | .punct .le => some .le
  | .punct .gt => some .gt
  | .punct .ge => some .ge
  | _ => none

/-- The words that are values. -/
def constant (text : Bytes) : Option Value :=
  if text = ofString "null" then some .null
  else if text = ofString "true" then some (.bool true)
  else if text = ofString "false" then some (.bool false)
  else none

/-- A property after a point: an identifier is a key and a number an index. -/
def property : Node → Option Node
  | .ident name => some (.literal (.str name))
  | .literal (.num f) => some (.literal (.num f))
  | _ => none

/-- What a parsing function returns: a tree and the tokens after it. -/
abbrev Parsed := Except ParseError (Node × List Token)

/-- It does not occur: `parse` gives enough fuel. -/
def outOfFuel (expr : Bytes) (ts : List Token) : ParseError :=
  errAt expr (cur ts) (ofString "parser: out of fuel")

/-! ## Recursive descent -/

section

variable (expr : Bytes)

mutual

/-- A disjunction. -/
def parseOr : Nat → List Token → Parsed
  | 0, ts => .error (outOfFuel expr ts)
  | fuel + 1, ts =>
    match parseAnd fuel ts with
    | .error err => .error err
    | .ok (left, ts) => orLoop fuel left ts

/-- The loop of `parseOr`. -/
def orLoop : Nat → Node → List Token → Parsed
  | 0, _, ts => .error (outOfFuel expr ts)
  | fuel + 1, left, ts =>
    match accept .or ts with
    | none => .ok (left, ts)
    | some ts =>
      match parseAnd fuel ts with
      | .error err => .error err
      | .ok (right, ts) => orLoop fuel (.binary .or left right) ts

/-- A conjunction. -/
def parseAnd : Nat → List Token → Parsed
  | 0, ts => .error (outOfFuel expr ts)
  | fuel + 1, ts =>
    match parseCompare fuel ts with
    | .error err => .error err
    | .ok (left, ts) => andLoop fuel left ts

/-- The loop of `parseAnd`. -/
def andLoop : Nat → Node → List Token → Parsed
  | 0, _, ts => .error (outOfFuel expr ts)
  | fuel + 1, left, ts =>
    match accept .and ts with
    | none => .ok (left, ts)
    | some ts =>
      match parseCompare fuel ts with
      | .error err => .error err
      | .ok (right, ts) => andLoop fuel (.binary .and left right) ts

/-- A comparison. -/
def parseCompare : Nat → List Token → Parsed
  | 0, ts => .error (outOfFuel expr ts)
  | fuel + 1, ts =>
    match parseUnary fuel ts with
    | .error err => .error err
    | .ok (left, ts) => compareLoop fuel left ts

/-- The loop of `parseCompare`. -/
def compareLoop : Nat → Node → List Token → Parsed
  | 0, _, ts => .error (outOfFuel expr ts)
  | fuel + 1, left, ts =>
    match compareOp (cur ts).tok with
    | none => .ok (left, ts)
    | some op =>
      match parseUnary fuel (next ts) with
      | .error err => .error err
      | .ok (right, ts) => compareLoop fuel (.binary op left right) ts

/-- A negation, or what follows it. -/
def parseUnary : Nat → List Token → Parsed
  | 0, ts => .error (outOfFuel expr ts)
  | fuel + 1, ts =>
    match accept .not ts with
    | some ts =>
      match parseUnary fuel ts with
      | .error err => .error err
      | .ok (x, ts) => .ok (.unary x, ts)
    | none => parsePostfix fuel ts

/-- A primary expression with its accesses. -/
def parsePostfix : Nat → List Token → Parsed
  | 0, ts => .error (outOfFuel expr ts)
  | fuel + 1, ts =>
    match parsePrimary fuel ts with
    | .error err => .error err
    | .ok (x, ts) => postfixLoop fuel x ts

/-- The loop of `parsePostfix`. The property is any primary expression that is an identifier or a number. -/
def postfixLoop : Nat → Node → List Token → Parsed
  | 0, _, ts => .error (outOfFuel expr ts)
  | fuel + 1, x, ts =>
    match accept .dot ts with
    | some ts =>
      match parsePrimary fuel ts with
      | .error err => .error err
      | .ok (prop, ts) =>
        match property prop with
        | some key => postfixLoop fuel (.member x key) ts
        | none => .error (errAt expr (cur ts) (ofString "expected property name after '.'"))
    | none =>
      match accept .lbrack ts with
      | none => .ok (x, ts)
      | some ts =>
        match parseOr fuel ts with
        | .error err => .error err
        | .ok (idx, ts) =>
          match accept .rbrack ts with
          | none => .error (errAt expr (cur ts) (ofString "expected ']'"))
          | some ts => postfixLoop fuel (.member x idx) ts

/-- `parsePrimary`. An unknown function is rejected when the call is evaluated. -/
def parsePrimary : Nat → List Token → Parsed
  | 0, ts => .error (outOfFuel expr ts)
  | fuel + 1, ts =>
    match (cur ts).tok with
    | .number num _ => .ok (.literal (.num num), next ts)
    | .string str => .ok (.literal (.str str), next ts)
    | .ident text =>
      match constant text with
      | some v => .ok (.literal v, next ts)
      | none =>
        match accept .lparen (next ts) with
        | none => .ok (.ident text, next ts)
        | some ts =>
          match accept .rparen ts with
          | some ts => .ok (.call text [], ts)
          | none => argsLoop fuel text [] ts
    | .punct .lparen =>
      match parseOr fuel (next ts) with
      | .error err => .error err
      | .ok (inner, ts) =>
        match accept .rparen ts with
        | none => .error (errAt expr (cur ts) (ofString "expected ')'"))
        | some ts => .ok (inner, ts)
    | _ => .error (errAt expr (cur ts) (ofString "unexpected " ++ describe (cur ts)))

/-- The loop of `parsePrimary` over the arguments of a call. -/
def argsLoop : Nat → Bytes → List Node → List Token → Parsed
  | 0, _, _, ts => .error (outOfFuel expr ts)
  | fuel + 1, name, args, ts =>
    match parseOr fuel ts with
    | .error err => .error err
    | .ok (arg, ts) =>
      match accept .comma ts with
      | some ts => argsLoop fuel name (args ++ [arg]) ts
      | none =>
        match accept .rparen ts with
        | some ts => .ok (.call name (args ++ [arg]), ts)
        | none =>
          .error (errAt expr (cur ts) (ofString "expected ',' or ')' in argument list"))

end

end

/-- `parse`. At most eight nested calls are made for each token consumed. -/
def parse (expr : Bytes) : Except ParseError Node :=
  match tokens expr with
  | .error err => .error err
  | .ok ts =>
    match parseOr expr (8 * (ts.length + 1)) ts with
    | .error err => .error err
    | .ok (n, ts) =>
      if (cur ts).tok = .eof then .ok n
      else .error (errAt expr (cur ts)
        (ofString "unexpected " ++ describe (cur ts) ++ ofString " after expression"))

end Forgelet.Expression
