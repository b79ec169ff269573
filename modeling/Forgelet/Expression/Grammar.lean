import Forgelet.Expression.Parser

/-!
# The language of expressions

What a text is as a sequence of tokens, and what such a sequence stands for, without positions, error messages and
fuel. The lexer and the parser are shown to decide these two relations.
-/

namespace Forgelet.Expression

open Bytes (byte ofString)

/-- The first token of a text without leading white space, and how it is written. -/
def scan (s : Bytes) : Option (Tok × Bytes) :=
  match s with
  | [] => none
  | c :: rest =>
    if isIdentStart c then some (.ident (s.takeWhile isIdentPart), s.takeWhile isIdentPart)
    else if Bytes.isDigit c || (c == byte '-' && startsWithDigit rest) then
      (Float64.parse (numberText s)).map fun num => (.number num (numberText s), numberText s)
    else if c == byte '\'' then (stringBody rest).map fun r => (.string r.1, c :: r.2)
    else (punctAt s).map fun p => (.punct p, ofString p.text)

/-- The tokens of a text. -/
inductive Lexes : Bytes → List Tok → Prop
  | eof {s : Bytes} (h : s.dropWhile isBlank = []) : Lexes s [.eof]
  | token {s lexeme : Bytes} {tok : Tok} {toks : List Tok} (h : scan (s.dropWhile isBlank) = some (tok, lexeme))
      (hrest : Lexes ((s.dropWhile isBlank).drop lexeme.length) toks) : Lexes s (tok :: toks)

/-- The token that is next; there is no end to the end. -/
def peek : List Tok → Tok
  | t :: _ => t
  | [] => .eof

/-- What is read next: an expression of some rank, or what may follow one. -/
inductive Goal
  | or
  | orTail (left : Node)
  | and
  | andTail (left : Node)
  | compare
  | compareTail (left : Node)
  | unary
  | chain
  | chainTail (x : Node)
  | primary
  | args (name : Bytes) (read : List Node)

/-- A tree is read from the start of a sequence of tokens, and this is left. -/
inductive Parses : Goal → List Tok → Node → List Tok → Prop
  | or {ts ts' r : List Tok} {l n : Node} (hl : Parses .and ts l ts') (h : Parses (.orTail l) ts' n r) :
      Parses .or ts n r
  | orEnd {ts : List Tok} {l : Node} (hend : peek ts ≠ .punct .or) : Parses (.orTail l) ts l ts
  | orMore {ts ts' r : List Tok} {l x n : Node} (hx : Parses .and ts x ts')
      (h : Parses (.orTail (.binary .or l x)) ts' n r) : Parses (.orTail l) (.punct .or :: ts) n r
  | and {ts ts' r : List Tok} {l n : Node} (hl : Parses .compare ts l ts') (h : Parses (.andTail l) ts' n r) :
      Parses .and ts n r
  | andEnd {ts : List Tok} {l : Node} (hend : peek ts ≠ .punct .and) : Parses (.andTail l) ts l ts
  | andMore {ts ts' r : List Tok} {l x n : Node} (hx : Parses .compare ts x ts')
      (h : Parses (.andTail (.binary .and l x)) ts' n r) : Parses (.andTail l) (.punct .and :: ts) n r
  | compare {ts ts' r : List Tok} {l n : Node} (hl : Parses .unary ts l ts') (h : Parses (.compareTail l) ts' n r) :
      Parses .compare ts n r
  | compareEnd {ts : List Tok} {l : Node} (hend : compareOp (peek ts) = none) : Parses (.compareTail l) ts l ts
  | compareMore {t : Tok} {ts ts' r : List Tok} {op : BinOp} {l x n : Node} (hop : compareOp t = some op)
      (hx : Parses .unary ts x ts') (h : Parses (.compareTail (.binary op l x)) ts' n r) :
      Parses (.compareTail l) (t :: ts) n r
  | not {ts r : List Tok} {x : Node} (h : Parses .unary ts x r) : Parses .unary (.punct .not :: ts) (.unary x) r
  | plain {ts r : List Tok} {n : Node} (hnot : peek ts ≠ .punct .not) (h : Parses .chain ts n r) :
      Parses .unary ts n r
  | chain {ts ts' r : List Tok} {x n : Node} (hx : Parses .primary ts x ts') (h : Parses (.chainTail x) ts' n r) :
      Parses .chain ts n r
  | chainEnd {ts : List Tok} {x : Node} (hdot : peek ts ≠ .punct .dot) (hlbrack : peek ts ≠ .punct .lbrack) :
      Parses (.chainTail x) ts x ts
  | dot {ts ts' r : List Tok} {x prop key n : Node} (hprop : Parses .primary ts prop ts')
      (hkey : property prop = some key) (h : Parses (.chainTail (.member x key)) ts' n r) :
      Parses (.chainTail x) (.punct .dot :: ts) n r
  | index {ts ts' r : List Tok} {x idx n : Node} (hidx : Parses .or ts idx (.punct .rbrack :: ts'))
      (h : Parses (.chainTail (.member x idx)) ts' n r) : Parses (.chainTail x) (.punct .lbrack :: ts) n r
  | number {num : Float64} {text : Bytes} {r : List Tok} :
      Parses .primary (.number num text :: r) (.literal (.num num)) r
  | string {str : Bytes} {r : List Tok} : Parses .primary (.string str :: r) (.literal (.str str)) r
  | constant {text : Bytes} {v : Value} {r : List Tok} (h : constant text = some v) :
      Parses .primary (.ident text :: r) (.literal v) r
  | ident {text : Bytes} {r : List Tok} (h : constant text = none) (hcall : peek r ≠ .punct .lparen) :
      Parses .primary (.ident text :: r) (.ident text) r
  | callEmpty {text : Bytes} {r : List Tok} (h : constant text = none) :
      Parses .primary (.ident text :: .punct .lparen :: .punct .rparen :: r) (.call text []) r
  | call {text : Bytes} {ts r : List Tok} {n : Node} (h : constant text = none)
      (hargs : peek ts ≠ .punct .rparen) (hcall : Parses (.args text []) ts n r) :
      Parses .primary (.ident text :: .punct .lparen :: ts) n r
  | paren {ts r : List Tok} {n : Node} (h : Parses .or ts n (.punct .rparen :: r)) :
      Parses .primary (.punct .lparen :: ts) n r
  | argsMore {name : Bytes} {read : List Node} {ts ts' r : List Tok} {a n : Node}
      (ha : Parses .or ts a (.punct .comma :: ts')) (h : Parses (.args name (read ++ [a])) ts' n r) :
      Parses (.args name read) ts n r
  | argsEnd {name : Bytes} {read : List Node} {ts r : List Tok} {a : Node}
      (ha : Parses .or ts a (.punct .rparen :: r)) : Parses (.args name read) ts (.call name (read ++ [a])) r

end Forgelet.Expression
