import Forgelet.Expression.Parser

/-!
# Evaluation of expressions

The environment, the builtin functions, the evaluator, templates and `if:` conditions
(`env.go`, `errors.go`, `functions.go`, `eval.go`, `interpolate.go` and `conditions.go` of
`internal/workflow/expression`).
-/

namespace Forgelet.Expression

open Bytes (byte ofString)

/-- The errors of an evaluation. The last two are those of `Interpolate`. -/
inductive ExprError
  | parse (e : ParseError)
  | contextUnavailable (want : Bytes) (available : List Bytes)
  | notSupported (what : Bytes)
  | eval (expr msg : Bytes)
  | unterminated (tpl : Bytes)
  | template (inner : Bytes) (cause : ExprError)
deriving DecidableEq

/-- `error.Error`. -/
def ExprError.text : ExprError → Bytes
  | parse e =>
    ofString "expression parse error at " ++ Bytes.ofNat e.line ++ [byte ':'] ++
      Bytes.ofNat e.column ++ ofString ": " ++ e.msg
  | contextUnavailable want available =>
    ofString "expression: context " ++ Bytes.quote want ++
      ofString " is not available in this phase (available: " ++
      Bytes.join (ofString ", ") (Bytes.sort available) ++ ofString ")"
  | notSupported what => ofString "expression: " ++ what ++ ofString " is not supported in this build"
  | eval expr msg => ofString "expression eval error in " ++ Bytes.quote expr ++ ofString ": " ++ msg
  | unterminated tpl => ofString "expression: unterminated $\x7b\x7b in template: " ++ tpl
  | template inner cause =>
    ofString "expression: template " ++ Bytes.quote inner ++ ofString ": " ++ cause.text

/-- `WorkspaceHasher`: the digest of the matching files, or the text of an error. -/
abbrev WorkspaceHasher := List Bytes → Except Bytes Bytes

/-- `Env`, a registry of evaluation contexts under their names in lower case. -/
structure Env where
  contexts : List (Bytes × Value)
  hasher : Option WorkspaceHasher

namespace Env

/-- `NewEnv`. -/
def new : Env where
  contexts := []
  hasher := none

/-- `With` registers a context. -/
def withContext (e : Env) (name : Bytes) (v : Value) : Env :=
  { e with contexts := Entries.assign name.toLower v e.contexts }

/-- The context under a name, whatever its case. -/
def lookup (e : Env) (name : Bytes) : Option Value := Entries.find? name.toLower e.contexts

/-- The names of the contexts. -/
def available (e : Env) : List Bytes := e.contexts.map (·.1)

/-- The context that holds the job status for the status functions. -/
def jobStatusContext : Bytes := ofString "__jobstatus"

/-- The status is kept as a context of its own. -/
def withJobStatus (e : Env) (status : Bytes) : Env := e.withContext jobStatusContext (.str status)

/-- `jobStatus`: a status that is absent means that nothing has failed. -/
def jobStatus (e : Env) : Bytes :=
  match e.lookup jobStatusContext with
  | some (.str s) => s
  | _ => ofString "success"

/-- The hasher, and the context that says there is one. -/
def withWorkspaceHasher (e : Env) (h : WorkspaceHasher) : Env :=
  { e.withContext (ofString "__workspacehasher") (Value.text "registered") with hasher := some h }

end Env

/-- The functions of the language. -/
inductive Fn
  | hashFiles
  | success
  | failure
  | cancelled
  | always
  | contains
  | startsWith
  | endsWith
  | format
  | join
  | toJSON
  | fromJSON
deriving DecidableEq

/-- The keys of `functions`. -/
def Fn.key : Fn → String
  | hashFiles => "hashfiles"
  | success => "success"
  | failure => "failure"
  | cancelled => "cancelled"
  | always => "always"
  | contains => "contains"
  | startsWith => "startswith"
  | endsWith => "endswith"
  | format => "format"
  | join => "join"
  | toJSON => "tojson"
  | fromJSON => "fromjson"

/-- All functions. -/
def Fn.all : List Fn :=
  [hashFiles, success, failure, cancelled, always, contains, startsWith, endsWith, format, join, toJSON,
    fromJSON]

/-- `functions[strings.ToLower(name)]`. -/
def lookupFn (name : Bytes) : Option Fn := Fn.all.find? fun f => ofString f.key = name.toLower

/-- An error of a function; `Eval` adds the expression. -/
def fnError (msg : Bytes) : ExprError := .eval [] msg

/-- `arity`: the number of arguments is one of `want`; the error names the first. -/
def arity (name : String) (args : List Value) (want : List Nat) : Except ExprError Unit :=
  if args.length ∈ want then .ok ()
  else .error (fnError (ofString (name ++ "() takes ") ++ Bytes.ofNat (want.headD 0) ++
    ofString " argument(s), got " ++ Bytes.ofNat args.length))

/-- The loop of `formatGitHub`: `\x7b0\x7d`, `\x7b1\x7d` are replaced, doubled braces literal. -/
def formatLoop (args : List Value) : Nat → Bytes → Except ExprError Bytes
  | 0, _ => .ok []
  | _ + 1, [] => .ok []
  | fuel + 1, c :: rest =>
    if c == byte '{' then
      if rest.head? = some (byte '{') then (formatLoop args fuel rest.tail).map (byte '{' :: ·)
      else if byte '}' ∈ rest then
        let digits := rest.takeWhile (· != byte '}')
        let bad := fnError (ofString "format(): bad placeholder " ++
          Bytes.quote ([byte '{'] ++ digits ++ [byte '}']))
        match Bytes.atoi digits with
        | none => .error bad
        | some idx =>
          if idx < 0 then .error bad
          else match args[idx.toNat]? with
            | none => .error bad
            | some v =>
              (formatLoop args fuel (rest.drop (digits.length + 1))).map (v.display ++ ·)
      else .error (fnError (ofString "format(): unterminated \x7b in template"))
    else if c == byte '}' then
      if rest.head? = some (byte '}') then (formatLoop args fuel rest.tail).map (byte '}' :: ·)
      else .error (fnError (ofString "format(): stray \x7d in template"))
    else (formatLoop args fuel rest).map (c :: ·)

/-- The function `format`. -/
def formatGitHub (tpl : Bytes) (args : List Value) : Except ExprError Value :=
  (formatLoop args tpl.length tpl).map .str

/-- The loop of `hashFilesFn` over its arguments. -/
def hashPatterns : List Value → Except ExprError (List Bytes)
  | [] => .ok []
  | .str s :: rest =>
    if 0 ∈ s then .error (fnError (ofString "hashFiles(): invalid pattern"))
    else (hashPatterns rest).map (s :: ·)
  | _ :: _ => .error (fnError (ofString "hashFiles(): patterns must be strings"))

/-- `hashFilesFn` evaluates through the injected capability. -/
def hashFilesFn (env : Env) (args : List Value) : Except ExprError Value :=
  if args.isEmpty then .error (fnError (ofString "hashFiles() takes at least one pattern"))
  else match hashPatterns args with
    | .error err => .error err
    | .ok patterns =>
      match env.hasher with
      | none => .error (.notSupported (ofString "function hashFiles() outside a workspace context"))
      | some hasher =>
        match hasher patterns with
        | .error msg => .error (fnError (ofString "hashFiles(): " ++ msg))
        | .ok sum => .ok (.str sum)

/-- The text of an argument, in lower case. -/
def lowerArg (args : List Value) (i : Nat) : Bytes := (args.getD i .null).display.toLower

/-- `contains`: membership in an array, or a part of a text. -/
def containsFn (args : List Value) : Bool :=
  match args.getD 0 .null with
  | .arr items => items.any (Value.looseEqual · (args.getD 1 .null))
  | _ => Bytes.contains (lowerArg args 0) (lowerArg args 1)

/-- `join`: a value that is no array is its text. -/
def joinFn (args : List Value) : Bytes :=
  let sep := if args.length = 2 then (args.getD 1 .null).display else [byte ',']
  match args.getD 0 .null with
  | .arr items => Bytes.join sep (items.map Value.display)
  | v => v.display

/-- `toJSON`. -/
def toJSONFn (v : Value) : Except ExprError Value :=
  match v.toJson.marshal with
  | .error msg => .error (fnError (ofString "toJSON: " ++ msg))
  | .ok text => .ok (.str text)

/-- `fromJSON`. -/
def fromJSONFn (v : Value) : Except ExprError Value :=
  match Json.decode v.display with
  | .error err => .error (fnError (ofString "fromJSON: " ++ err.text))
  | .ok raw => .ok (Value.ofJson raw)

/-- A function applied to the values of its arguments. -/
def Fn.apply (env : Env) (args : List Value) : Fn → Except ExprError Value
  | hashFiles => hashFilesFn env args
  | success => .ok (.bool (env.jobStatus = ofString "success"))
  | failure => .ok (.bool (env.jobStatus = ofString "failure"))
  | cancelled => .ok (.bool (env.jobStatus = ofString "cancelled"))
  | always => .ok (.bool true)
  | contains => (arity "contains" args [2]).map fun _ => .bool (containsFn args)
  | startsWith =>
    (arity "startsWith" args [2]).map fun _ => .bool ((lowerArg args 1).isPrefixOf (lowerArg args 0))
  | endsWith =>
    (arity "endsWith" args [2]).map fun _ => .bool ((lowerArg args 1).isSuffixOf (lowerArg args 0))
  | format =>
    match args with
    | [] => .error (fnError (ofString "format() needs a template"))
    | tpl :: args => formatGitHub tpl.display args
  | join => (arity "join" args [1, 2]).map fun _ => .str (joinFn args)
  | toJSON => (arity "toJSON" args [1]).bind fun _ => toJSONFn (args.getD 0 .null)
  | fromJSON => (arity "fromJSON" args [1]).bind fun _ => fromJSONFn (args.getD 0 .null)

/-- The value of a property: null for what is not there. -/
def memberOf (obj prop : Value) : Value :=
  match obj, prop with
  | .obj entries, .str key => Value.objKey entries key
  | .arr items, .num f =>
    match f.toInt with
    | some idx => if idx < 0 then .null else (items[idx.toNat]?).getD .null
    | none => .null
  | _, _ => .null

/-- The operators of `evalBinary` that evaluate both sides. -/
def applyOp (op : BinOp) (l r : Value) : Value :=
  match op with
  | .eq => .bool (l.looseEqual r)
  | .ne => .bool (!l.looseEqual r)
  | .lt => .bool (l.compare r = some .lt)
  | .le => .bool (l.compare r = some .lt ∨ l.compare r = some .eq)
  | .gt => .bool (l.compare r = some .gt)
  | .ge => .bool (l.compare r = some .gt ∨ l.compare r = some .eq)
  | .or => .null
  | .and => .null

mutual

/-- The value of a syntax tree. -/
def evalNode (env : Env) : Node → Except ExprError Value
  | .literal v => .ok v
  | .ident name =>
    match env.lookup name with
    | some v => .ok v
    | none => .error (.contextUnavailable name env.available)
  | .member obj prop =>
    match evalNode env obj with
    | .error err => .error err
    | .ok o =>
      match evalNode env prop with
      | .error err => .error err
      | .ok p => .ok (memberOf o p)
  | .unary x =>
    match evalNode env x with
    | .error err => .error err
    | .ok v => .ok (.bool (!v.truthy))
  | .binary op l r =>
    match evalNode env l with
    | .error err => .error err
    | .ok lv =>
      -- a conjunction and a disjunction are decided by their left side where they can be
      if op = .and ∧ lv.truthy = false then .ok lv
      else if op = .or ∧ lv.truthy then .ok lv
      else
        match evalNode env r with
        | .error err => .error err
        | .ok rv => .ok (if op = .and ∨ op = .or then rv else applyOp op lv rv)
  | .call name args =>
    match lookupFn name with
    | none => .error (.notSupported (ofString "function " ++ name ++ ofString "()"))
    | some fn =>
      match evalArgs env args with
      | .error err => .error err
      | .ok vs => fn.apply env vs

/-- The arguments of a call, from left to right. -/
def evalArgs (env : Env) : List Node → Except ExprError (List Value)
  | [] => .ok []
  | a :: rest =>
    match evalNode env a with
    | .error err => .error err
    | .ok v =>
      match evalArgs env rest with
      | .error err => .error err
      | .ok vs => .ok (v :: vs)

end

attribute [simp] evalNode evalArgs

/-- `Eval` parses and evaluates one expression. -/
def eval (expr : Bytes) (env : Env) : Except ExprError Value :=
  match parse expr with
  | .error err => .error (.parse err)
  | .ok ast => evalNode env ast

/-- What opens a placeholder. -/
def opening : Bytes := ofString "$\x7b\x7b"

/-- What closes a placeholder. -/
def closing : Bytes := ofString "\x7d\x7d"

/-- The loop of `Interpolate` over the rest of the template, with fuel. -/
def interpolateLoop (tpl : Bytes) (env : Env) : Nat → Bytes → Except ExprError Bytes
  | 0, _ => .ok []
  | _ + 1, [] => .ok []
  | fuel + 1, c :: rest =>
    if opening.isPrefixOf (c :: rest) then
      let body := (c :: rest).drop opening.length
      match Bytes.index closing body with
      | none => .error (.unterminated tpl)
      | some len =>
        let inner := Bytes.trimSpace (body.take len)
        match eval inner env with
        | .error err => .error (.template inner err)
        | .ok v =>
          (interpolateLoop tpl env fuel (body.drop (len + closing.length))).map (v.display ++ ·)
    else (interpolateLoop tpl env fuel rest).map (c :: ·)

/-- `Interpolate` expands every placeholder of a template with the text of its value. -/
def interpolate (tpl : Bytes) (env : Env) : Except ExprError Bytes :=
  interpolateLoop tpl env tpl.length tpl

/-- Whether there is a placeholder to evaluate. -/
def hasExpression (s : Bytes) : Bool := Bytes.contains s opening

/-- The calls by which a condition is recognised as asking for the status. -/
def statusCalls : List Bytes :=
  [ofString "success(", ofString "failure(", ofString "cancelled(", ofString "always("]

/-- The test is on the text, in lower case. -/
def mentionsStatusFunction (cond : Bytes) : Bool :=
  statusCalls.any fun fn => Bytes.contains cond.toLower fn

/-- A condition without a status function or a result gets the implicit `success()`. -/
def implicitSuccess (cond : Bytes) : Bytes :=
  if !mentionsStatusFunction cond && !Bytes.contains cond.toLower (ofString "needs.") &&
      !Bytes.contains cond.toLower (ofString "job.") then
    ofString "success() && (" ++ cond ++ ofString ")"
  else cond

/-- `EvaluateCondition` evaluates the value of an `if:`. -/
def evaluateCondition (raw : Bytes) (env : Env) : Except ExprError Bool :=
  let cond := raw.trimSpace
  if cond = [] then .ok true
  else if Bytes.contains cond opening then
    match interpolate cond env with
    | .error err => .error err
    | .ok rendered =>
      let cond := rendered.trimSpace
      if cond = [] then .ok true else (eval cond env).map Value.truthy
  else (eval (implicitSuccess cond) env).map Value.truthy

end Forgelet.Expression
