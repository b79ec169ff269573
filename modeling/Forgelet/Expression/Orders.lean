import Forgelet.Expression.Eval

/-!
# Evaluation under any order of maps

Go ranges over a map in an order of its own at each access. `outcomes` is the evaluator with this freedom: the loop of
`objKey` meets the entries in any order, and so does the list of the contexts in an error. The texts of objects are
sorted (`Value.String`, `json.Marshal`), so that no other function of the package shows an order.
-/

namespace Forgelet.Expression

open Bytes (ofString)

/-- The outcomes that a computation can have. -/
abbrev Outcomes (α : Type) : Type := Except ExprError α → Prop

/-- The computation goes on with any value that the first part can give. -/
def Outcomes.bind {α β : Type} (x : Outcomes α) (f : α → Outcomes β) : Outcomes β :=
  fun out => (∃ err, x (.error err) ∧ out = .error err) ∨ ∃ a, x (.ok a) ∧ f a out

/-- The computation wraps its errors. -/
def Outcomes.mapError {α : Type} (f : ExprError → ExprError) (x : Outcomes α) : Outcomes α :=
  fun out => ∃ out', x out' ∧ out = out'.mapError f

/-- What a property can be found to be. -/
def members (obj prop : Value) : Outcomes Value :=
  match obj with
  | .obj entries => fun out => ∃ entries', entries'.Perm entries ∧ out = .ok (memberOf (.obj entries') prop)
  | obj => (· = .ok (memberOf obj prop))

mutual

/-- The outcomes of `evalNode`. -/
def outcomes (env : Env) : Node → Outcomes Value
  | .literal v => (· = .ok v)
  | .ident name =>
    match env.lookup name with
    | some v => (· = .ok v)
    | none => fun out => ∃ names, names.Perm env.available ∧ out = .error (.contextUnavailable name names)
  | .member obj prop => (outcomes env obj).bind fun o => (outcomes env prop).bind fun p => members o p
  | .unary x => (outcomes env x).bind fun v => (· = .ok (.bool (!v.truthy)))
  | .binary op l r => (outcomes env l).bind fun lv =>
      if op = .and ∧ lv.truthy = false then (· = .ok lv)
      else if op = .or ∧ lv.truthy then (· = .ok lv)
      else (outcomes env r).bind fun rv => (· = .ok (if op = .and ∨ op = .or then rv else applyOp op lv rv))
  | .call name args =>
    match lookupFn name with
    | none => (· = .error (.notSupported (ofString "function " ++ name ++ ofString "()")))
    | some fn => (argOutcomes env args).bind fun vs => (· = fn.apply env vs)

/-- The outcomes of `evalArgs`. -/
def argOutcomes (env : Env) : List Node → Outcomes (List Value)
  | [] => (· = .ok [])
  | a :: rest => (outcomes env a).bind fun v => (argOutcomes env rest).bind fun vs => (· = .ok (v :: vs))

end

/-- The outcomes of `eval`. -/
def evalOutcomes (expr : Bytes) (env : Env) : Outcomes Value :=
  match parse expr with
  | .error err => (· = .error (.parse err))
  | .ok ast => outcomes env ast

/-- The outcomes of `interpolateLoop`. -/
def loopOutcomes (tpl : Bytes) (env : Env) : Nat → Bytes → Outcomes Bytes
  | 0, _ => (· = .ok [])
  | _ + 1, [] => (· = .ok [])
  | fuel + 1, c :: rest =>
    if opening.isPrefixOf (c :: rest) then
      let body := (c :: rest).drop opening.length
      match Bytes.index closing body with
      | none => (· = .error (.unterminated tpl))
      | some len =>
        let inner := Bytes.trimSpace (body.take len)
        ((evalOutcomes inner env).mapError (.template inner)).bind fun v =>
          (loopOutcomes tpl env fuel (body.drop (len + closing.length))).bind fun text => (· = .ok (v.display ++ text))
    else (loopOutcomes tpl env fuel rest).bind fun text => (· = .ok (c :: text))

/-- The outcomes of `interpolate`. -/
def templateOutcomes (tpl : Bytes) (env : Env) : Outcomes Bytes := loopOutcomes tpl env tpl.length tpl

/-- The outcomes of `evaluateCondition`. -/
def conditionOutcomes (raw : Bytes) (env : Env) : Outcomes Bool :=
  let cond := raw.trimSpace
  if cond = [] then (· = .ok true)
  else if Bytes.contains cond opening then
    (templateOutcomes cond env).bind fun rendered =>
      let cond := rendered.trimSpace
      if cond = [] then (· = .ok true) else (evalOutcomes cond env).bind fun v => (· = .ok v.truthy)
  else (evalOutcomes (implicitSuccess cond) env).bind fun v => (· = .ok v.truthy)

/-! ## Accesses that show no order -/

/-- The key is there, or the entries whose keys fold to it hold one value. -/
def Clear (entries : List (Bytes × Value)) (key : Bytes) : Prop :=
  (Entries.find? key entries).isSome ∨ ∀ e ∈ entries, ∀ e' ∈ entries, Bytes.equalFold e.1 key →
    Bytes.equalFold e'.1 key → e.2 = e'.2

mutual

/-- Every access that the evaluation comes to is clear. The right side of a conjunction or disjunction that its left
side decides is not evaluated. -/
def AllClear (env : Env) : Node → Prop
  | .literal _ => True
  | .ident _ => True
  | .member obj prop => AllClear env obj ∧ AllClear env prop ∧ ∀ entries key, evalNode env obj = .ok (.obj entries) →
      evalNode env prop = .ok (.str key) → (entries.map (·.1)).Nodup ∧ Clear entries key
  | .unary x => AllClear env x
  | .binary op l r => AllClear env l ∧ ∀ lv, evalNode env l = .ok lv →
      (op = .and ∧ lv.truthy = false) ∨ (op = .or ∧ lv.truthy) ∨ AllClear env r
  | .call _ args => ArgsClear env args

/-- All arguments are clear. -/
def ArgsClear (env : Env) : List Node → Prop
  | [] => True
  | a :: rest => AllClear env a ∧ ArgsClear env rest

end

/-- The evaluation of the expression comes to clear accesses only. -/
def ExprClear (env : Env) (expr : Bytes) : Prop := ∀ n, parse expr = .ok n → AllClear env n

/-- The expressions of all placeholders are clear. -/
def LoopClear (env : Env) : Nat → Bytes → Prop
  | 0, _ => True
  | _ + 1, [] => True
  | fuel + 1, c :: rest =>
    if opening.isPrefixOf (c :: rest) then
      let body := (c :: rest).drop opening.length
      match Bytes.index closing body with
      | none => True
      | some len =>
        ExprClear env (Bytes.trimSpace (body.take len)) ∧ LoopClear env fuel (body.drop (len + closing.length))
    else LoopClear env fuel rest

/-- So do the evaluations of all its placeholders. -/
def TemplateClear (env : Env) (tpl : Bytes) : Prop := LoopClear env tpl.length tpl

/-- The condition is clear, and so is the text that its placeholders give. -/
def ConditionClear (env : Env) (raw : Bytes) : Prop :=
  let cond := raw.trimSpace
  if Bytes.contains cond opening then
    TemplateClear env cond ∧ ∀ rendered, interpolate cond env = .ok rendered → ExprClear env rendered.trimSpace
  else ExprClear env (implicitSuccess cond)

end Forgelet.Expression
