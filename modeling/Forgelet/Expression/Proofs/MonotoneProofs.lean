import Forgelet.Expression.Eval

/-!
# Proofs: evaluation with further contexts

The evaluator as a chain of computations, and what an environment with more contexts keeps of the values that it gave
before.
-/

namespace Forgelet.Expression

open Bytes (ofString)

section

variable {env : Env}

theorem evalNode_ident (name : Bytes) : evalNode env (.ident name) =
      (env.lookup name).elim (.error (.contextUnavailable name env.available)) .ok := by
  rw [evalNode]
  cases env.lookup name <;> rfl

theorem evalNode_member (obj prop : Node) : evalNode env (.member obj prop) =
      (evalNode env obj).bind fun o => (evalNode env prop).bind fun p => .ok (memberOf o p) := by
  rw [evalNode]
  cases evalNode env obj with
  | error _ => rfl
  | ok o => cases evalNode env prop <;> rfl

theorem evalNode_unary (x : Node) :
    evalNode env (.unary x) = (evalNode env x).bind fun v => .ok (.bool (!v.truthy)) := by
  rw [evalNode]
  cases evalNode env x <;> rfl

theorem evalNode_binary (op : BinOp) (l r : Node) : evalNode env (.binary op l r) = (evalNode env l).bind fun lv =>
      if op = .and ∧ lv.truthy = false then .ok lv else if op = .or ∧ lv.truthy then .ok lv
      else (evalNode env r).bind fun rv => .ok (if op = .and ∨ op = .or then rv else applyOp op lv rv) := by
  rw [evalNode]
  cases evalNode env l with
  | error _ => rfl
  | ok lv => cases evalNode env r <;> rfl

theorem evalNode_call (name : Bytes) (args : List Node) : evalNode env (.call name args) =
      (lookupFn name).elim (.error (.notSupported (ofString "function " ++ name ++ ofString "()"))) fun fn =>
        (evalArgs env args).bind fun vs => fn.apply env vs := by
  rw [evalNode]
  cases lookupFn name with
  | none => rfl
  | some fn => cases evalArgs env args <;> rfl

theorem evalArgs_cons (a : Node) (rest : List Node) : evalArgs env (a :: rest) =
      (evalNode env a).bind fun v => (evalArgs env rest).bind fun vs => .ok (v :: vs) := by
  rw [evalArgs]
  cases evalNode env a with
  | error _ => rfl
  | ok v => cases evalArgs env rest <;> rfl

end

/-- `env'` has the contexts of `env`, the same job status, and the hasher if there is one. -/
structure Env.Extends (env env' : Env) : Prop where
  contexts : ∀ name v, env.lookup name = some v → env'.lookup name = some v
  jobStatus : env'.jobStatus = env.jobStatus
  hasher : ∀ h, env.hasher = some h → env'.hasher = some h

/-- The second computation has the result of the first, if that has one. -/
def Keeps {α : Type} (x x' : Except ExprError α) : Prop := ∀ a, x = .ok a → x' = .ok a

theorem Keeps.bind {α β : Type} {x x'} {f f' : α → Except ExprError β} (h : Keeps x x') (hf : ∀ a, Keeps (f a) (f' a)) :
    Keeps (x.bind f) (x'.bind f') := by
  intro b hb
  cases x with
  | error err => cases hb
  | ok a =>
    rw [h a rfl]
    exact hf a b hb

theorem Keeps.map {α β : Type} {x x'} (h : Keeps x x') (f : α → β) : Keeps (x.map f) (x'.map f) := by
  intro b hb
  cases x with
  | error err => cases hb
  | ok a =>
    rw [h a rfl]
    exact hb

section

variable {env env' : Env}

section

variable (h : env.Extends env')
include h

theorem apply_extends (fn : Fn) (args : List Value) :
    Keeps (fn.apply env args) (fn.apply env' args) := by
  intro v hv
  cases fn with
  | success | failure | cancelled => rwa [Fn.apply, h.jobStatus]
  | hashFiles =>
    rw [Fn.apply, hashFilesFn] at hv ⊢
    cases hhash : env.hasher with
    | some hasher => rwa [h.hasher hasher hhash, ← hhash]
    | none =>
      rw [hhash] at hv
      split at hv
      · cases hv
      · split at hv <;> cases hv
  | _ => exact hv

theorem evalNode_extends (node : Node) : Keeps (evalNode env node) (evalNode env' node) :=
  @Node.rec (fun node => Keeps (evalNode env node) (evalNode env' node))
    (fun args => Keeps (evalArgs env args) (evalArgs env' args)) (fun _ _ hv => hv)
    (fun name v hv => by
      rw [evalNode_ident] at hv ⊢
      cases hname : env.lookup name with
      | none =>
        rw [hname] at hv
        cases hv
      | some w =>
        rw [hname] at hv
        rwa [h.contexts name w hname])
    (fun obj prop hobj hprop => by
      rw [evalNode_member, evalNode_member]
      exact hobj.bind fun _ => hprop.bind fun _ _ hv => hv)
    (fun x hx => by
      rw [evalNode_unary, evalNode_unary]
      exact hx.bind fun _ _ hv => hv)
    (fun op l r hl hr => by
      rw [evalNode_binary, evalNode_binary]
      refine hl.bind fun lv => ?_
      split
      · exact fun _ hv => hv
      · split
        · exact fun _ hv => hv
        · exact hr.bind fun _ _ hv => hv)
    (fun name args hargs => by
      rw [evalNode_call, evalNode_call]
      cases lookupFn name with
      | none => exact fun _ hv => hv
      | some fn => exact hargs.bind fun vs => apply_extends h fn vs)
    (fun _ hv => hv)
    (fun a rest ha hrest => by
      rw [evalArgs_cons, evalArgs_cons]
      exact ha.bind fun _ => hrest.bind fun _ _ hv => hv) node

theorem eval_extends (expr : Bytes) : Keeps (eval expr env) (eval expr env') := by
  unfold eval
  cases parse expr with
  | error err => exact fun _ hv => hv
  | ok ast => exact evalNode_extends h ast

theorem interpolateLoop_extends (tpl : Bytes) (fuel : Nat) (s : Bytes) :
    Keeps (interpolateLoop tpl env fuel s) (interpolateLoop tpl env' fuel s) := by
  induction fuel generalizing s with
  | zero => exact fun _ hv => hv
  | succ fuel ih =>
    cases s with
    | nil => exact fun _ hv => hv
    | cons c rest =>
      rw [interpolateLoop, interpolateLoop]
      split
      · dsimp only
        cases Bytes.index closing ((c :: rest).drop opening.length) with
        | none => exact fun _ hv => hv
        | some len =>
          dsimp only
          have hinner := eval_extends h (Bytes.trimSpace (((c :: rest).drop opening.length).take len))
          generalize eval _ env = o at hinner ⊢
          cases o with
          | error err => exact fun _ htext => nomatch htext
          | ok v =>
            rw [hinner v rfl]
            exact (ih _).map _
      · exact (ih rest).map _

end

end

end Forgelet.Expression
