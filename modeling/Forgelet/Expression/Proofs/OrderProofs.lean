import Forgelet.Expression.Orders
import Forgelet.Expression.Proofs.MonotoneProofs
import Forgelet.Lib.EntryOrder

/-!
# Proofs: evaluation and the order of maps

Where every access is clear, the evaluator of the model computes the only outcome there is. What it computes is kept
by environments with further contexts, and the accesses stay clear in them. A single access that is not clear has two
outcomes.
-/

namespace Forgelet.Expression

open Bytes (equalFold ofString)
open Value (objKey text truthy)

/-! ## One outcome -/

theorem bind_eq_ok {ε α β : Type} {x : Except ε α} {f : α → Except ε β} {b : β} :
    x.bind f = .ok b ↔ ∃ a, x = .ok a ∧ f a = .ok b := by
  cases x with
  | error err => exact ⟨nofun, nofun⟩
  | ok a => exact ⟨fun h => ⟨a, rfl, h⟩, fun ⟨_, ha, h⟩ => by cases ha; exact h⟩

theorem map_eq_ok {ε α β : Type} {x : Except ε α} {f : α → β} {b : β} : x.map f = .ok b ↔ ∃ a, x = .ok a ∧ f a = b := by
  cases x with
  | error err => exact ⟨nofun, nofun⟩
  | ok a => exact ⟨fun h => ⟨a, rfl, Except.ok.inj h⟩, fun ⟨_, ha, h⟩ => by cases ha; exact congrArg _ h⟩

theorem mapError_eq_ok {ε ε' α : Type} {x : Except ε α} {f : ε → ε'} {a : α} : x.mapError f = .ok a ↔ x = .ok a := by
  cases x with
  | error err => exact ⟨nofun, nofun⟩
  | ok a => exact ⟨fun h => by cases h; rfl, fun h => by cases h; rfl⟩

/-- The same error, but for the order in which it lists the contexts. -/
inductive ExprError.Same : ExprError → ExprError → Prop
  | refl (err : ExprError) : Same err err
  | contexts (want : Bytes) {names names' : List Bytes} (h : names.Perm names') :
      Same (.contextUnavailable want names) (.contextUnavailable want names')
  | template (inner : Bytes) {err err' : ExprError} (h : Same err err') :
      Same (.template inner err) (.template inner err')

/-- The same value, or the same error but for the order of contexts. -/
inductive SameOutcome {α : Type} : Except ExprError α → Except ExprError α → Prop
  | ok (a : α) : SameOutcome (.ok a) (.ok a)
  | error {err err' : ExprError} (h : err.Same err') : SameOutcome (.error err) (.error err')

theorem SameOutcome.eq_ok {α : Type} {out : Except ExprError α} {a : α} (h : SameOutcome out (.ok a)) :
    out = .ok a := by
  cases h
  rfl

/-- All outcomes are as the one that `y` computes, which is among them. -/
def Decided {α : Type} (x : Outcomes α) (y : Except ExprError α) : Prop := x y ∧ ∀ out, x out → SameOutcome out y

theorem decided_eq {α : Type} (y : Except ExprError α) : Decided (· = y) y := by
  refine ⟨rfl, fun out hout => ?_⟩
  rw [hout]
  cases y with
  | error err => exact .error (.refl err)
  | ok a => exact .ok a

theorem Decided.eq_ok {α : Type} {x : Outcomes α} {y out} {a : α} (h : Decided x y) (hy : y = .ok a) (hout : x out) :
    out = .ok a := by
  subst hy
  exact (h.2 out hout).eq_ok

theorem Decided.ok {α : Type} {x : Outcomes α} {y} {a : α} (h : Decided x y) (ha : x (.ok a)) : y = .ok a := by
  cases h.2 _ ha
  rfl

theorem Decided.bind {α β : Type} {x y} {f : α → Outcomes β} {g : α → Except ExprError β} (h : Decided x y)
    (hf : ∀ a, y = .ok a → Decided (f a) (g a)) : Decided (x.bind f) (y.bind g) := by
  refine ⟨?_, fun out hout => ?_⟩
  · cases y with
    | error err => exact .inl ⟨err, h.1, rfl⟩
    | ok a => exact .inr ⟨a, h.1, (hf a rfl).1⟩
  · rcases hout with ⟨err, hx, rfl⟩ | ⟨a, hx, hout⟩
    · cases h.2 _ hx with
      | error herr => exact .error herr
    · cases h.2 _ hx with
      | ok => exact (hf a rfl).2 out hout

theorem Decided.template {α : Type} {x : Outcomes α} {y} (h : Decided x y) (inner : Bytes) :
    Decided (x.mapError (.template inner)) (y.mapError (.template inner)) := by
  refine ⟨⟨y, h.1, rfl⟩, ?_⟩
  rintro _ ⟨out', hout', rfl⟩
  cases h.2 _ hout' with
  | ok a => exact .ok a
  | error herr => exact .error (.template inner herr)

/-! ## Accesses -/

theorem find?_equalFold_perm {entries entries' : List (Bytes × Value)} {key : Bytes}
    (hone : ∀ e ∈ entries, ∀ e' ∈ entries, equalFold e.1 key → equalFold e'.1 key → e.2 = e'.2)
    (hperm : entries'.Perm entries) : (entries'.find? fun e => equalFold e.1 key).map (·.2) =
      (entries.find? fun e => equalFold e.1 key).map (·.2) := by
  cases hfold : entries.find? fun e => equalFold e.1 key with
  | none =>
    have hnone : (entries'.find? fun e => equalFold e.1 key) = none := by
      rw [List.find?_eq_none] at hfold ⊢
      exact fun e he => hfold e (hperm.mem_iff.mp he)
    rw [hnone]
  | some e =>
    have hmatch := List.find?_some hfold
    have hmem := List.mem_of_find?_eq_some hfold
    obtain ⟨e', he'⟩ : ∃ e', (entries'.find? fun e => equalFold e.1 key) = some e' := by
      rw [← Option.isSome_iff_exists, List.find?_isSome]
      exact ⟨e, hperm.mem_iff.mpr hmem, hmatch⟩
    have hmatch' := List.find?_some he'
    have hmem' := hperm.mem_iff.mp (List.mem_of_find?_eq_some he')
    rw [he', Option.map_some, Option.map_some, hone e' hmem' e hmem hmatch' hmatch]

theorem objKey_eq (entries : List (Bytes × Value)) (key : Bytes) : objKey entries key =
      ((Entries.find? key entries).or
        ((entries.find? fun e => equalFold e.1 key).map (·.2))).getD .null := by
  unfold objKey
  cases Entries.find? key entries with
  | some v => rfl
  | none => cases entries.find? fun e => equalFold e.1 key <;> rfl

section

variable {entries entries' : List (Bytes × Value)} {key : Bytes}

theorem objKey_perm (hdistinct : (entries.map (·.1)).Nodup) (hclear : Clear entries key)
    (hperm : entries'.Perm entries) : objKey entries' key = objKey entries key := by
  rw [objKey_eq, objKey_eq, ← Entries.find?_perm hperm.symm hdistinct]
  rcases hclear with hthere | hone
  · obtain ⟨v, hv⟩ := Option.isSome_iff_exists.mp hthere
    rw [hv, Option.some_or, Option.some_or]
  · rw [find?_equalFold_perm hone hperm]

/-- An entry whose key folds to the one asked for is found, if the range meets it first. -/
theorem objKey_first (hnone : Entries.find? key entries = none) (hdistinct : (entries.map (·.1)).Nodup) {e}
    (he : e ∈ entries) (hfold : equalFold e.1 key) : ∃ entries', entries'.Perm entries ∧
      objKey entries' key = e.2 := by
  obtain ⟨before, after, rfl⟩ := List.append_of_mem he
  have hperm : (e :: (before ++ after)).Perm (before ++ e :: after) := List.perm_middle.symm
  refine ⟨_, hperm, ?_⟩
  rw [objKey_eq, ← Entries.find?_perm hperm.symm hdistinct, hnone, List.find?_cons, hfold]
  rfl

/-- Every order finds the same exactly if the access is clear. -/
theorem objKey_orders_iff (hdistinct : (entries.map (·.1)).Nodup) :
    (∀ l l', l.Perm entries → l'.Perm entries → objKey l key = objKey l' key) ↔ Clear entries key := by
  constructor
  · intro h
    cases hkey : Entries.find? key entries with
    | some v => exact .inl (Option.isSome_of_eq_some hkey)
    | none =>
      refine .inr fun e he e' he' hfold hfold' => ?_
      obtain ⟨l, hl, hfound⟩ := objKey_first hkey hdistinct he hfold
      obtain ⟨l', hl', hfound'⟩ := objKey_first hkey hdistinct he' hfold'
      rw [← hfound, ← hfound', h l l' hl hl']
  · intro hclear l l' hl hl'
    rw [objKey_perm hdistinct hclear hl, objKey_perm hdistinct hclear hl']

end

theorem decided_members {obj prop} (h : ∀ entries key, obj = .obj entries → prop = .str key →
    (entries.map (·.1)).Nodup ∧ Clear entries key) : Decided (members obj prop) (.ok (memberOf obj prop)) := by
  cases obj with
  | obj entries =>
    refine ⟨⟨entries, .refl _, rfl⟩, ?_⟩
    rintro out ⟨entries', hperm, rfl⟩
    cases prop with
    | str key =>
      obtain ⟨hdistinct, hclear⟩ := h entries key rfl rfl
      have hsame := objKey_perm hdistinct hclear hperm
      show SameOutcome (.ok (objKey entries' key)) (.ok (objKey entries key))
      rw [hsame]
      exact .ok _
    | _ => exact .ok _
  | _ => exact decided_eq _

/-! ## Syntax trees -/

theorem decided_outcomes (env : Env) (node : Node) :
    AllClear env node → Decided (outcomes env node) (evalNode env node) :=
  @Node.rec (fun node => AllClear env node → Decided (outcomes env node) (evalNode env node))
    (fun args => ArgsClear env args → Decided (argOutcomes env args) (evalArgs env args)) (fun v _ => decided_eq _)
    (fun name _ => by
      rw [evalNode_ident, outcomes]
      cases env.lookup name with
      | some v => exact decided_eq _
      | none =>
        refine ⟨⟨_, .refl _, rfl⟩, ?_⟩
        rintro out ⟨names, hperm, rfl⟩
        exact .error (.contexts name hperm))
    (fun obj prop hobj hprop h => by
      rw [evalNode_member, outcomes]
      refine (hobj h.1).bind fun o ho => (hprop h.2.1).bind fun p hp => decided_members ?_
      rintro entries key rfl rfl
      exact h.2.2 entries key ho hp)
    (fun x hx h => by
      rw [evalNode_unary, outcomes]
      exact (hx h).bind fun v _ => decided_eq _)
    (fun op l r hl hr h => by
      rw [evalNode_binary, outcomes]
      refine (hl h.1).bind fun lv hlv => ?_
      split
      · exact decided_eq _
      · rename_i hand
        split
        · exact decided_eq _
        · rename_i hor
          rcases h.2 lv hlv with hand' | hor' | hr'
          · exact absurd hand' hand
          · exact absurd hor' hor
          · exact (hr hr').bind fun rv _ => decided_eq _)
    (fun name args hargs h => by
      rw [evalNode_call, outcomes]
      cases lookupFn name with
      | none => exact decided_eq _
      | some fn => exact (hargs h).bind fun vs _ => decided_eq _)
    (fun _ => decided_eq _)
    (fun a rest ha hrest h => by
      rw [evalArgs_cons, argOutcomes]
      exact (ha h.1).bind fun v _ => (hrest h.2).bind fun vs _ => decided_eq _) node

/-- The accesses stay clear with further contexts. -/
theorem allClear_extends {env env' : Env} (h : env.Extends env') (node : Node) :
    AllClear env node → ∀ v, evalNode env node = .ok v → AllClear env' node :=
  @Node.rec (fun node => AllClear env node → ∀ v, evalNode env node = .ok v → AllClear env' node)
    (fun args => ArgsClear env args → ∀ vs, evalArgs env args = .ok vs → ArgsClear env' args)
    (fun _ _ _ _ => trivial) (fun _ _ _ _ => trivial)
    (fun obj prop hobj hprop hclear v hv => by
      rw [evalNode_member] at hv
      obtain ⟨o, ho, hv⟩ := bind_eq_ok.mp hv
      obtain ⟨p, hp, -⟩ := bind_eq_ok.mp hv
      refine ⟨hobj hclear.1 o ho, hprop hclear.2.1 p hp, fun entries key ho' hp' => ?_⟩
      rw [evalNode_extends h obj o ho, Except.ok.injEq] at ho'
      rw [evalNode_extends h prop p hp, Except.ok.injEq] at hp'
      rw [ho'] at ho
      rw [hp'] at hp
      exact hclear.2.2 entries key ho hp)
    (fun x hx hclear v hv => by
      rw [evalNode_unary] at hv
      obtain ⟨w, hw, -⟩ := bind_eq_ok.mp hv
      exact hx hclear w hw)
    (fun op l r hl hr hclear v hv => by
      rw [evalNode_binary] at hv
      obtain ⟨lv, hlv, hv⟩ := bind_eq_ok.mp hv
      refine ⟨hl hclear.1 lv hlv, fun lv' hlv' => ?_⟩
      rw [evalNode_extends h l lv hlv, Except.ok.injEq] at hlv'
      subst hlv'
      rcases hclear.2 lv hlv with hand | hor | hclear
      · exact .inl hand
      · exact .inr (.inl hor)
      · by_cases hand : op = .and ∧ lv.truthy = false
        · exact .inl hand
        by_cases hor : op = .or ∧ lv.truthy
        · exact .inr (.inl hor)
        rw [if_neg hand, if_neg hor] at hv
        obtain ⟨rv, hrv, -⟩ := bind_eq_ok.mp hv
        exact .inr (.inr (hr hclear rv hrv)))
    (fun name args hargs hclear v hv => by
      rw [evalNode_call] at hv
      cases hfn : lookupFn name with
      | none =>
        rw [hfn] at hv
        cases hv
      | some fn =>
        rw [hfn] at hv
        obtain ⟨vs, hvs, -⟩ := bind_eq_ok.mp hv
        exact hargs hclear vs hvs)
    (fun _ _ _ => trivial)
    (fun a rest ha hrest hclear vs hvs => by
      rw [evalArgs_cons] at hvs
      obtain ⟨w, hw, hvs⟩ := bind_eq_ok.mp hvs
      obtain ⟨ws, hws, -⟩ := bind_eq_ok.mp hvs
      exact ⟨ha hclear.1 w hw, hrest hclear.2 ws hws⟩) node

/-! ## Expressions, templates and conditions -/

section

variable {env env' : Env}

theorem decided_eval {expr} (hclear : ExprClear env expr) : Decided (evalOutcomes expr env) (eval expr env) := by
  unfold evalOutcomes eval
  cases hparse : parse expr with
  | error err => exact decided_eq _
  | ok n => exact decided_outcomes env n (hclear n hparse)

theorem exprClear_extends (h : env.Extends env') {expr v} (hclear : ExprClear env expr) (hv : eval expr env = .ok v) :
    ExprClear env' expr := by
  intro n hparse
  rw [eval, hparse] at hv
  exact allClear_extends h n (hclear n hparse) v hv

theorem decided_truthy {expr} (hclear : ExprClear env expr) :
    Decided ((evalOutcomes expr env).bind fun v => (· = .ok v.truthy)) ((eval expr env).map truthy) := by
  have hmap : (eval expr env).map truthy = (eval expr env).bind fun v => .ok v.truthy := by
    cases eval expr env <;> rfl
  rw [hmap]
  exact (decided_eval hclear).bind fun v _ => decided_eq _

/-- A placeholder and what follows it. -/
theorem loop_opening (tpl : Bytes) (env : Env) (fuel : Nat) {c rest}
    (hopens : opening.isPrefixOf (c :: rest)) {len}
    (hlen : Bytes.index closing ((c :: rest).drop opening.length) = some len) :
    interpolateLoop tpl env (fuel + 1) (c :: rest) =
      ((eval (Bytes.trimSpace (((c :: rest).drop opening.length).take len)) env).mapError
        (.template (Bytes.trimSpace (((c :: rest).drop opening.length).take len)))).bind fun v =>
      (interpolateLoop tpl env fuel (((c :: rest).drop opening.length).drop (len + closing.length))).bind fun text =>
        .ok (v.display ++ text) := by
  rw [interpolateLoop, if_pos hopens]
  dsimp only
  rw [hlen]
  dsimp only
  cases eval (Bytes.trimSpace (((c :: rest).drop opening.length).take len)) env with
  | error err => rfl
  | ok v =>
    cases interpolateLoop tpl env fuel (((c :: rest).drop opening.length).drop (len + closing.length)) <;> rfl

theorem loop_literal (tpl : Bytes) (env : Env) (fuel : Nat) {c rest}
    (hopens : ¬opening.isPrefixOf (c :: rest)) : interpolateLoop tpl env (fuel + 1) (c :: rest) =
      (interpolateLoop tpl env fuel rest).bind fun text => .ok (c :: text) := by
  rw [interpolateLoop, if_neg hopens]
  cases interpolateLoop tpl env fuel rest <;> rfl

theorem decided_loop (tpl : Bytes) (fuel : Nat) (s : Bytes) (hclear : LoopClear env fuel s) :
    Decided (loopOutcomes tpl env fuel s) (interpolateLoop tpl env fuel s) := by
  induction fuel generalizing s with
  | zero => exact decided_eq _
  | succ fuel ih =>
    cases s with
    | nil => exact decided_eq _
    | cons c rest =>
      rw [LoopClear] at hclear
      rw [loopOutcomes]
      by_cases hopens : opening.isPrefixOf (c :: rest)
      · rw [if_pos hopens] at hclear ⊢
        dsimp only at hclear ⊢
        cases hlen : Bytes.index closing ((c :: rest).drop opening.length) with
        | none =>
          rw [interpolateLoop, if_pos hopens]
          dsimp only
          rw [hlen]
          exact decided_eq _
        | some len =>
          rw [hlen] at hclear
          rw [loop_opening tpl env fuel hopens hlen]
          exact ((decided_eval hclear.1).template _).bind fun v _ => (ih _ hclear.2).bind fun text _ => decided_eq _
      · rw [if_neg hopens] at hclear ⊢
        rw [loop_literal tpl env fuel hopens]
        exact (ih rest hclear).bind fun text _ => decided_eq _

theorem loopClear_extends (h : env.Extends env') (tpl : Bytes) (fuel : Nat) (s : Bytes) {text}
    (hclear : LoopClear env fuel s) (htext : interpolateLoop tpl env fuel s = .ok text) : LoopClear env' fuel s := by
  induction fuel generalizing s text with
  | zero => trivial
  | succ fuel ih =>
    cases s with
    | nil => trivial
    | cons c rest =>
      rw [LoopClear] at hclear ⊢
      by_cases hopens : opening.isPrefixOf (c :: rest)
      · rw [if_pos hopens] at hclear ⊢
        dsimp only at hclear ⊢
        cases hlen : Bytes.index closing ((c :: rest).drop opening.length) with
        | none => trivial
        | some len =>
          rw [hlen] at hclear
          rw [loop_opening tpl env fuel hopens hlen] at htext
          obtain ⟨v, hv, htext⟩ := bind_eq_ok.mp htext
          obtain ⟨more, hmore, -⟩ := bind_eq_ok.mp htext
          exact ⟨exprClear_extends h hclear.1 (mapError_eq_ok.mp hv), ih _ hclear.2 hmore⟩
      · rw [if_neg hopens] at hclear ⊢
        rw [loop_literal tpl env fuel hopens] at htext
        obtain ⟨more, hmore, -⟩ := bind_eq_ok.mp htext
        exact ih rest hclear hmore

/-- A condition with placeholders is evaluated after them. -/
theorem evaluateCondition_template {raw : Bytes} (hne : raw.trimSpace ≠ [])
    (htpl : Bytes.contains raw.trimSpace opening) : evaluateCondition raw env =
      (interpolate raw.trimSpace env).bind fun rendered =>
        if rendered.trimSpace = [] then .ok true else (eval rendered.trimSpace env).map truthy := by
  rw [evaluateCondition]
  dsimp only
  rw [if_neg hne, if_pos htpl]
  cases interpolate raw.trimSpace env <;> rfl

theorem decided_condition {raw} (hclear : ConditionClear env raw) :
    Decided (conditionOutcomes raw env) (evaluateCondition raw env) := by
  unfold ConditionClear at hclear
  unfold conditionOutcomes
  dsimp only at hclear ⊢
  by_cases hne : raw.trimSpace = []
  · rw [if_pos hne, evaluateCondition, if_pos hne]
    exact decided_eq _
  by_cases htpl : Bytes.contains raw.trimSpace opening
  · rw [if_pos htpl] at hclear
    rw [if_neg hne, if_pos htpl, evaluateCondition_template hne htpl]
    refine (decided_loop raw.trimSpace _ _ hclear.1).bind fun rendered hrendered => ?_
    split
    · exact decided_eq _
    · exact decided_truthy (hclear.2 rendered hrendered)
  · rw [if_neg htpl] at hclear
    rw [if_neg hne, if_neg htpl, evaluateCondition, if_neg hne, if_neg htpl]
    exact decided_truthy hclear

theorem evaluateCondition_extends (h : env.Extends env') (raw : Bytes) :
    Keeps (evaluateCondition raw env) (evaluateCondition raw env') := by
  have hcond : ∀ expr, Keeps ((eval expr env).map truthy) ((eval expr env').map truthy) :=
    fun expr => (eval_extends h expr).map _
  by_cases hne : raw.trimSpace = []
  · rw [evaluateCondition, if_pos hne, evaluateCondition, if_pos hne]
    exact fun _ hb => hb
  by_cases htpl : Bytes.contains raw.trimSpace opening
  · rw [evaluateCondition_template hne htpl, evaluateCondition_template hne htpl]
    refine (interpolateLoop_extends h _ _ _).bind fun rendered => ?_
    split
    · exact fun _ hb => hb
    · exact hcond _
  · rw [evaluateCondition, if_neg hne, if_neg htpl, evaluateCondition, if_neg hne, if_neg htpl]
    exact hcond _

theorem conditionClear_extends (h : env.Extends env') {raw b} (hne : raw.trimSpace ≠ [])
    (hclear : ConditionClear env raw) (hb : evaluateCondition raw env = .ok b) : ConditionClear env' raw := by
  unfold ConditionClear at hclear ⊢
  dsimp only at hclear ⊢
  by_cases htpl : Bytes.contains raw.trimSpace opening
  · rw [if_pos htpl] at hclear ⊢
    rw [evaluateCondition_template hne htpl] at hb
    obtain ⟨rendered, hrendered, hb⟩ := bind_eq_ok.mp hb
    refine ⟨loopClear_extends h _ _ _ hclear.1 hrendered, fun rendered' hrendered' => ?_⟩
    have hsame := interpolateLoop_extends h _ _ _ rendered hrendered
    cases hsame.symm.trans hrendered'
    by_cases hblank : rendered.trimSpace = []
    · have hempty : (parse []).isOk = false := by decide
      rw [hblank]
      intro n hn
      rw [hn] at hempty
      cases hempty
    · rw [if_neg hblank] at hb
      obtain ⟨v, hv, -⟩ := map_eq_ok.mp hb
      exact exprClear_extends h (hclear.2 rendered hrendered) hv
  · rw [if_neg htpl] at hclear ⊢
    rw [evaluateCondition, if_neg hne, if_neg htpl] at hb
    obtain ⟨v, hv, -⟩ := map_eq_ok.mp hb
    exact exprClear_extends h hclear hv

/-! ## The order and further contexts -/

/-- The outcome of `x` is that of `x'` too, whatever the orders. -/
def Stable {α : Type} (x x' : Outcomes α) : Prop := ∀ a, x (.ok a) → ∀ out, x' out → out = .ok a

theorem stable_of_decided {α : Type} {x x' : Outcomes α} {y y' : Except ExprError α} (h : Decided x y)
    (hkeeps : Keeps y y') (h' : ∀ a, y = .ok a → Decided x' y') : Stable x x' := by
  intro a ha out hout
  have hy := h.ok ha
  exact (h' a hy).eq_ok (hkeeps a hy) hout

/-- The property `key` of the context `name`. -/
def access (name key : Bytes) : Node := .member (.ident name) (.literal (.str key))

theorem outcomes_access {name entries} (hname : env.lookup name = some (.obj entries)) (key : Bytes)
    (out : Except ExprError Value) : outcomes env (access name key) out ↔
      ∃ entries', entries'.Perm entries ∧ out = .ok (objKey entries' key) := by
  rw [access, outcomes, outcomes, outcomes, hname]
  constructor
  · rintro (⟨err, herr, -⟩ | ⟨o, ho, ⟨err, herr, -⟩ | ⟨p, hp, hout⟩⟩)
    · cases herr
    · cases herr
    · cases ho
      cases hp
      exact hout
  · intro hout
    exact .inr ⟨_, rfl, .inr ⟨_, rfl, hout⟩⟩

/-- The access to one property of a context is stable exactly if it is clear. -/
theorem stable_access_iff {name entries key} (hname : env.lookup name = some (.obj entries))
    (hname' : env'.lookup name = some (.obj entries)) (hdistinct : (entries.map (·.1)).Nodup) :
    Stable (outcomes env (access name key)) (outcomes env' (access name key)) ↔ Clear entries key := by
  rw [← objKey_orders_iff hdistinct]
  constructor
  · intro hstable l l' hl hl'
    have hsame := hstable _ ((outcomes_access hname key _).mpr ⟨l, hl, rfl⟩) _
      ((outcomes_access hname' key _).mpr ⟨l', hl', rfl⟩)
    exact (Except.ok.inj hsame).symm
  · rintro hall v hv out hout
    obtain ⟨l, hl, hv⟩ := (outcomes_access hname key _).mp hv
    obtain ⟨l', hl', rfl⟩ := (outcomes_access hname' key _).mp hout
    rw [hv, hall l l' hl hl']

end

/-- A process environment with two variables that differ only in case. -/
def twoPaths : Env := Env.new.withContext (ofString "env")
  (.obj [(ofString "Path", text "1"), (ofString "PATH", text "2")])

/-- The same environment in a later phase. -/
def twoPathsLater : Env := twoPaths.withContext (ofString "steps") (.obj [])

theorem twoPaths_extends : twoPaths.Extends twoPathsLater := by
  refine ⟨fun name v hv => ?_, by decide +kernel, fun _ h => h⟩
  rw [twoPathsLater, Env.lookup, Env.withContext, Entries.find?_assign, if_neg]
  · exact hv
  · intro heq
    rw [Env.lookup, heq] at hv
    exact absurd (Option.isSome_of_eq_some hv) (by decide +kernel)

theorem parse_Path : parse (ofString "env.Path") = .ok (access (ofString "env") (ofString "Path")) := rfl

theorem exprClear_Path : ExprClear twoPaths (ofString "env.Path") := by
  intro n hn
  cases hn.symm.trans parse_Path
  refine ⟨trivial, trivial, fun entries key ho hp => ?_⟩
  cases hp
  cases ho
  exact ⟨by decide, .inl (by decide)⟩

/-- The variable that is found is any of the two. -/
theorem evalOutcomes_path {env entries} (hlookup : env.lookup (ofString "env") = some (.obj
      [(ofString "Path", text "1"), (ofString "PATH", text "2")]))
    (hperm : entries.Perm [(ofString "Path", text "1"), (ofString "PATH", text "2")]) :
    evalOutcomes (ofString "env.path") env (.ok (objKey entries (ofString "path"))) := by
  have hparse : parse (ofString "env.path") = .ok (access (ofString "env") (ofString "path")) := rfl
  rw [evalOutcomes, hparse]
  exact (outcomes_access hlookup _ _).mpr ⟨entries, hperm, rfl⟩

end Forgelet.Expression
