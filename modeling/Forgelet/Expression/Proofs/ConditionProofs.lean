import Forgelet.Expression.Proofs.TemplateProofs

/-!
# Proofs: conditions

A condition without placeholders is put between parentheses, as text, and read again. So the implicit `success()` is a
conjunction, except for texts that close those parentheses themselves. A condition that is one placeholder is
evaluated, written as a text, and that text is evaluated.
-/

namespace Forgelet.Expression

open Bytes (byte contains ofString)
open Value (truthy)

variable {cond text : Bytes} {ts : List Tok} {n : Node} {env : Env} {v : Value}

/-! ## The wrapper -/

/-- The tokens of `success() && (`. -/
def successToks : List Tok :=
  [.ident (ofString "success"), .punct .lparen, .punct .rparen, .punct .and, .punct .lparen]

/-- The text of a condition with the implicit `success()`. -/
def wrapped (cond : Bytes) : Bytes := ofString "success() && (" ++ cond ++ ofString ")"

theorem lexes_success {s toks} :
    Lexes (ofString "success() && (" ++ s) toks ↔ ∃ toks', toks = successToks ++ toks' ∧ Lexes s toks' := by
  -- one token after the other, from the front
  have hident : ∀ {toks}, Lexes (ofString "success() && (" ++ s) toks ↔
      ∃ toks', toks = .ident (ofString "success") :: toks' ∧ Lexes (ofString "() && (" ++ s) toks' :=
    lexes_token (ofString "success") rfl rfl
  have hlparen : ∀ {toks}, Lexes (ofString "() && (" ++ s) toks ↔
      ∃ toks', toks = .punct .lparen :: toks' ∧ Lexes (ofString ") && (" ++ s) toks' :=
    lexes_token (ofString "(") rfl rfl
  have hrparen : ∀ {toks}, Lexes (ofString ") && (" ++ s) toks ↔
      ∃ toks', toks = .punct .rparen :: toks' ∧ Lexes (ofString " && (" ++ s) toks' :=
    lexes_token (ofString ")") rfl rfl
  have hand : ∀ {toks}, Lexes (ofString " && (" ++ s) toks ↔
      ∃ toks', toks = .punct .and :: toks' ∧ Lexes (ofString " (" ++ s) toks' :=
    lexes_token (ofString "&&") rfl rfl
  have hopen : ∀ {toks}, Lexes (ofString " (" ++ s) toks ↔ ∃ toks', toks = .punct .lparen :: toks' ∧ Lexes s toks' :=
    lexes_token (ofString "(") rfl rfl
  constructor
  · intro h
    obtain ⟨_, rfl, h₁⟩ := hident.mp h
    obtain ⟨_, rfl, h₂⟩ := hlparen.mp h₁
    obtain ⟨_, rfl, h₃⟩ := hrparen.mp h₂
    obtain ⟨_, rfl, h₄⟩ := hand.mp h₃
    obtain ⟨toks', rfl, h₅⟩ := hopen.mp h₄
    exact ⟨toks', rfl, h₅⟩
  · rintro ⟨toks', rfl, h⟩
    exact hident.mpr ⟨_, rfl, hlparen.mpr ⟨_, rfl, hrparen.mpr ⟨_, rfl, hand.mpr ⟨_, rfl, hopen.mpr ⟨_, rfl, h⟩⟩⟩⟩⟩

theorem lexes_wrapped {toks} : Lexes (wrapped cond) toks ↔
      ∃ ts, toks = successToks ++ (ts ++ [.punct .rparen, .eof]) ∧ Lexes cond (ts ++ [.eof]) := by
  have htext : wrapped cond = ofString "success() && (" ++ (cond ++ [byte ')']) := List.append_assoc ..
  rw [htext, lexes_success]
  constructor
  · rintro ⟨toks', rfl, h⟩
    obtain ⟨ts, rfl, hlexes⟩ := lexes_rparen.mp h
    exact ⟨ts, rfl, hlexes⟩
  · rintro ⟨ts, rfl, h⟩
    exact ⟨_, rfl, lexes_rparen.mpr ⟨ts, rfl, h⟩⟩

theorem compare_of_primary {r} (h : Parses .primary ts n r) (hnot : peek ts ≠ .punct .not) (hdot : peek r ≠ .punct .dot)
    (hlbrack : peek r ≠ .punct .lbrack) (hop : compareOp (peek r) = none) : Parses .compare ts n r :=
  .compare (.plain hnot (.chain h (.chainEnd hdot hlbrack))) (.compareEnd hop)

theorem primary_of_compare {r} (hnot : peek ts ≠ .punct .not) (h : Parses .compare ts n r) :
    ∃ x r', Parses .primary ts x r' := by
  cases h with
  | compare hunary _ =>
    cases hunary with
    | not _ => exact absurd rfl hnot
    | plain _ hchain =>
      cases hchain with
      | chain hx _ => exact ⟨_, _, hx⟩

/-- The call of `success`. -/
theorem compare_success (r : List Tok) :
    Parses .compare (.ident (ofString "success") :: .punct .lparen :: .punct .rparen :: .punct .and :: r)
      (.call (ofString "success") []) (.punct .and :: r) :=
  compare_of_primary (.callEmpty (by decide +kernel)) nofun nofun nofun rfl

/-- The tree of the conjunction with `success()`. -/
def conjunction (n : Node) : Node := .binary .and (.call (ofString "success") []) n

theorem parse_wrapped (h : parse cond = .ok n) : parse (wrapped cond) = .ok (conjunction n) := by
  obtain ⟨ts, hlexes, hread⟩ := parse_iff.mp h
  obtain ⟨used, hsplit, hused⟩ := hread.reads
  obtain rfl : ts = used := List.append_cancel_right hsplit
  have hinner : Parses .or (ts ++ [.punct .rparen, .eof]) n [.punct .rparen, .eof] :=
    hused.again _ (.inr ⟨.inl rfl, .inr rfl⟩)
  have hright : Parses .compare (.punct .lparen :: (ts ++ [.punct .rparen, .eof])) n [.eof] :=
    compare_of_primary (.paren hinner) nofun nofun nofun rfl
  have hall : Parses .or (successToks ++ (ts ++ [.punct .rparen, .eof])) (conjunction n) [.eof] :=
    .or (.and (compare_success _) (.andMore hright (.andEnd nofun))) (.orEnd nofun)
  refine parse_iff.mpr ⟨successToks ++ (ts ++ [.punct .rparen]), ?_, ?_⟩
  · simp only [List.append_assoc, List.singleton_append]
    exact lexes_wrapped.mpr ⟨ts, rfl, hlexes⟩
  · simp only [List.append_assoc, List.singleton_append]
    exact hall

theorem parses_wrapped (h : Parses .or (successToks ++ (ts ++ [.punct .rparen, .eof])) n [.eof]) :
    ∃ inner r, Parses .or (ts ++ [.punct .rparen, .eof]) inner (.punct .rparen :: r) := by
  cases h with
  | or hand _ =>
    cases hand with
    | and hcompare htail =>
      obtain ⟨rfl, rfl⟩ := hcompare.unique (compare_success _)
      cases htail with
      | andEnd hend => exact absurd rfl hend
      | andMore hx _ =>
        obtain ⟨x, r, hprimary⟩ := primary_of_compare (by intro hpeek; cases hpeek) hx
        cases hprimary with
        | paren h => exact ⟨_, _, h⟩

/-- Whether every closing parenthesis of a text has its opening one before it. -/
def parensClosed (text : Bytes) : Bool :=
  match tokens text with
  | .error _ => true
  | .ok ts => (openAfterAll 0 (kinds ts)).isSome

theorem openAfterAll_of_parensClosed (h : parensClosed text) (hlexes : Lexes text (ts ++ [.eof])) :
    openAfterAll 0 ts ≠ none := by
  obtain ⟨toks, htoks, hkinds⟩ := tokens_complete hlexes
  have hkinds' : kinds toks = ts ++ [.eof] := hkinds
  unfold parensClosed at h
  rw [htoks] at h
  dsimp only at h
  rw [hkinds', openAfterAll_append] at h
  intro hnone
  rw [hnone] at h
  cases h

/-- A text whose parentheses are its own is an expression, if it is one in the wrapper. -/
theorem parse_of_wrapped (h : parse (wrapped cond) = .ok n) (hclosed : parensClosed cond) :
    ∃ inner, parse cond = .ok inner := by
  obtain ⟨toks, hlexes, hread⟩ := parse_iff.mp h
  obtain ⟨ts, htoks, hcond⟩ := lexes_wrapped.mp hlexes
  rw [htoks] at hread
  obtain ⟨inner, r, hinner⟩ := parses_wrapped hread
  obtain ⟨used, hsplit, hused⟩ := hinner.reads
  have hbalanced : openAfterAll 0 used = some 0 := hused.balanced 0
  have hwhole : used = ts ∧ r = [.eof] := by
    rcases List.append_eq_append_iff.mp hsplit with ⟨u, hu, hrest⟩ | ⟨u, hu, hrest⟩
    · match u with
      | [] =>
        rw [List.append_nil] at hu
        exact ⟨hu, (List.cons.inj hrest).2.symm⟩
      | [t] => cases hrest
      | [t, t'] => cases hrest
      | t :: t' :: t'' :: u => cases hrest
    · cases u with
      | nil =>
        rw [List.append_nil] at hu
        exact ⟨hu.symm, (List.cons.inj hrest).2⟩
      | cons t u =>
        -- the parenthesis of the wrapper would be closed before the end of the condition
        obtain ⟨rfl, -⟩ := List.cons.inj hrest
        refine absurd ?_ (openAfterAll_of_parensClosed hclosed hcond)
        rw [hu, openAfterAll_append, hbalanced]
        rfl
  obtain ⟨rfl, rfl⟩ := hwhole
  exact ⟨inner, parse_iff.mpr ⟨used, hcond, hused.again [.eof] (.inr ⟨.inr rfl, .inl rfl⟩)⟩⟩

/-! ## Conditions without placeholders -/

/-- A condition that mentions no status function and no result. -/
structure Plain (cond : Bytes) : Prop where
  opening : contains cond opening = false
  status : mentionsStatusFunction cond = false
  needs : contains cond.toLower (ofString "needs.") = false
  job : contains cond.toLower (ofString "job.") = false

theorem implicitSuccess_plain (h : Plain cond) : implicitSuccess cond = wrapped cond := by
  unfold implicitSuccess
  rw [h.status, h.needs, h.job]
  rfl

theorem contains_toLower_trimSpace {sub} (h : contains cond.toLower sub = false) :
    contains cond.trimSpace.toLower sub = false := Bytes.contains_of_isInfix (Bytes.toLower_trimSpace cond) h

theorem Plain.trimSpace (h : Plain cond) : Plain cond.trimSpace where
  opening := Bytes.contains_of_isInfix (Bytes.trimSpace_isInfix cond) h.opening
  status := by
    have hall := h.status
    unfold mentionsStatusFunction at hall ⊢
    rw [List.any_eq_false] at hall ⊢
    intro fn hfn
    rw [Bool.not_eq_true, contains_toLower_trimSpace]
    exact Bool.not_eq_true _ ▸ hall fn hfn
  needs := contains_toLower_trimSpace h.needs
  job := contains_toLower_trimSpace h.job

/-- `strings.TrimSpace` takes nothing off but the white space of expressions. -/
def TrimsBlanks (text : Bytes) : Prop :=
  ∃ pre post, text = pre ++ (text.trimSpace ++ post) ∧ (∀ b ∈ pre, isBlank b) ∧ ∀ b ∈ post, isBlank b

theorem TrimsBlanks.parse (h : TrimsBlanks text) : parse text = .ok n ↔ parse text.trimSpace = .ok n := by
  obtain ⟨pre, post, htext, hpre, hpost⟩ := h
  conv_lhs => rw [htext]
  rw [parse_blanks hpre hpost]

theorem trimsBlanks_of_parse (h : parse text = .ok n) : TrimsBlanks text ∧ text.trimSpace ≠ [] := by
  obtain ⟨pre, m, post, htext, hpre, hpost, hne, htrim⟩ := trimSpace_expr h
  have hm : text.trimSpace = m := by
    have hself := htrim [] [] (nofun) (nofun)
    rw [List.append_nil] at hself
    exact hself
  rw [← hm] at htext hne
  exact ⟨⟨pre, post, htext, hpre, hpost⟩, hne⟩

theorem evaluateCondition_bare (env : Env) (hne : cond.trimSpace ≠ [])
    (hopening : contains cond opening = false) :
    evaluateCondition cond env = (eval (implicitSuccess cond.trimSpace) env).map truthy := by
  unfold evaluateCondition
  rw [if_neg hne, Bytes.contains_of_isInfix (Bytes.trimSpace_isInfix cond) hopening]
  rfl

theorem evalNode_conjunction (env : Env) (n : Node) : (evalNode env (conjunction n)).map truthy =
      if env.jobStatus = ofString "success" then (evalNode env n).map truthy else .ok false := by
  have hfn : lookupFn (ofString "success") = some .success := by decide +kernel
  unfold conjunction
  simp only [evalNode, evalArgs, hfn, Fn.apply]
  by_cases hstatus : env.jobStatus = ofString "success"
  · rw [if_pos hstatus]
    simp only [hstatus, truthy]
    cases evalNode env n <;> rfl
  · rw [if_neg hstatus]
    simp only [hstatus, truthy]
    rfl

theorem eval_wrapped (env : Env) (h : parse cond = .ok n) : (eval (wrapped cond) env).map truthy =
      if env.jobStatus = ofString "success" then (eval cond env).map truthy else .ok false := by
  rw [eval, parse_wrapped h, eval, h]
  exact evalNode_conjunction env n

/-- The text stays inside the wrapper: only blanks are trimmed off it, and the parentheses that it closes are its own.
-/
structure StaysInside (cond : Bytes) : Prop where
  blanks : TrimsBlanks cond
  closed : parensClosed cond.trimSpace

theorem staysInside_of_parse (h : parse cond = .ok n) : StaysInside cond := by
  obtain ⟨htrim, -⟩ := trimsBlanks_of_parse h
  refine ⟨htrim, ?_⟩
  obtain ⟨ts, hlexes, hread⟩ := parse_iff.mp (htrim.parse.mp h)
  obtain ⟨used, hsplit, hused⟩ := hread.reads
  obtain rfl : ts = used := List.append_cancel_right hsplit
  obtain ⟨toks, htoks, hkinds⟩ := tokens_complete hlexes
  have hkinds' : kinds toks = ts ++ [.eof] := hkinds
  have hbalanced : openAfterAll 0 ts = some 0 := hused.balanced 0
  unfold parensClosed
  rw [htoks]
  dsimp only
  rw [hkinds', openAfterAll_append, hbalanced]
  rfl

/-- A text that stays inside is an expression, if it is one in the wrapper. -/
theorem StaysInside.parse (h : StaysInside cond) (hn : parse (wrapped cond.trimSpace) = .ok n) :
    ∃ inner, parse cond = .ok inner := by
  obtain ⟨inner, hinner⟩ := parse_of_wrapped hn h.closed
  exact ⟨inner, h.blanks.parse.mpr hinner⟩

theorem evaluateCondition_plain (env : Env) (hne : cond.trimSpace ≠ []) (h : Plain cond) :
    evaluateCondition cond env = (eval (wrapped cond.trimSpace) env).map truthy := by
  rw [evaluateCondition_bare env hne h.opening, implicitSuccess_plain h.trimSpace]

theorem evaluateCondition_parsed (env : Env) (h : Plain cond) (hparse : parse cond = .ok n) :
    evaluateCondition cond env =
      if env.jobStatus = ofString "success" then (eval cond env).map truthy else .ok false := by
  obtain ⟨htrim, hne⟩ := trimsBlanks_of_parse hparse
  have hinner := htrim.parse.mp hparse
  have hsame : eval cond.trimSpace env = eval cond env := by rw [eval, eval, hparse, hinner]
  rw [evaluateCondition_plain env hne h, eval_wrapped env hinner, hsame]

/-- The implicit `success()` is a conjunction with an expression, and an error for a text that is none. -/
def Conjoins (cond : Bytes) (env : Env) : Prop :=
  ((∀ n, parse cond ≠ .ok n) → ∃ err, evaluateCondition cond env = .error err) ∧
    ∀ n, parse cond = .ok n → evaluateCondition cond env =
      if env.jobStatus = ofString "success" then (eval cond env).map truthy else .ok false

/-- The law holds for a text that stays inside the wrapper. No other text is an expression, and the law then asks for an
error, which there is if the text has no value in the wrapper. -/
theorem evaluateCondition_conjoins {cond : Bytes} (env : Env) (hne : cond.trimSpace ≠ []) (h : Plain cond) :
    (StaysInside cond → Conjoins cond env) ∧
      (¬StaysInside cond → (∀ n, parse cond ≠ .ok n) ∧
        (Conjoins cond env ↔ ∀ v, eval (wrapped cond.trimSpace) env ≠ .ok v)) := by
  have herror : (∃ err, evaluateCondition cond env = .error err) ↔ ∀ v, eval (wrapped cond.trimSpace) env ≠ .ok v := by
    rw [evaluateCondition_plain env hne h]
    cases eval (wrapped cond.trimSpace) env <;> simp [Except.map]
  constructor
  · refine fun hinside => ⟨fun hnone => herror.mpr fun v hv => ?_, fun n => evaluateCondition_parsed env h⟩
    obtain ⟨n, hn, -⟩ := parse_of_eval hv
    obtain ⟨inner, hinner⟩ := hinside.parse hn
    exact hnone inner hinner
  · intro hinside
    have hnone : ∀ n, parse cond ≠ .ok n := fun n hparse => hinside (staysInside_of_parse hparse)
    refine ⟨hnone, ?_⟩
    rw [← herror]
    exact ⟨fun hlaw => hlaw.1 hnone, fun herr => ⟨fun _ => herr, fun n hn => absurd hn (hnone n)⟩⟩

/-- A job that has failed. -/
def failing : Env := Env.new.withJobStatus (ofString "failure")

/-- An expression after a failure, and a text that is none. -/
theorem evaluateCondition_conjoins_parsed : evaluateCondition (ofString " 'a' == 'A' ") failing = .ok false ∧
      ∃ err, evaluateCondition (ofString "true &&") .new = .error err := by
  constructor
  · have hparse : (parse (ofString " 'a' == 'A' ")).isOk := by decide +kernel
    cases hn : parse (ofString " 'a' == 'A' ") with
    | error err =>
      rw [hn] at hparse
      cases hparse
    | ok n =>
      have hplain : Plain (ofString " 'a' == 'A' ") :=
        ⟨by decide +kernel, by decide +kernel, by decide +kernel, by decide +kernel⟩
      have hlaw := (evaluateCondition_conjoins failing (by decide +kernel) hplain).1 (staysInside_of_parse hn)
      exact (hlaw.2 n hn).trans (if_neg (by decide +kernel))
  · have hparse : (parse (ofString "true &&")).isOk = false := by decide +kernel
    have hnone : ∀ n, parse (ofString "true &&") ≠ .ok n := by
      intro n hn
      rw [hn] at hparse
      cases hparse
    have htrim : ofString "true &&" = [] ++ ((ofString "true &&").trimSpace ++ []) := by decide +kernel
    have hplain : Plain (ofString "true &&") :=
      ⟨by decide +kernel, by decide +kernel, by decide +kernel, by decide +kernel⟩
    have hinside : StaysInside (ofString "true &&") := ⟨⟨[], [], htrim, nofun, nofun⟩, by decide +kernel⟩
    exact ((evaluateCondition_conjoins .new (by decide +kernel) hplain).1 hinside).1 hnone

/-- Two texts that are no expressions and hold: one closes the parenthesis of the wrapper, one ends in a vertical tab.
-/
theorem evaluateCondition_unparsed : ((parse (ofString "true) || (true")).isOk = false ∧
        evaluateCondition (ofString "true) || (true") .new = .ok true) ∧
      (parse (ofString "true\x0b")).isOk = false ∧ evaluateCondition (ofString "true\x0b") .new = .ok true :=
  ⟨⟨by decide +kernel, by decide +kernel⟩, by decide +kernel, by decide +kernel⟩

/-! ## Conditions that are one placeholder -/

/-- A condition that is a placeholder: the text of the value is evaluated again. -/
def reread (env : Env) (v : Value) : Except ExprError Bool :=
  if v.display.trimSpace = [] then .ok true else (eval v.display.trimSpace env).map truthy

/-- A condition that mentions a status function or a result is evaluated as it is. -/
def stands (cond : Bytes) : Bool :=
  mentionsStatusFunction cond || contains cond.toLower (ofString "needs.") ||
    contains cond.toLower (ofString "job.")

theorem implicitSuccess_stands (h : stands cond) : implicitSuccess cond = cond := by
  unfold implicitSuccess
  rw [if_neg]
  unfold stands at h
  rw [Bool.or_eq_true, Bool.or_eq_true] at h
  rw [Bool.and_eq_true, Bool.and_eq_true, Bool.not_eq_true', Bool.not_eq_true', Bool.not_eq_true']
  rintro ⟨⟨hstatus, hneeds⟩, hjob⟩
  rw [hstatus, hneeds, hjob] at h
  simp at h

theorem plain_of_stands (hopening : contains cond opening = false) (h : stands cond = false) : Plain cond := by
  unfold stands at h
  rw [Bool.or_eq_false_iff, Bool.or_eq_false_iff] at h
  exact ⟨hopening, h.1.1, h.1.2, h.2⟩

theorem trimSpace_placeholder (expr : Bytes) : (placeholder expr).trimSpace = placeholder expr := by
  have hfirst : placeholder expr = 0x24 :: ([0x7B, 0x7B] ++ ([byte ' '] ++ (expr ++ [byte ' ']) ++ closing)) := rfl
  have hlast : placeholder expr = opening ++ ([byte ' '] ++ (expr ++ [byte ' ']) ++ [0x7D]) ++ [0x7D] := by
    rw [placeholder, closing_eq]
    simp only [List.append_assoc, List.cons_append, List.nil_append]
  have hedges : Bytes.trimSpace ([] ++ (placeholder expr ++ [])) = placeholder expr :=
    Bytes.trimSpace_of_edges (fun _ h => (List.not_mem_nil h).elim) (fun _ h => (List.not_mem_nil h).elim) hfirst hlast
      ⟨by decide, by decide⟩ ⟨by decide, by decide⟩
  rw [List.nil_append, List.append_nil] at hedges
  exact hedges

theorem interpolate_placeholder {expr} (hclosing : contains expr closing = false) (heval : eval expr env = .ok v)
    : interpolate (placeholder expr) env = .ok v.display := by
  have hloop := interpolateLoop_placeholder (placeholder expr) ((placeholder expr).length - 1) [] heval hclosing
  have hlength : (placeholder expr).length - 1 + 1 = (placeholder expr).length := by
    simp [placeholder, opening_eq]
  rw [List.append_nil, hlength] at hloop
  rw [interpolate, hloop]
  cases (placeholder expr).length - 1 <;> exact congrArg Except.ok (List.append_nil _)

theorem evaluateCondition_placeholder {expr} (hclosing : contains expr closing = false)
    (heval : eval expr env = .ok v) : evaluateCondition (placeholder expr) env = reread env v := by
  have hopens : contains (placeholder expr) opening :=
    Bytes.contains_iff_infix.mpr (List.prefix_append opening _).isInfix
  have hne : placeholder expr ≠ [] := List.append_ne_nil_of_left_ne_nil (List.cons_ne_nil _ _) _
  unfold evaluateCondition
  rw [trimSpace_placeholder, if_neg hne, hopens, interpolate_placeholder hclosing heval]
  rfl

/-- An expression as a condition holds if it is true and the job has not failed. -/
theorem evaluateCondition_expr {expr} (hopening : contains expr opening = false) (heval : eval expr env = .ok v) :
    evaluateCondition expr env =
      .ok (v.truthy && (decide (env.jobStatus = ofString "success") || stands expr.trimSpace)) := by
  obtain ⟨n, hparse, -⟩ := parse_of_eval heval
  obtain ⟨htrim, hne⟩ := trimsBlanks_of_parse hparse
  have hinner := htrim.parse.mp hparse
  have heval' : eval expr.trimSpace env = .ok v := by
    rw [← heval, eval, eval, hparse, hinner]
  rw [evaluateCondition_bare env hne hopening]
  cases hstands : stands expr.trimSpace with
  | true =>
    rw [implicitSuccess_stands hstands, heval', Bool.or_true, Bool.and_true]
    rfl
  | false =>
    have hinside : contains expr.trimSpace opening = false :=
      Bytes.contains_of_isInfix (Bytes.trimSpace_isInfix expr) hopening
    rw [implicitSuccess_plain (plain_of_stands hinside hstands), eval_wrapped env hinner, heval', Bool.or_false]
    by_cases hstatus : env.jobStatus = ofString "success"
    · rw [if_pos hstatus, decide_eq_true hstatus, Bool.and_true]
      rfl
    · rw [if_neg hstatus, decide_eq_false hstatus, Bool.and_false]

theorem eval_constant (env : Env) (hv : constant text = some v) (hscan : scan text = some (.ident text, text)) :
    eval text env = .ok v := by
  have hlexes : Lexes text ([.ident text] ++ [.eof]) := .single hscan
  have hread : Parses .or ([.ident text] ++ [.eof]) (.literal v) [.eof] :=
    .or (.and (compare_of_primary (.constant hv) nofun nofun nofun rfl) (.andEnd nofun)) (.orEnd nofun)
  rw [eval, parse_iff.mpr ⟨_, hlexes, hread⟩]
  rfl

/-- A boolean is read again as itself. -/
theorem reread_bool (env : Env) (b : Bool) : reread env (.bool b) = .ok b := by
  unfold reread
  cases b with
  | true =>
    have htrim : (Value.display (.bool true)).trimSpace = ofString "true" := by decide +kernel
    rw [htrim, if_neg (by decide), eval_constant (v := .bool true) env rfl rfl]
    rfl
  | false =>
    have htrim : (Value.display (.bool false)).trimSpace = ofString "false" := by decide +kernel
    rw [htrim, if_neg (by decide), eval_constant (v := .bool false) env rfl rfl]
    rfl

/-- A placeholder means what its expression means as a condition exactly if the text of the value reads as that. A
boolean does, unless it is true, the job failed and the expression mentions nothing of it. -/
theorem evaluateCondition_placeholder_iff {expr : Bytes} {env : Env} {v : Value}
    (hopening : contains expr opening = false) (hclosing : contains expr closing = false)
    (heval : eval expr env = .ok v) :
    (evaluateCondition (placeholder expr) env = reread env v ∧ evaluateCondition expr env =
      .ok (v.truthy && (decide (env.jobStatus = ofString "success") || stands expr.trimSpace))) ∧
    ((∃ b, evaluateCondition (placeholder expr) env = .ok b ∧ evaluateCondition expr env = .ok b) ↔
      reread env v = .ok (v.truthy && (decide (env.jobStatus = ofString "success") || stands expr.trimSpace))) ∧
    ∀ b, v = .bool b → (b = false ∨ env.jobStatus = ofString "success" ∨ stands expr.trimSpace) →
      evaluateCondition (placeholder expr) env = .ok b ∧ evaluateCondition expr env = .ok b := by
  rw [evaluateCondition_placeholder hclosing heval, evaluateCondition_expr hopening heval]
  refine ⟨⟨rfl, rfl⟩, ⟨?_, fun h => ⟨_, h, rfl⟩⟩, ?_⟩
  · rintro ⟨b, hb, hb'⟩
    rw [hb, hb']
  · rintro b rfl hb
    refine ⟨reread_bool env b, congrArg Except.ok ?_⟩
    show (b && _) = b
    rcases hb with rfl | hstatus | hstands
    · rfl
    · rw [decide_eq_true hstatus, Bool.true_or, Bool.and_true]
    · rw [hstands, Bool.or_true, Bool.and_true]

/-- A comparison, in a placeholder and without. -/
theorem evaluateCondition_placeholder_comparison :
    evaluateCondition (placeholder (ofString "'a' == 'A'")) .new = .ok true ∧
      evaluateCondition (ofString "'a' == 'A'") .new = .ok true :=
  (evaluateCondition_placeholder_iff (by decide +kernel) (by decide +kernel)
    (eval_of_sameScalar (v := .bool true) (by decide +kernel))).2.2 true rfl (.inr (.inl (by decide +kernel)))

/-- A constant of a job that failed, an empty text, and a text that is no expression. -/
theorem evaluateCondition_placeholder_differs : ((eval (ofString "true") failing).isOk ∧
        evaluateCondition (placeholder (ofString "true")) failing = .ok true ∧
        evaluateCondition (ofString "true") failing = .ok false) ∧ ((eval (ofString "''") .new).isOk ∧
        evaluateCondition (placeholder (ofString "''")) .new = .ok true ∧
        evaluateCondition (ofString "''") .new = .ok false) ∧ (eval (ofString "'a b'") .new).isOk ∧
      (evaluateCondition (placeholder (ofString "'a b'")) .new).isOk = false ∧
      evaluateCondition (ofString "'a b'") .new = .ok true := by
  decide +kernel

end Forgelet.Expression
