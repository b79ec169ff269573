import Forgelet.Expression.Proofs.GrammarProofs
import Forgelet.Expression.Proofs.LexerProofs

/-!
# Proofs: the parser decides the grammar

What a parsing function returns is read by the grammar from the kinds of the tokens, and what the grammar reads is
returned, by every call with enough fuel.
-/

namespace Forgelet.Expression

open Bytes (byte ofString)

variable {toks : List Tok} {g : Goal} {text : Bytes}

/-- The tokens without their places. -/
def kinds (ts : List Token) : List Tok := ts.map Token.tok

theorem peek_kinds (ts : List Token) : peek (kinds ts) = (cur ts).tok := by
  cases ts with
  | nil | cons => rfl

theorem kinds_next {t ts} (h : t.tok ≠ .eof) : next (t :: ts) = ts := by
  rw [next, if_neg h]

section Accept

variable {p : Punct} {ts ts' : List Token}

theorem accept_some (h : accept p ts = some ts') : kinds ts = .punct p :: kinds ts' := by
  unfold accept at h
  split_ifs at h with hcur
  rw [← Option.some.inj h]
  cases ts with
  | nil => cases hcur
  | cons t ts =>
    have htok : t.tok = .punct p := hcur
    rw [kinds_next (by rw [htok]; exact nofun), kinds, List.map_cons, htok]
    rfl

theorem accept_none (h : accept p ts = none) : peek (kinds ts) ≠ .punct p := by
  unfold accept at h
  split_ifs at h with hcur
  rw [peek_kinds]
  exact hcur

theorem accept_of_peek (h : peek (kinds ts) ≠ .punct p) : accept p ts = none := by
  rw [peek_kinds] at h
  rw [accept, if_neg h]

theorem kinds_eq_cons {t} (h : kinds ts = t :: toks) : ∃ tok ts', ts = tok :: ts' ∧ tok.tok = t ∧ kinds ts' = toks := by
  cases ts with
  | nil => cases h
  | cons tok ts' =>
    obtain ⟨htok, hrest⟩ := List.cons.inj h
    exact ⟨tok, ts', rfl, htok, hrest⟩

theorem accept_of_kinds (h : kinds ts = .punct p :: toks) : ∃ ts', accept p ts = some ts' ∧ kinds ts' = toks := by
  obtain ⟨t, ts', rfl, htok, hrest⟩ := kinds_eq_cons h
  refine ⟨ts', ?_, hrest⟩
  have hcur : (cur (t :: ts')).tok = .punct p := htok
  rw [accept, if_pos hcur, kinds_next (by rw [htok]; exact nofun)]

end Accept

/-- The parser of a goal. -/
def parseGoal (expr : Bytes) (fuel : Nat) (g : Goal) (ts : List Token) : Parsed :=
  match g with
  | .or => parseOr expr fuel ts
  | .orTail l => orLoop expr fuel l ts
  | .and => parseAnd expr fuel ts
  | .andTail l => andLoop expr fuel l ts
  | .compare => parseCompare expr fuel ts
  | .compareTail l => compareLoop expr fuel l ts
  | .unary => parseUnary expr fuel ts
  | .chain => parsePostfix expr fuel ts
  | .chainTail x => postfixLoop expr fuel x ts
  | .primary => parsePrimary expr fuel ts
  | .args name read => argsLoop expr fuel name read ts

section Sound

variable {expr : Bytes} {fuel : Nat} {ts r : List Token} {n : Node}

/-- What calls with the fuel at hand return is read by the grammar. -/
def SoundAt (expr : Bytes) (fuel : Nat) : Prop :=
  ∀ g ts n r, parseGoal expr fuel g ts = .ok (n, r) → Parses g (kinds ts) n (kinds r)

section

variable (ih : SoundAt expr fuel)
include ih

theorem sound_compareTail {l} (h : compareLoop expr (fuel + 1) l ts = .ok (n, r)) :
    Parses (.compareTail l) (kinds ts) n (kinds r) := by
  rw [compareLoop] at h
  split at h
  · rename_i hnone
    cases h
    exact .compareEnd (by rw [peek_kinds]; exact hnone)
  · rename_i op hop
    split at h
    · cases h
    · rename_i x ts' hx
      cases ts with
      | nil => cases hop
      | cons t ts =>
        have hop' : compareOp t.tok = some op := hop
        have heof : t.tok ≠ .eof := fun heof => by rw [heof] at hop'; cases hop'
        rw [kinds_next heof] at hx
        exact .compareMore hop' (ih .unary _ _ _ hx) (ih (.compareTail _) _ _ _ h)

theorem sound_unary (h : parseUnary expr (fuel + 1) ts = .ok (n, r)) :
    Parses .unary (kinds ts) n (kinds r) := by
  rw [parseUnary] at h
  split at h
  · rename_i ts' hsome
    split at h
    · cases h
    · rename_i x ts'' hx
      cases h
      rw [accept_some hsome]
      exact .not (ih .unary _ _ _ hx)
  · rename_i hnone
    exact .plain (accept_none hnone) (ih .chain _ _ _ h)

theorem sound_chainTail {x} (h : postfixLoop expr (fuel + 1) x ts = .ok (n, r)) :
    Parses (.chainTail x) (kinds ts) n (kinds r) := by
  rw [postfixLoop] at h
  split at h
  · rename_i ts' hdot
    split at h
    · cases h
    · rename_i prop ts'' hprop
      split at h
      · rename_i key hkey
        rw [accept_some hdot]
        exact .dot (ih .primary _ _ _ hprop) hkey (ih (.chainTail _) _ _ _ h)
      · cases h
  · rename_i hdot
    split at h
    · rename_i hlbrack
      cases h
      exact .chainEnd (accept_none hdot) (accept_none hlbrack)
    · rename_i ts' hlbrack
      split at h
      · cases h
      · rename_i idx ts'' hidx
        split at h
        · cases h
        · rename_i ts''' hrbrack
          have hinner := ih .or _ _ _ hidx
          rw [accept_some hrbrack] at hinner
          rw [accept_some hlbrack]
          exact .index hinner (ih (.chainTail _) _ _ _ h)

theorem sound_args {name read} (h : argsLoop expr (fuel + 1) name read ts = .ok (n, r)) :
    Parses (.args name read) (kinds ts) n (kinds r) := by
  rw [argsLoop] at h
  split at h
  · cases h
  · rename_i a ts' ha
    have harg := ih .or _ _ _ ha
    split at h
    · rename_i ts'' hcomma
      rw [accept_some hcomma] at harg
      exact .argsMore harg (ih (.args _ _) _ _ _ h)
    · split at h
      · rename_i ts'' hrparen
        cases h
        rw [accept_some hrparen] at harg
        exact .argsEnd harg
      · cases h

theorem sound_primary (h : parsePrimary expr (fuel + 1) ts = .ok (n, r)) :
    Parses .primary (kinds ts) n (kinds r) := by
  cases ts with
  | nil => cases h
  | cons t ts =>
    have hcur : (cur (t :: ts)).tok = t.tok := rfl
    have hkinds : kinds (t :: ts) = t.tok :: kinds ts := rfl
    rw [parsePrimary, hcur] at h
    rw [hkinds]
    cases htok : t.tok with
    | eof =>
      rw [htok] at h
      cases h
    | number num text =>
      rw [htok, kinds_next (by rw [htok]; exact nofun)] at h
      cases h
      exact .number
    | string str =>
      rw [htok, kinds_next (by rw [htok]; exact nofun)] at h
      cases h
      exact .string
    | ident text =>
      rw [htok, kinds_next (by rw [htok]; exact nofun)] at h
      dsimp only at h
      cases hconst : constant text with
      | some v =>
        rw [hconst] at h
        cases h
        exact .constant hconst
      | none =>
        rw [hconst] at h
        dsimp only at h
        split at h
        · rename_i hlparen
          cases h
          exact .ident hconst (accept_none hlparen)
        · rename_i ts' hlparen
          rw [accept_some hlparen]
          split at h
          · rename_i ts'' hrparen
            cases h
            rw [accept_some hrparen]
            exact .callEmpty hconst
          · rename_i hrparen
            exact .call hconst (accept_none hrparen) (ih (.args text []) _ _ _ h)
    | punct p =>
      cases p
      case lparen =>
        rw [htok, kinds_next (by rw [htok]; exact nofun)] at h
        dsimp only at h
        split at h
        · cases h
        · rename_i inner ts' hinner
          split at h
          · cases h
          · rename_i ts'' hrparen
            cases h
            have hread := ih .or _ _ _ hinner
            rw [accept_some hrparen] at hread
            exact .paren hread
      all_goals
        rw [htok] at h
        cases h

end

theorem parseGoal_sound (expr : Bytes) (fuel : Nat) : SoundAt expr fuel := by
  induction fuel with
  | zero =>
    intro g ts n r h
    cases g
    all_goals cases h
  | succ fuel ih =>
    intro g ts n r h
    cases g with
    | or =>
      rw [parseGoal, parseOr] at h
      split at h
      · cases h
      · rename_i l ts' hl
        exact .or (ih .and _ _ _ hl) (ih (.orTail l) _ _ _ h)
    | orTail l =>
      rw [parseGoal, orLoop] at h
      split at h
      · rename_i hnone
        cases h
        exact .orEnd (accept_none hnone)
      · rename_i ts' hsome
        split at h
        · cases h
        · rename_i x ts'' hx
          rw [accept_some hsome]
          exact .orMore (ih .and _ _ _ hx) (ih (.orTail _) _ _ _ h)
    | and =>
      rw [parseGoal, parseAnd] at h
      split at h
      · cases h
      · rename_i l ts' hl
        exact .and (ih .compare _ _ _ hl) (ih (.andTail l) _ _ _ h)
    | andTail l =>
      rw [parseGoal, andLoop] at h
      split at h
      · rename_i hnone
        cases h
        exact .andEnd (accept_none hnone)
      · rename_i ts' hsome
        split at h
        · cases h
        · rename_i x ts'' hx
          rw [accept_some hsome]
          exact .andMore (ih .compare _ _ _ hx) (ih (.andTail _) _ _ _ h)
    | compare =>
      rw [parseGoal, parseCompare] at h
      split at h
      · cases h
      · rename_i l ts' hl
        exact .compare (ih .unary _ _ _ hl) (ih (.compareTail l) _ _ _ h)
    | compareTail l => exact sound_compareTail ih h
    | unary => exact sound_unary ih h
    | chain =>
      rw [parseGoal, parsePostfix] at h
      split at h
      · cases h
      · rename_i x ts' hx
        exact .chain (ih .primary _ _ _ hx) (ih (.chainTail x) _ _ _ h)
    | chainTail x => exact sound_chainTail ih h
    | primary => exact sound_primary ih h
    | args name read => exact sound_args ih h

end Sound

/-- The calls that a goal makes before a token is read, and itself. -/
@[simp] def Goal.rank : Goal → Nat
  | .or => 6
  | .and => 5
  | .compare => 4
  | .unary => 3
  | .chain => 2
  | _ => 1

/-- There is fuel for a goal and eight calls for every token that is read. -/
def Fuelled (g : Goal) (fuel : Nat) (ts r : List Tok) : Prop := g.rank + 8 * ts.length ≤ fuel + 8 * r.length

/-- What the grammar reads is returned by every call with enough fuel. -/
def CompleteAt (g : Goal) (toks : List Tok) (n : Node) (r : List Tok) : Prop :=
  ∀ expr fuel ts, kinds ts = toks → Fuelled g fuel toks r → ∃ r', parseGoal expr fuel g ts = .ok (n, r') ∧ kinds r' = r

/-- It suffices to look at calls with some fuel left. -/
theorem complete_of_succ {r n} (hle : r.length ≤ toks.length)
    (h : ∀ expr fuel ts, kinds ts = toks → Fuelled g (fuel + 1) toks r →
      ∃ r', parseGoal expr (fuel + 1) g ts = .ok (n, r') ∧ kinds r' = r)
    : CompleteAt g toks n r := by
  intro expr fuel ts hts hfuel
  cases fuel with
  | zero =>
    have hrank : 1 ≤ g.rank := by
      cases g
      all_goals exact Nat.succ_pos _
    unfold Fuelled at hfuel
    omega
  | succ fuel => exact h expr fuel ts hts hfuel

section Complete

variable {ts ts' r : List Tok} {l x n : Node} {g₁ g₂ : Goal}

/-- A call that passes over `before`, makes another call and passes over `after`. -/
theorem complete_one (before after : List Tok) (hx : Parses g₁ ts x (after ++ r)) (ih : CompleteAt g₁ ts x (after ++ r))
    (hrank : g₁.rank < g.rank + 8 * before.length + 8 * after.length)
    (hcalls : ∀ expr fuel toks, kinds toks = before ++ ts → ∃ toks', kinds toks' = ts ∧
      ∀ r₁, kinds r₁ = after ++ r → parseGoal expr fuel g₁ toks' = .ok (x, r₁) →
      ∃ r₂, parseGoal expr (fuel + 1) g toks = .ok (n, r₂) ∧ kinds r₂ = r)
    : CompleteAt g (before ++ ts) n r := by
  have hle := hx.length_le
  rw [List.length_append] at hle
  refine complete_of_succ (by rw [List.length_append]; omega) fun expr fuel toks htoks hfuel => ?_
  obtain ⟨toks', htoks', hcall⟩ := hcalls expr fuel toks htoks
  obtain ⟨r₁, hr₁, hk₁⟩ := ih expr fuel toks' htoks' (by simp only [Fuelled, List.length_append] at hfuel ⊢; omega)
  exact hcall r₁ hk₁ hr₁

/-- A call that passes over `before`, makes another call, passes over `after` and goes on. -/
theorem complete_two (before after : List Tok) (hx : Parses g₁ ts x (after ++ ts')) (h : Parses g₂ ts' n r)
    (ih₁ : CompleteAt g₁ ts x (after ++ ts')) (ih₂ : CompleteAt g₂ ts' n r) (heager : g₁.eager)
    (hrank : g₁.rank < g.rank + 8 * before.length + 8 * after.length ∧ g₂.rank ≤ g.rank)
    (hcalls : ∀ expr fuel toks, kinds toks = before ++ ts → ∃ toks', kinds toks' = ts ∧
      ∀ r₁, kinds r₁ = after ++ ts' → parseGoal expr fuel g₁ toks' = .ok (x, r₁) →
      ∃ r₂, kinds r₂ = ts' ∧ parseGoal expr (fuel + 1) g toks = parseGoal expr fuel g₂ r₂) :
    CompleteAt g (before ++ ts) n r := by
  have hlt := hx.length_lt heager
  have hle := h.length_le
  rw [List.length_append] at hlt
  refine complete_of_succ (by rw [List.length_append]; omega) fun expr fuel toks htoks hfuel => ?_
  obtain ⟨toks', htoks', hcall⟩ := hcalls expr fuel toks htoks
  simp only [Fuelled, List.length_append] at hfuel
  obtain ⟨r₁, hr₁, hk₁⟩ := ih₁ expr fuel toks' htoks' (by rw [Fuelled, List.length_append]; omega)
  obtain ⟨r₂, hk₂, heq⟩ := hcall r₁ hk₁ hr₁
  rw [heq]
  exact ih₂ expr fuel r₂ hk₂ (by unfold Fuelled; omega)

theorem complete_end {p} (hend : peek ts ≠ .punct p)
    (hcalls : ∀ expr fuel toks, accept p toks = none → parseGoal expr (fuel + 1) g toks = .ok (l, toks)) :
    CompleteAt g ts l ts := by
  refine complete_of_succ le_rfl fun expr fuel toks htoks _ => ⟨toks, ?_, htoks⟩
  rw [← htoks] at hend
  exact hcalls expr fuel toks (accept_of_peek hend)

theorem complete_compareTailEnd (hend : compareOp (peek ts) = none) : CompleteAt (.compareTail l) ts l ts := by
  refine complete_of_succ le_rfl fun expr fuel toks htoks _ => ⟨toks, ?_, htoks⟩
  rw [← htoks, peek_kinds] at hend
  rw [parseGoal, compareLoop, hend]

theorem complete_chainTailEnd (hdot : peek ts ≠ .punct .dot) (hlbrack : peek ts ≠ .punct .lbrack) :
    CompleteAt (.chainTail x) ts x ts := by
  refine complete_of_succ le_rfl fun expr fuel toks htoks _ => ⟨toks, ?_, htoks⟩
  rw [← htoks] at hdot hlbrack
  rw [parseGoal, postfixLoop, accept_of_peek hdot]
  rw [accept_of_peek hlbrack]

theorem complete_literal {t v} (ht : t ≠ .eof)
    (hread : ∀ expr fuel toks, (cur toks).tok = t → parsePrimary expr (fuel + 1) toks = .ok (.literal v, next toks)) :
    CompleteAt .primary (t :: r) (.literal v) r := by
  refine complete_of_succ (Nat.le_succ _) fun expr fuel toks htoks _ => ?_
  obtain ⟨tok, toks', rfl, rfl, htoks'⟩ := kinds_eq_cons htoks
  refine ⟨toks', ?_, htoks'⟩
  rw [parseGoal, hread _ _ _ rfl, kinds_next ht]

theorem complete_ident (hconst : constant text = none) (hcall : peek r ≠ .punct .lparen) :
    CompleteAt .primary (.ident text :: r) (.ident text) r := by
  refine complete_of_succ (Nat.le_succ _) fun expr fuel toks htoks _ => ?_
  obtain ⟨tok, toks', rfl, htok, htoks'⟩ := kinds_eq_cons htoks
  refine ⟨toks', ?_, htoks'⟩
  have hcur : (cur (tok :: toks')).tok = .ident text := htok
  rw [← htoks'] at hcall
  rw [parseGoal, parsePrimary, hcur]
  dsimp only
  rw [hconst, kinds_next (by rw [htok]; exact Tok.noConfusion)]
  rw [accept_of_peek hcall]

theorem parsePrimary_call (hconst : constant text = none) {toks}
    (htoks : kinds toks = .ident text :: .punct .lparen :: ts) (expr : Bytes) (fuel : Nat) :
    ∃ toks', kinds toks' = ts ∧ parsePrimary expr (fuel + 1) toks =
      ((accept .rparen toks').map fun r => (Node.call text [], r)).elim (argsLoop expr fuel text [] toks') .ok := by
  obtain ⟨tok, toks₁, rfl, htok, htoks₁⟩ := kinds_eq_cons htoks
  obtain ⟨toks', hlparen, htoks'⟩ := accept_of_kinds htoks₁
  have hcur : (cur (tok :: toks₁)).tok = .ident text := htok
  refine ⟨toks', htoks', ?_⟩
  rw [parsePrimary, hcur]
  dsimp only
  rw [hconst, kinds_next (by rw [htok]; exact Tok.noConfusion)]
  rw [hlparen]
  dsimp only
  cases accept .rparen toks' with
  | none | some => rfl

theorem complete_callEmpty (hconst : constant text = none) :
    CompleteAt .primary (.ident text :: .punct .lparen :: .punct .rparen :: r) (.call text []) r := by
  refine complete_of_succ (by simp only [List.length_cons]; omega) fun expr fuel toks htoks _ => ?_
  obtain ⟨toks', htoks', hcall⟩ := parsePrimary_call hconst htoks expr fuel
  obtain ⟨r', hrparen, hr'⟩ := accept_of_kinds htoks'
  refine ⟨r', ?_, hr'⟩
  rw [parseGoal, hcall, hrparen]
  rfl

end Complete

theorem parseGoal_complete {r n} (h : Parses g toks n r) : CompleteAt g toks n r := by
  induction h with
  | or hl h ih₁ ih₂ =>
    refine complete_two [] [] hl h ih₁ ih₂ rfl (by simp) fun expr fuel toks htoks =>
      ⟨toks, htoks, fun r₁ hk₁ hfirst => ⟨r₁, hk₁, ?_⟩⟩
    rw [parseGoal, parseOr, show parseAnd expr fuel toks = _ from hfirst]
    rfl
  | orEnd hend =>
    refine complete_end hend fun expr fuel toks hnone => ?_
    rw [parseGoal, orLoop, hnone]
  | orMore hx h ih₁ ih₂ =>
    refine complete_two [.punct .or] [] hx h ih₁ ih₂ rfl (by simp) fun expr fuel toks htoks => ?_
    obtain ⟨toks', haccept, htoks'⟩ := accept_of_kinds htoks
    refine ⟨toks', htoks', fun r₁ hk₁ hfirst => ⟨r₁, hk₁, ?_⟩⟩
    rw [parseGoal, orLoop, haccept]
    dsimp only
    rw [show parseAnd expr fuel toks' = _ from hfirst]
    rfl
  | and hl h ih₁ ih₂ =>
    refine complete_two [] [] hl h ih₁ ih₂ rfl (by simp) fun expr fuel toks htoks =>
      ⟨toks, htoks, fun r₁ hk₁ hfirst => ⟨r₁, hk₁, ?_⟩⟩
    rw [parseGoal, parseAnd, show parseCompare expr fuel toks = _ from hfirst]
    rfl
  | andEnd hend =>
    refine complete_end hend fun expr fuel toks hnone => ?_
    rw [parseGoal, andLoop, hnone]
  | andMore hx h ih₁ ih₂ =>
    refine complete_two [.punct .and] [] hx h ih₁ ih₂ rfl (by simp) fun expr fuel toks htoks => ?_
    obtain ⟨toks', haccept, htoks'⟩ := accept_of_kinds htoks
    refine ⟨toks', htoks', fun r₁ hk₁ hfirst => ⟨r₁, hk₁, ?_⟩⟩
    rw [parseGoal, andLoop, haccept]
    dsimp only
    rw [show parseCompare expr fuel toks' = _ from hfirst]
    rfl
  | compare hl h ih₁ ih₂ =>
    refine complete_two [] [] hl h ih₁ ih₂ rfl (by simp) fun expr fuel toks htoks =>
      ⟨toks, htoks, fun r₁ hk₁ hfirst => ⟨r₁, hk₁, ?_⟩⟩
    rw [parseGoal, parseCompare, show parseUnary expr fuel toks = _ from hfirst]
    rfl
  | compareEnd hend => exact complete_compareTailEnd hend
  | @compareMore t _ _ _ op _ _ _ hop hx h ih₁ ih₂ =>
    refine complete_two [t] [] hx h ih₁ ih₂ rfl (by simp) fun expr fuel toks htoks => ?_
    obtain ⟨tok, toks', rfl, rfl, htoks'⟩ := kinds_eq_cons htoks
    refine ⟨toks', htoks', fun r₁ hk₁ hfirst => ⟨r₁, hk₁, ?_⟩⟩
    have hcur : compareOp (cur (tok :: toks')).tok = some op := hop
    have heof : tok.tok ≠ .eof := fun heof => by
      rw [heof] at hop
      cases hop
    rw [parseGoal, compareLoop, hcur]
    rw [kinds_next heof, show parseUnary expr fuel toks' = _ from hfirst]
    rfl
  | not h ih =>
    refine complete_one [.punct .not] [] h ih (by simp) fun expr fuel toks htoks => ?_
    obtain ⟨toks', haccept, htoks'⟩ := accept_of_kinds htoks
    refine ⟨toks', htoks', fun r₁ hk₁ hfirst => ⟨r₁, ?_, hk₁⟩⟩
    rw [parseGoal, parseUnary, haccept]
    dsimp only
    rw [show parseUnary expr fuel toks' = _ from hfirst]
  | plain hnot h ih =>
    refine complete_one [] [] h ih (by simp) fun expr fuel toks htoks =>
      ⟨toks, htoks, fun r₁ hk₁ hfirst => ⟨r₁, ?_, hk₁⟩⟩
    rw [parseGoal, parseUnary, accept_of_peek (by rw [htoks]; exact hnot)]
    exact hfirst
  | chain hl h ih₁ ih₂ =>
    refine complete_two [] [] hl h ih₁ ih₂ rfl (by simp) fun expr fuel toks htoks =>
      ⟨toks, htoks, fun r₁ hk₁ hfirst => ⟨r₁, hk₁, ?_⟩⟩
    rw [parseGoal, parsePostfix, show parsePrimary expr fuel toks = _ from hfirst]
    rfl
  | chainEnd hdot hlbrack => exact complete_chainTailEnd hdot hlbrack
  | dot hprop hkey h ih₁ ih₂ =>
    refine complete_two [.punct .dot] [] hprop h ih₁ ih₂ rfl (by simp) fun expr fuel toks htoks => ?_
    obtain ⟨toks', haccept, htoks'⟩ := accept_of_kinds htoks
    refine ⟨toks', htoks', fun r₁ hk₁ hfirst => ⟨r₁, hk₁, ?_⟩⟩
    rw [parseGoal, postfixLoop, haccept]
    dsimp only
    rw [show parsePrimary expr fuel toks' = _ from hfirst]
    dsimp only
    rw [hkey]
    rfl
  | index hidx h ih₁ ih₂ =>
    refine complete_two [.punct .lbrack] [.punct .rbrack] hidx h ih₁ ih₂ rfl (by simp)
      fun expr fuel toks htoks => ?_
    have hdot : peek (kinds toks) ≠ .punct .dot := by
      rw [htoks]
      nofun
    obtain ⟨toks', haccept, htoks'⟩ := accept_of_kinds htoks
    refine ⟨toks', htoks', fun r₁ hk₁ hfirst => ?_⟩
    obtain ⟨r₂, hrbrack, hk₂⟩ := accept_of_kinds hk₁
    refine ⟨r₂, hk₂, ?_⟩
    rw [parseGoal, postfixLoop, accept_of_peek hdot]
    rw [haccept]
    dsimp only
    rw [show parseOr expr fuel toks' = _ from hfirst]
    dsimp only
    rw [hrbrack]
    rfl
  | number | string =>
    refine complete_literal nofun fun expr fuel toks hcur => ?_
    rw [parsePrimary, hcur]
  | constant hconst =>
    refine complete_literal nofun fun expr fuel toks hcur => ?_
    rw [parsePrimary, hcur]
    dsimp only
    rw [hconst]
  | ident hconst hcall => exact complete_ident hconst hcall
  | callEmpty hconst => exact complete_callEmpty hconst
  | @call text _ _ _ hconst hargs h ih =>
    refine complete_one [.ident text, .punct .lparen] [] h ih (by simp) fun expr fuel toks htoks => ?_
    obtain ⟨toks', htoks', hcall⟩ := parsePrimary_call hconst htoks expr fuel
    refine ⟨toks', htoks', fun r₁ hk₁ hfirst => ⟨r₁, ?_, hk₁⟩⟩
    rw [parseGoal, hcall, accept_of_peek (by rw [htoks']; exact hargs)]
    exact hfirst
  | paren h ih =>
    refine complete_one [.punct .lparen] [.punct .rparen] h ih (by simp) fun expr fuel toks htoks => ?_
    obtain ⟨tok, toks', rfl, htok, htoks'⟩ := kinds_eq_cons htoks
    have hcur : (cur (tok :: toks')).tok = .punct .lparen := htok
    refine ⟨toks', htoks', fun r₁ hk₁ hfirst => ?_⟩
    obtain ⟨r₂, hrparen, hk₂⟩ := accept_of_kinds hk₁
    refine ⟨r₂, ?_, hk₂⟩
    rw [parseGoal, parsePrimary, hcur]
    rw [kinds_next (by rw [htok]; exact nofun), show parseOr expr fuel toks' = _ from hfirst]
    dsimp only
    rw [hrparen]
  | argsMore ha h ih₁ ih₂ =>
    refine complete_two [] [.punct .comma] ha h ih₁ ih₂ rfl (by simp) fun expr fuel toks htoks =>
      ⟨toks, htoks, fun r₁ hk₁ hfirst => ?_⟩
    obtain ⟨r₂, hcomma, hk₂⟩ := accept_of_kinds hk₁
    refine ⟨r₂, hk₂, ?_⟩
    rw [parseGoal, argsLoop, show parseOr expr fuel toks = _ from hfirst]
    dsimp only
    rw [hcomma]
    rfl
  | argsEnd ha ih =>
    refine complete_one [] [.punct .rparen] ha ih (by simp) fun expr fuel toks htoks =>
      ⟨toks, htoks, fun r₁ hk₁ hfirst => ?_⟩
    have hcomma : peek (kinds r₁) ≠ .punct .comma := by
      rw [hk₁]
      nofun
    obtain ⟨r₂, hrparen, hk₂⟩ := accept_of_kinds hk₁
    refine ⟨r₂, ?_, hk₂⟩
    rw [parseGoal, argsLoop, show parseOr expr fuel toks = _ from hfirst]
    dsimp only
    rw [accept_of_peek hcomma]
    rw [hrparen]

theorem Parses.unique {ts r r' n n'} (h : Parses g ts n r) (h' : Parses g ts n' r') : n = n' ∧ r = r' := by
  have hkinds : kinds (ts.map fun t => ⟨t, 0, 0, 0⟩) = ts := by
    rw [kinds, List.map_map]
    exact List.map_id ts
  obtain ⟨q, hq, rfl⟩ := parseGoal_complete h [] (g.rank + 8 * ts.length) _ hkinds (Nat.le_add_right ..)
  obtain ⟨q', hq', rfl⟩ := parseGoal_complete h' [] (g.rank + 8 * ts.length) _ hkinds (Nat.le_add_right ..)
  rw [hq] at hq'
  cases hq'
  exact ⟨rfl, rfl⟩

/-- The rest of some tokens is the end, if the next token is. -/
theorem eq_end {used r ts} (h : ts ++ [.eof] = used ++ r) (hts : .eof ∉ ts) (hused : .eof ∉ used) (hr : peek r = .eof) :
    r = [.eof] ∧ used = ts := by
  cases r with
  | nil =>
    rw [List.append_nil] at h
    rw [← h] at hused
    exact absurd (List.mem_append_right ts (.head _)) hused
  | cons t r =>
    obtain rfl : t = .eof := hr
    rcases List.append_eq_append_iff.mp h with ⟨u, hu, hrest⟩ | ⟨u, hu, hrest⟩
    · cases u with
      | nil =>
        rw [List.append_nil] at hu
        exact ⟨hrest.symm, hu⟩
      | cons t u =>
        rw [hu] at hused
        obtain ⟨rfl, -⟩ := List.cons.inj hrest
        exact absurd (List.mem_append_right ts (.head _)) hused
    · cases u with
      | nil =>
        rw [List.append_nil] at hu
        exact ⟨hrest, hu.symm⟩
      | cons t u =>
        rw [hu] at hts
        obtain ⟨rfl, -⟩ := List.cons.inj hrest
        exact absurd (List.mem_append_right used (.head _)) hts

/-- What `parse` makes of the tokens of the text. -/
def Returns (expr : Bytes) (toks : List Token) (n : Node) : Prop :=
  ∃ r, parseOr expr (8 * (toks.length + 1)) toks = .ok (n, r) ∧ (cur r).tok = .eof

theorem returns_iff {expr toks ts} (hkinds : kinds toks = ts ++ [.eof]) (hlive : .eof ∉ ts) {n} :
    Returns expr toks n ↔ Parses .or (ts ++ [.eof]) n [.eof] := by
  constructor
  · rintro ⟨r, hor, heof⟩
    have hread : Parses .or (kinds toks) n (kinds r) := parseGoal_sound expr (8 * (toks.length + 1)) .or toks n r hor
    obtain ⟨used, hsplit, hused⟩ := hread.reads
    rw [hkinds] at hread hsplit
    have hend := (eq_end hsplit hlive hused.live (by rw [peek_kinds]; exact heof)).1
    rwa [hend] at hread
  · intro hread
    have hlength : toks.length = (ts ++ [Tok.eof]).length := by rw [← hkinds, kinds, List.length_map]
    obtain ⟨r, hr, hend⟩ := parseGoal_complete hread expr (8 * (toks.length + 1)) toks hkinds
      (by simp only [Fuelled, Goal.rank, hlength, List.length_singleton]; omega)
    refine ⟨r, hr, ?_⟩
    rw [← peek_kinds, hend]
    rfl

/-- `parse` returns the tree that is read from all the tokens of the text. -/
theorem parse_iff {expr n} :
    parse expr = .ok n ↔ ∃ ts, Lexes expr (ts ++ [.eof]) ∧ Parses .or (ts ++ [.eof]) n [.eof] := by
  constructor
  · intro h
    unfold parse at h
    split at h
    · cases h
    · rename_i toks htoks
      split at h
      · cases h
      · rename_i n' r hor
        split_ifs at h with heof
        cases h
        have hlexes : Lexes expr (kinds toks) := tokens_sound htoks
        obtain ⟨ts, hts, hlive⟩ := hlexes.shape
        exact ⟨ts, hts ▸ hlexes, (returns_iff hts hlive).mp ⟨r, hor, heof⟩⟩
  · rintro ⟨ts, hlexes, hread⟩
    obtain ⟨toks, htoks, hkinds⟩ := tokens_complete hlexes
    obtain ⟨us, hus, hlive⟩ := hlexes.shape
    obtain rfl := List.append_cancel_right hus
    have hreturns : Returns expr toks n := (returns_iff hkinds hlive).mpr hread
    obtain ⟨r, hor, heof⟩ := hreturns
    unfold parse
    rw [htoks]
    dsimp only
    rw [hor]
    dsimp only
    rw [if_pos heof]

theorem parse_blanks {pre post expr} (hpre : ∀ b ∈ pre, isBlank b) (hpost : ∀ b ∈ post, isBlank b) {n} :
    parse (pre ++ (expr ++ post)) = .ok n ↔ parse expr = .ok n := by
  simp only [parse_iff, lexes_blanks hpre hpost]

end Forgelet.Expression
