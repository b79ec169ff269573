import Forgelet.Expression.Eval
import Forgelet.Expression.Proofs.ParserProofs
import Forgelet.Lib.Runes

/-!
# Proofs: templates

A placeholder ends with the first two closing braces after its opening, wherever these stand; what is between is
trimmed and evaluated. In an expression such braces stand in a string, and the part of it before them is no expression.
-/

namespace Forgelet.Expression

open Bytes (byte ofString)
open Bytes

variable {expr : Bytes} {env : Env} {v : Value}

/-! ## Trimmed expressions -/

theorem isAsciiSpace_of_isBlank {b} (h : isBlank b) : IsAsciiSpace b := by
  have hcases : b = 0x20 ∨ b = 9 ∨ b = 13 ∨ b = 10 := by
    unfold isBlank at h
    grind
  rcases hcases with rfl | rfl | rfl | rfl
  all_goals exact ⟨by decide, by decide⟩

theorem isAsciiGraph_of_solid {b} (h : Solid b) : IsAsciiGraph b := by
  obtain ⟨hlow, hhigh⟩ := h
  rw [UInt8.le_iff_toNat_le] at hlow hhigh
  have hlow' : 33 ≤ b.toNat := hlow
  have hhigh' : b.toNat ≤ 126 := hhigh
  refine ⟨?_, ?_⟩
  · rw [IsAscii, UInt8.lt_iff_toNat_lt]
    exact Nat.lt_of_le_of_lt hhigh' (by decide)
  · have hvalid : (Char.ofNat b.toNat).toNat = b.toNat := by
      rw [Char.ofNat, dif_pos (.inl (by omega))]
      rfl
    simp only [GoString.isSpace, hvalid, Bool.or_eq_false_iff, Bool.and_eq_false_iff, decide_eq_false_iff_not,
      beq_eq_false_iff_ne]
    omega

/-- What is left of an expression, with or without more white space, when it is trimmed. -/
theorem trimSpace_expr {n} (h : parse expr = .ok n) :
    ∃ pre m post, expr = pre ++ (m ++ post) ∧ (∀ b ∈ pre, isBlank b) ∧ (∀ b ∈ post, isBlank b) ∧
      m ≠ [] ∧ ∀ before after, (∀ b ∈ before, isBlank b) → (∀ b ∈ after, isBlank b) →
        trimSpace (before ++ (expr ++ after)) = m := by
  obtain ⟨ts, hlexes, hread⟩ := parse_iff.mp h
  rcases hlexes.edges with hblank | ⟨pre, m, post, rfl, ⟨⟨b, t, hfirst, hb⟩, t', b', hlast, hb'⟩, hpre, hpost⟩
  · -- a text of white space is no expression
    have hlt := hread.length_lt rfl
    rw [hlexes.eq_eof hblank] at hlt
    exact absurd hlt (lt_irrefl _)
  · refine ⟨pre, m, post, rfl, hpre, hpost, ?_, fun before after hbefore hafter => ?_⟩
    · rw [hfirst]
      exact nofun
    · have hjoin : before ++ (pre ++ (m ++ post) ++ after) = (before ++ pre) ++ (m ++ (post ++ after)) := by
        simp only [List.append_assoc]
      rw [hjoin]
      refine trimSpace_of_edges (fun x hx => ?_) (fun x hx => ?_) hfirst hlast (isAsciiGraph_of_solid hb)
        (isAsciiGraph_of_solid hb')
      · rcases List.mem_append.mp hx with hx | hx
        · exact isAsciiSpace_of_isBlank (hbefore x hx)
        · exact isAsciiSpace_of_isBlank (hpre x hx)
      · rcases List.mem_append.mp hx with hx | hx
        · exact isAsciiSpace_of_isBlank (hpost x hx)
        · exact isAsciiSpace_of_isBlank (hafter x hx)

/-- An expression that evaluates does so when it is trimmed. -/
theorem eval_trimSpace {n} (h : parse expr = .ok n) {before after} (hbefore : ∀ b ∈ before, isBlank b)
    (hafter : ∀ b ∈ after, isBlank b) : eval (trimSpace (before ++ (expr ++ after))) env = eval expr env := by
  obtain ⟨pre, m, post, hexpr, hpre, hpost, -, htrim⟩ := trimSpace_expr h
  have hm : parse m = .ok n := by
    rw [← parse_blanks hpre hpost, ← hexpr]
    exact h
  rw [htrim before after hbefore hafter, eval, eval, h, hm]

theorem parse_of_eval (h : eval expr env = .ok v) : ∃ n, parse expr = .ok n ∧ evalNode env n = .ok v := by
  unfold eval at h
  split at h
  · cases h
  · rename_i n hparse
    exact ⟨n, hparse, h⟩

/-! ## Templates -/

/-- A placeholder, with the value of its expression, and the text after it. -/
structure Part where
  expr : Bytes
  value : Value
  after : Bytes

/-- The expression in a placeholder, between blanks. -/
def placeholder (expr : Bytes) : Bytes := opening ++ ([byte ' '] ++ (expr ++ [byte ' ']) ++ closing)

/-- The text of the template after its first literal. -/
def partsText (parts : List Part) : Bytes := parts.flatMap fun p => placeholder p.expr ++ p.after

/-- The text that is made of it. -/
def partsRendered (parts : List Part) : Bytes := parts.flatMap fun p => p.value.display ++ p.after

theorem opening_eq : opening = [0x24, 0x7B, 0x7B] := rfl

theorem closing_eq : closing = [0x7D, 0x7D] := rfl

theorem opening_of_append {t rest : Bytes} (ht : t ≠ []) (hrest : rest = [] ∨ opening <+: rest)
    (h : opening <+: t ++ rest) : opening <+: t := by
  rcases hrest with rfl | ⟨r, rfl⟩
  · rw [List.append_nil] at h
    exact h
  · rw [opening_eq] at h ⊢
    match t with
    | [] => exact absurd rfl ht
    | [a] =>
      simp only [List.cons_append, List.nil_append, List.cons_prefix_cons] at h
      exact absurd h.2.1 (by decide)
    | [a, b] =>
      simp only [List.cons_append, List.nil_append, List.cons_prefix_cons] at h
      exact absurd h.2.2.1 (by decide)
    | a :: b :: c :: t =>
      simp only [List.cons_append, List.cons_prefix_cons] at h ⊢
      exact ⟨h.1, h.2.1, h.2.2.1, List.nil_prefix⟩

theorem interpolateLoop_literal (tpl : Bytes) (env : Env) (fuel : Nat) {chunk rest : Bytes}
    (hchunk : contains chunk opening = false) (hrest : rest = [] ∨ opening <+: rest) :
    interpolateLoop tpl env (chunk.length + fuel) (chunk ++ rest) =
      (interpolateLoop tpl env fuel rest).map (chunk ++ ·) := by
  induction chunk with
  | nil =>
    rw [List.nil_append, List.length_nil, Nat.zero_add]
    cases interpolateLoop tpl env fuel rest <;> rfl
  | cons c chunk ih =>
    rw [Bool.eq_false_iff, ne_eq, contains_iff_infix] at hchunk
    have hnot : ¬opening.isPrefixOf (c :: (chunk ++ rest)) := fun hopen =>
      hchunk (opening_of_append (List.cons_ne_nil c chunk) hrest (List.isPrefixOf_iff_prefix.mp hopen)).isInfix
    have htail : contains chunk opening = false := by
      rw [Bool.eq_false_iff, ne_eq, contains_iff_infix]
      exact fun h => hchunk (List.infix_cons h)
    rw [List.cons_append, List.length_cons, Nat.add_right_comm, interpolateLoop, if_neg hnot, ih htail]
    cases interpolateLoop tpl env fuel rest <;> rfl

theorem index_closing {s} (h : contains s closing = false) (t : Bytes) :
    index closing (s ++ (byte ' ' :: (closing ++ t))) = some (s.length + 1) := by
  induction s with
  | nil => rfl
  | cons c s ih =>
    rw [Bool.eq_false_iff, ne_eq, contains_iff_infix] at h
    have hnot : ¬closing.isPrefixOf (c :: (s ++ (byte ' ' :: (closing ++ t)))) := by
      rw [closing_eq] at h
      rw [List.isPrefixOf_iff_prefix, closing_eq]
      cases s with
      | nil =>
        simp only [List.nil_append, List.cons_prefix_cons]
        exact fun hclose => absurd hclose.2.1 (by decide)
      | cons d s =>
        simp only [List.cons_append, List.cons_prefix_cons]
        rintro ⟨rfl, rfl, -⟩
        exact h ⟨[], s, rfl⟩
    have htail : contains s closing = false := by
      rw [Bool.eq_false_iff, ne_eq, contains_iff_infix]
      exact fun h' => h (List.infix_cons h')
    rw [List.cons_append, index, if_neg hnot, ih htail]
    rfl

/-- What becomes of a placeholder that ends after `inner`. -/
theorem interpolateLoop_opening (tpl : Bytes) (env : Env) (fuel : Nat) {inner rest}
    (hindex : index closing (inner ++ (closing ++ rest)) = some inner.length) :
    (∀ v, eval inner.trimSpace env = .ok v →
      interpolateLoop tpl env (fuel + 1) (opening ++ (inner ++ (closing ++ rest))) =
        (interpolateLoop tpl env fuel rest).map (v.display ++ ·)) ∧ ∀ err, eval inner.trimSpace env = .error err →
      interpolateLoop tpl env (fuel + 1) (opening ++ (inner ++ (closing ++ rest))) =
        .error (.template inner.trimSpace err) := by
  have hopen : opening.isPrefixOf (opening ++ (inner ++ (closing ++ rest))) :=
    List.isPrefixOf_iff_prefix.mpr (List.prefix_append _ _)
  have hdrop : (opening ++ (inner ++ (closing ++ rest))).drop opening.length = inner ++ (closing ++ rest) :=
    List.drop_left
  have htext : opening ++ (inner ++ (closing ++ rest)) = 0x24 :: ([0x7B, 0x7B] ++ (inner ++ (closing ++ rest))) := rfl
  rw [htext] at hopen hdrop ⊢
  rw [interpolateLoop, if_pos hopen]
  dsimp only
  rw [hdrop, hindex]
  dsimp only
  rw [List.take_left]
  refine ⟨fun v hv => ?_, fun err herr => ?_⟩
  · rw [hv]
    rw [← List.drop_drop, List.drop_left, List.drop_left]
  · rw [herr]

theorem isBlank_space : ∀ b ∈ [byte ' '], isBlank b := fun b hb => by
  rw [List.mem_singleton.mp hb]
  rfl

theorem interpolateLoop_placeholder (tpl : Bytes) (fuel : Nat) (rest : Bytes) (heval : eval expr env = .ok v)
    (hexpr : contains expr closing = false) :
    interpolateLoop tpl env (fuel + 1) (placeholder expr ++ rest) =
      (interpolateLoop tpl env fuel rest).map (v.display ++ ·) := by
  obtain ⟨n, hparse, -⟩ := parse_of_eval heval
  have hinner : eval (trimSpace ([byte ' '] ++ (expr ++ [byte ' ']))) env = .ok v :=
    (eval_trimSpace hparse isBlank_space isBlank_space).trans heval
  have hfront : contains (byte ' ' :: expr) closing = false := by
    rw [Bool.eq_false_iff, ne_eq, contains_iff_infix, closing_eq] at hexpr ⊢
    rw [List.infix_cons_iff, List.cons_prefix_cons]
    rintro (⟨hspace', -⟩ | h)
    · exact absurd hspace' (by decide)
    · exact hexpr h
  have hindex := index_closing hfront rest
  have hbody : byte ' ' :: expr ++ byte ' ' :: (closing ++ rest) =
      [byte ' '] ++ (expr ++ [byte ' ']) ++ (closing ++ rest) := by
    simp only [List.cons_append, List.nil_append, List.append_assoc]
  have hlength : (byte ' ' :: expr).length + 1 = ([byte ' '] ++ (expr ++ [byte ' '])).length := by
    simp only [List.length_append, List.length_cons, List.length_nil]
    omega
  rw [hbody, hlength] at hindex
  have htext : placeholder expr ++ rest = opening ++ ([byte ' '] ++ (expr ++ [byte ' ']) ++ (closing ++ rest)) := by
    rw [placeholder]
    simp only [List.append_assoc]
  rw [htext]
  exact (interpolateLoop_opening tpl env fuel hindex).1 v hinner

/-- An expression that is cut off at a brace is none, however it is trimmed. -/
theorem eval_cut {a b : Bytes} {n : Node} (h : parse (a ++ brace :: b) = .ok n) {before : Bytes}
    (hbefore : ∀ b ∈ before, isBlank b) (env : Env) : ∃ err, eval (trimSpace (before ++ a)) env = .error err := by
  cases heval : eval (trimSpace (before ++ a)) env with
  | error err => exact ⟨err, rfl⟩
  | ok v =>
    obtain ⟨n', hparse, -⟩ := parse_of_eval heval
    obtain ⟨ts, hlexes, -⟩ := parse_iff.mp h
    obtain ⟨ts', hlexes', -⟩ := parse_iff.mp hparse
    have hodd : (false ^^ (quotes a).bodd) = true := hlexes.closes.of_append.1 rfl
    have hsame : quotes (trimSpace (before ++ a)) = quotes a := by
      have htrim : quotes (trimSpace (before ++ a)) = quotes (before ++ a) :=
        count_trimSpace ⟨by decide, by decide⟩ _
      rw [htrim, quotes_append, quotes_blanks hbefore, Nat.zero_add]
    have heven : (false ^^ (quotes (trimSpace (before ++ a))).bodd) = false :=
      Closes.of_append (t := []) (by rw [List.append_nil]; exact hlexes'.closes)
    rw [hsame, hodd] at heven
    cases heven

/-- The first two closing braces in a text are found, whatever follows. -/
theorem index_inside {s} (h : contains s closing) :
    ∃ a b, s = a ++ (closing ++ b) ∧ ∀ t, index closing (s ++ t) = some a.length := by
  induction s with
  | nil => cases h
  | cons c s ih =>
    by_cases hstart : closing.isPrefixOf (c :: s)
    · obtain ⟨b, hb⟩ := List.isPrefixOf_iff_prefix.mp hstart
      refine ⟨[], b, hb.symm, fun t => ?_⟩
      rw [List.cons_append, index, if_pos]
      · rfl
      · rw [List.isPrefixOf_iff_prefix, ← List.cons_append]
        exact (List.isPrefixOf_iff_prefix.mp hstart).trans (List.prefix_append _ _)
    · have htail : closing <:+: s := by
        rw [Bytes.contains_iff_infix, List.infix_cons_iff] at h
        exact h.resolve_left fun hstarts => hstart (List.isPrefixOf_iff_prefix.mpr hstarts)
      obtain ⟨a, b, hs, hindex⟩ := ih (Bytes.contains_iff_infix.mpr htail)
      refine ⟨c :: a, b, by rw [hs, List.cons_append], fun t => ?_⟩
      have hnot : ¬closing.isPrefixOf (c :: (s ++ t)) := by
        intro hstarts
        rw [List.isPrefixOf_iff_prefix, ← List.cons_append] at hstarts
        refine hstart (List.isPrefixOf_iff_prefix.mpr ?_)
        exact List.prefix_of_prefix_length_le hstarts (List.prefix_append _ _) (htail.length_le.trans (Nat.le_succ _))
      rw [List.cons_append, index, if_neg hnot, hindex]
      rfl

/-- The placeholder of an expression with two closing braces in it is an error. -/
theorem interpolateLoop_cut (tpl : Bytes) (fuel : Nat) (rest : Bytes) (heval : eval expr env = .ok v)
    (hexpr : contains expr closing) :
    ∃ err, interpolateLoop tpl env (fuel + 1) (placeholder expr ++ rest) = .error err := by
  obtain ⟨n, hparse, -⟩ := parse_of_eval heval
  obtain ⟨a, b, rfl, hindex⟩ := index_inside hexpr
  obtain ⟨err, hcut⟩ := eval_cut hparse isBlank_space env
  have hfound : index closing ([byte ' '] ++ (a ++ (closing ++ b) ++ ([byte ' '] ++ (closing ++ rest)))) =
      some ([byte ' '] ++ a).length := by
    rw [List.singleton_append, index, if_neg, hindex]
    · rfl
    · rw [List.isPrefixOf_iff_prefix, closing_eq, List.cons_prefix_cons]
      exact fun h => absurd h.1 (by decide)
  have hbody : [byte ' '] ++ (a ++ (closing ++ b) ++ ([byte ' '] ++ (closing ++ rest))) =
      [byte ' '] ++ a ++ (closing ++ (b ++ ([byte ' '] ++ (closing ++ rest)))) := by
    simp only [List.append_assoc]
  have htext : placeholder (a ++ (closing ++ b)) ++ rest =
      opening ++ ([byte ' '] ++ a ++ (closing ++ (b ++ ([byte ' '] ++ (closing ++ rest))))) := by
    rw [placeholder]
    simp only [List.append_assoc]
  rw [hbody] at hfound
  rw [htext]
  exact ⟨_, (interpolateLoop_opening tpl env fuel hfound).2 err hcut⟩

theorem partsText_opens (parts : List Part) : partsText parts = [] ∨ opening <+: partsText parts := by
  cases parts with
  | nil => exact .inl rfl
  | cons p parts =>
    refine .inr ⟨[byte ' '] ++ (p.expr ++ [byte ' ']) ++ closing ++ p.after ++ partsText parts, ?_⟩
    rw [partsText, partsText, List.flatMap_cons, placeholder]
    simp only [List.append_assoc]

theorem partsText_cons (p : Part) (parts : List Part) :
    partsText (p :: parts) = placeholder p.expr ++ (p.after ++ partsText parts) := by
  rw [partsText, List.flatMap_cons, List.append_assoc]
  rfl

/-- One round for a placeholder, one for each byte after it, and those of the others. -/
theorem partsText_fuel {p parts fuel} (h : (partsText (p :: parts)).length ≤ fuel) :
    ∃ k, fuel = p.after.length + k + 1 ∧ (partsText parts).length ≤ k := by
  have hlong : 1 ≤ (placeholder p.expr).length := by
    rw [placeholder, List.length_append]
    exact Nat.le_add_right_of_le (by decide)
  rw [partsText_cons, List.length_append, List.length_append] at h
  exact ⟨fuel - 1 - p.after.length, by omega, by omega⟩

theorem interpolateLoop_parts (tpl : Bytes) {parts} (hafter : ∀ p ∈ parts, contains p.after opening = false)
    (heval : ∀ p ∈ parts, eval p.expr env = .ok p.value) {fuel} (hfuel : (partsText parts).length ≤ fuel) :
    ((∀ p ∈ parts, contains p.expr closing = false) →
      interpolateLoop tpl env fuel (partsText parts) = .ok (partsRendered parts)) ∧
    ((∃ p ∈ parts, contains p.expr closing) →
      ∃ err, interpolateLoop tpl env fuel (partsText parts) = .error err) := by
  induction parts generalizing fuel with
  | nil =>
    refine ⟨fun _ => ?_, fun ⟨p, hp, _⟩ => (List.not_mem_nil hp).elim⟩
    cases fuel <;> rfl
  | cons p parts ih =>
    obtain ⟨k, rfl, hk⟩ := partsText_fuel hfuel
    obtain ⟨hrendered, hfails⟩ := ih (fun q hq => hafter q (List.mem_cons_of_mem p hq))
      (fun q hq => heval q (List.mem_cons_of_mem p hq)) hk
    have hp := heval p (.head _)
    have hliteral := interpolateLoop_literal tpl env k (hafter p (.head _)) (partsText_opens parts)
    rw [partsText_cons]
    refine ⟨fun hexpr => ?_, fun ⟨q, hq, hclosing⟩ => ?_⟩
    · rw [interpolateLoop_placeholder tpl _ _ hp (hexpr p (.head _)), hliteral,
        hrendered fun q hq => hexpr q (List.mem_cons_of_mem p hq)]
      exact congrArg Except.ok (by rw [partsRendered, partsRendered, List.flatMap_cons, List.append_assoc])
    · cases hhead : contains p.expr closing with
      | true => exact interpolateLoop_cut tpl _ _ hp hhead
      | false =>
        -- the placeholder that is cut off is a later one
        rcases List.mem_cons.mp hq with rfl | hq
        · rw [hhead] at hclosing
          cases hclosing
        · obtain ⟨err, herr⟩ := hfails ⟨q, hq, hclosing⟩
          rw [interpolateLoop_placeholder tpl _ _ hp hhead, hliteral, herr]
          exact ⟨err, rfl⟩

/-- `Interpolate` is exact on a template if and only if its expressions contain no two closing braces. -/
theorem interpolate_template_iff (first : Bytes) {env : Env} {parts : List Part}
    (hfirst : Bytes.contains first opening = false) (hafter : ∀ p ∈ parts, Bytes.contains p.after opening = false)
    (heval : ∀ p ∈ parts, eval p.expr env = .ok p.value) :
    interpolate (first ++ partsText parts) env = .ok (first ++ partsRendered parts) ↔
      ∀ p ∈ parts, Bytes.contains p.expr closing = false := by
  obtain ⟨hrendered, hfails⟩ := interpolateLoop_parts (first ++ partsText parts) hafter heval le_rfl
  rw [interpolate, List.length_append, interpolateLoop_literal _ env _ hfirst (partsText_opens parts)]
  constructor
  · intro hok p hp
    by_contra hclosing
    obtain ⟨err, herr⟩ := hfails ⟨p, hp, by simpa using hclosing⟩
    rw [herr] at hok
    cases hok
  · intro hexpr
    rw [hrendered hexpr]
    rfl

/-- Two flags or two texts that are the same. -/
def Value.sameScalar : Value → Value → Bool
  | .bool a, .bool b => a == b
  | .str s, .str t => s == t
  | _, _ => false

theorem eval_of_sameScalar (h : (eval expr env).toOption.any (Value.sameScalar v)) : eval expr env = .ok v := by
  cases hw : eval expr env with
  | error err =>
    rw [hw] at h
    cases h
  | ok w =>
    rw [hw] at h
    have hsame : v.sameScalar w := h
    unfold Value.sameScalar at hsame
    split at hsame
    · rw [beq_iff_eq.mp hsame]
    · rw [beq_iff_eq.mp hsame]
    · cases hsame

/-- A string with braces in it, and a comparison. -/
def twoParts : List Part :=
  [⟨ofString "'\x7ba\x7d'", .str (ofString "\x7ba\x7d"), ofString "\x7d\x7d, "⟩,
    ⟨ofString "'b' == 'B'", .bool true, ofString "."⟩]

/-- Two placeholders, the first with braces in a string. -/
theorem interpolate_two_parts :
    interpolate (ofString "x: " ++ partsText twoParts) .new = .ok (ofString "x: \x7ba\x7d\x7d\x7d, true.") := by
  have hvalues : ∀ p ∈ twoParts, eval p.expr .new = .ok p.value := by
    have hall : ∀ p ∈ twoParts, (eval p.expr .new).toOption.any (Value.sameScalar p.value) := by decide +kernel
    exact fun p hp => eval_of_sameScalar (hall p hp)
  have htext : ofString "x: " ++ partsRendered twoParts = ofString "x: \x7ba\x7d\x7d\x7d, true." := by decide +kernel
  rw [← htext]
  exact (interpolate_template_iff (ofString "x: ") (by decide +kernel) (by decide +kernel) hvalues).mpr
    (by decide +kernel)

/-- An expression whose text has two closing braces, and whose placeholder fails. -/
theorem interpolate_braces : eval (ofString "'\x7d\x7d'") .new = .ok (.str closing) ∧
      (interpolate (placeholder (ofString "'\x7d\x7d'")) .new).isOk = false :=
  ⟨eval_of_sameScalar (by decide +kernel), by decide +kernel⟩

end Forgelet.Expression
