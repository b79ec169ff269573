import Mathlib.Data.List.Induction
import Mathlib.Data.Nat.Bits
import Forgelet.Expression.Grammar

/-!
# Proofs: the lexer decides the tokens of a text

`tokens` returns the tokens of the text, with the positions they start at. White space at the ends of a text adds
nothing, and a closing parenthesis adds itself, since no token grows beyond either. A text that is cut off before a
brace has no tokens.
-/

namespace Forgelet.Expression

open Bytes (byte ofString)

/-! ## Bytes -/

/-- A printable character that is no blank. -/
def Solid (b : UInt8) : Prop := 0x21 ≤ b ∧ b ≤ 0x7E

variable {b x : UInt8} {l src : Bytes} {tok : Tok}

theorem solid_of_isDigit (h : Bytes.isDigit b) : Solid b := by
  unfold Bytes.isDigit at h
  unfold Solid
  grind

theorem solid_of_isIdentPart (h : isIdentPart b) : Solid b := by
  unfold isIdentPart isIdentStart Bytes.isDigit at h
  rw [show byte '_' = 0x5F from rfl, show byte '-' = 0x2D from rfl] at h
  unfold Solid
  grind

theorem solid_of_text {p : Punct} (h : b ∈ ofString p.text) : Solid b := by
  have hall : (ofString p.text).all (fun b => decide (0x21 ≤ b ∧ b ≤ 0x7E)) := by
    cases p <;> decide
  have hb := List.all_eq_true.mp hall b h
  rwa [decide_eq_true_eq] at hb

/-- No token goes on with this byte, but a number with a point. -/
structure Separator (x : UInt8) : Prop where
  not_isIdentPart : isIdentPart x = false
  not_isDigit : Bytes.isDigit x = false
  ne_quote : (x == byte '\'') = false
  notMem_tail : ∀ p : Punct, x ∉ (ofString p.text).tail

theorem separator_of_mem (h : x ∈ ofString " \t\r\n)[].") : Separator x := by
  have hall : ∀ x ∈ ofString " \t\r\n)[].", isIdentPart x = false ∧ Bytes.isDigit x = false ∧ (x == byte '\'') = false ∧
      ∀ p ∈ longPuncts ++ shortPuncts, x ∉ (ofString p.text).tail := by decide +kernel
  obtain ⟨hident, hdigit, hquote, htail⟩ := hall x h
  exact ⟨hident, hdigit, hquote, fun p => htail p (by cases p <;> decide)⟩

theorem separator_blank (h : isBlank x) : Separator x := by
  refine separator_of_mem ?_
  rw [show ofString " \t\r\n)[]." = [0x20, 9, 13, 10, 0x29, 0x5B, 0x5D, 0x2E] from by decide]
  unfold isBlank at h
  grind

/-! ## Quotes

In a text that has tokens the quotes are closed, and a brace stands in a string. So what is before a brace has an odd
number of quotes and no tokens. -/

/-- The number of quotes. -/
def quotes (s : Bytes) : Nat := s.count (byte '\'')

/-- The closing brace. -/
def brace : UInt8 := 0x7D

/-- Braces stand within quotes only, and at the end all are closed, where the text starts within quotes or not. -/
def Closes : Bool → Bytes → Prop
  | inside, [] => inside = false
  | inside, c :: s => (c = brace → inside) ∧ Closes (inside ^^ (c == byte '\'')) s

theorem quotes_append (s t : Bytes) : quotes (s ++ t) = quotes s + quotes t := List.count_append

theorem quotes_blanks {s} (h : ∀ b ∈ s, isBlank b) : quotes s = 0 :=
  List.count_eq_zero.mpr fun hmem => absurd (h _ hmem) (by decide)

variable {inside : Bool} {s t : Bytes}

theorem closes_quote : Closes inside (byte '\'' :: s) ↔ Closes (!inside) s := by
  rw [Closes, beq_self_eq_true, Bool.xor_true]
  exact and_iff_right fun hbrace => absurd hbrace (by decide)

theorem closes_plain {P : UInt8 → Prop} (hquote : ¬P (byte '\'')) (hbrace : ¬P brace) (h : ∀ c ∈ s, P c) :
    Closes false s := by
  induction s with
  | nil => rfl
  | cons c s ih =>
    rw [List.forall_mem_cons] at h
    have hne : c ≠ byte '\'' := fun heq => hquote (heq ▸ h.1)
    refine ⟨fun heq => absurd (heq ▸ h.1) hbrace, ?_⟩
    rw [beq_false_of_ne hne]
    exact ih h.2

theorem Closes.append (h : Closes inside s) (ht : Closes false t) : Closes inside (s ++ t) := by
  induction s generalizing inside with
  | nil =>
    cases h
    exact ht
  | cons c s ih => exact ⟨h.1, ih h.2⟩

/-- Whether the rest of the text starts within quotes depends on the number of quotes before it. -/
theorem Closes.of_append (h : Closes inside (s ++ t)) : Closes (inside ^^ (quotes s).bodd) t := by
  induction s generalizing inside with
  | nil =>
    rw [show (quotes []).bodd = false from rfl, Bool.xor_false]
    exact h
  | cons c s ih =>
    have hcons : (quotes (c :: s)).bodd = ((c == byte '\'') ^^ (quotes s).bodd) := by
      rw [quotes, List.count_cons, Nat.bodd_add, Bool.xor_comm]
      cases c == byte '\'' <;> rfl
    rw [hcons, ← Bool.xor_assoc]
    exact ih h.2

/-! ## What a token is written as -/

/-- A text that starts and ends with visible characters. -/
def Edges (l : Bytes) : Prop := (∃ b t, l = b :: t ∧ Solid b) ∧ ∃ t b, l = t ++ [b] ∧ Solid b

theorem edges_of_solid (hne : l ≠ []) (h : ∀ b ∈ l, Solid b) : Edges l := by
  refine ⟨?_, l.dropLast, l.getLast hne, (List.dropLast_append_getLast hne).symm, h _ (List.getLast_mem hne)⟩
  cases l with
  | nil => exact absurd rfl hne
  | cons b t => exact ⟨b, t, rfl, h b (.head _)⟩

/-- A byte of a number. -/
def IsNumeral (b : UInt8) : Prop := Bytes.isDigit b = true ∨ b = byte '.' ∨ b = byte '-'

theorem IsNumeral.solid (h : IsNumeral b) : Solid b := by
  rcases h with h | rfl | rfl
  · exact solid_of_isDigit h
  · exact ⟨by decide, by decide⟩
  · exact ⟨by decide, by decide⟩

theorem numberBody_spec (hasDot : Bool) (s : Bytes) :
    numberBody hasDot s <+: s ∧ ∀ b ∈ numberBody hasDot s, IsNumeral b := by
  induction s generalizing hasDot with
  | nil => exact ⟨List.nil_prefix, nofun⟩
  | cons c s ih =>
    unfold numberBody
    split_ifs with hdigit hdot
    · refine ⟨List.cons_prefix_cons.mpr ⟨rfl, (ih hasDot).1⟩, List.forall_mem_cons.mpr ⟨?_, (ih hasDot).2⟩⟩
      exact .inl hdigit
    · refine ⟨List.cons_prefix_cons.mpr ⟨rfl, (ih true).1⟩, List.forall_mem_cons.mpr ⟨?_, (ih true).2⟩⟩
      simp only [Bool.and_eq_true, beq_iff_eq] at hdot
      exact .inr (.inl hdot.1.1)
    · exact ⟨List.nil_prefix, nofun⟩

theorem numberText_spec {c s} (h : (Bytes.isDigit c || (c == byte '-' && startsWithDigit s)) = true) :
    numberText (c :: s) <+: c :: s ∧ numberText (c :: s) ≠ [] ∧ ∀ b ∈ numberText (c :: s), IsNumeral b := by
  rw [numberText]
  split_ifs with hminus
  · obtain ⟨hstart, hnumeral⟩ := numberBody_spec false s
    refine ⟨List.cons_prefix_cons.mpr ⟨rfl, hstart⟩, List.cons_ne_nil _ _, List.forall_mem_cons.mpr ⟨?_, hnumeral⟩⟩
    exact .inr (.inr (beq_iff_eq.mp hminus))
  · obtain ⟨hstart, hnumeral⟩ := numberBody_spec false (c :: s)
    refine ⟨hstart, ?_, hnumeral⟩
    have hdigit : Bytes.isDigit c := by
      simpa only [hminus, Bool.false_and, Bool.or_false] using h
    rw [numberBody, if_pos hdigit]
    exact nofun

section StringBody

variable {c d : UInt8} (rest : Bytes)

theorem stringBody_escaped (hc : (c == byte '\'') = true) (hd : (d == byte '\'') = true) :
    stringBody (c :: d :: rest) = (stringBody rest).map fun r => (d :: r.1, c :: d :: r.2) := by
  rw [stringBody.eq_def]
  dsimp only
  rw [if_pos hc, if_pos hd]

theorem stringBody_closed (hc : (c == byte '\'') = true) (hd : ¬(d == byte '\'') = true) :
    stringBody (c :: d :: rest) = some ([], [c]) := by
  rw [stringBody.eq_def]
  dsimp only
  rw [if_pos hc, if_neg hd]

theorem stringBody_last (hc : (c == byte '\'') = true) : stringBody [c] = some ([], [c]) := by
  rw [stringBody.eq_def]
  dsimp only
  rw [if_pos hc]

theorem stringBody_other (hc : ¬(c == byte '\'') = true) :
    stringBody (c :: rest) = (stringBody rest).map fun r => (c :: r.1, c :: r.2) := by
  rw [stringBody.eq_def]
  dsimp only
  rw [if_neg hc]

end StringBody

theorem stringBody_spec {s text consumed} (h : stringBody s = some (text, consumed)) :
    consumed <+: s ∧ Closes true consumed ∧ ∃ t, consumed = t ++ [byte '\''] := by
  induction s using stringBody.induct generalizing text consumed with
  | case1 => cases h
  | case2 c hc d rest hd ih =>
    rw [stringBody_escaped rest hc hd] at h
    obtain ⟨r, hr, heq⟩ := Option.map_eq_some_iff.mp h
    obtain ⟨hstart, hcloses, t, ht⟩ := ih hr
    cases heq
    refine ⟨List.cons_prefix_cons.mpr ⟨rfl, List.cons_prefix_cons.mpr ⟨rfl, hstart⟩⟩, ?_, c :: d :: t, ?_⟩
    · rw [beq_iff_eq.mp hc, beq_iff_eq.mp hd, closes_quote, closes_quote]
      exact hcloses
    · rw [ht]
      rfl
  | case3 c hc d rest hd =>
    rw [stringBody_closed rest hc hd] at h
    cases h
    rw [beq_iff_eq.mp hc]
    exact ⟨List.cons_prefix_cons.mpr ⟨rfl, List.nil_prefix⟩, closes_quote.mpr rfl, [], rfl⟩
  | case4 c hc =>
    rw [stringBody_last hc] at h
    cases h
    rw [beq_iff_eq.mp hc]
    exact ⟨List.prefix_refl _, closes_quote.mpr rfl, [], rfl⟩
  | case5 c rest hc ih =>
    rw [stringBody_other rest hc] at h
    obtain ⟨r, hr, heq⟩ := Option.map_eq_some_iff.mp h
    obtain ⟨hstart, hcloses, t, ht⟩ := ih hr
    cases heq
    refine ⟨List.cons_prefix_cons.mpr ⟨rfl, hstart⟩, ⟨fun _ => rfl, ?_⟩, c :: t, ?_⟩
    · rw [Bool.eq_false_iff.mpr hc]
      exact hcloses
    · rw [ht]
      rfl

theorem punctAt_spec {s p} (h : punctAt s = some p) : ofString p.text <+: s := by
  exact List.isPrefixOf_iff_prefix.mp (by simpa only using List.find?_some h)

theorem text_ne_nil (p : Punct) : ofString p.text ≠ [] := by
  cases p
  all_goals decide

/-- A token is not the end, and stands at the start of the text, between visible characters. -/
theorem scan_spec {s : Bytes} (h : scan s = some (tok, l)) : tok ≠ .eof ∧ l <+: s ∧ Closes false l ∧ Edges l := by
  unfold scan at h
  split at h
  · cases h
  · rename_i c rest
    split_ifs at h with hident hnumber hquote
    · cases h
      have hcloses : Closes false ((c :: rest).takeWhile isIdentPart) :=
        closes_plain (P := fun b => isIdentPart b) (by decide) (by decide) fun b hb => List.mem_takeWhile_imp hb
      refine ⟨nofun, List.takeWhile_prefix _, hcloses, edges_of_solid ?_ fun b hb => ?_⟩
      · have hpart : isIdentPart c := by
          unfold isIdentPart
          rw [hident]
          rfl
        rw [List.takeWhile_cons_of_pos hpart]
        exact nofun
      · exact solid_of_isIdentPart (List.mem_takeWhile_imp hb)
    · obtain ⟨num, -, heq⟩ := Option.map_eq_some_iff.mp h
      obtain ⟨hstart, hne, hnumeral⟩ := numberText_spec hnumber
      cases heq
      exact ⟨nofun, hstart, closes_plain (by unfold IsNumeral; decide) (by unfold IsNumeral; decide) hnumeral,
        edges_of_solid hne fun b hb => (hnumeral b hb).solid⟩
    · obtain ⟨r, hr, heq⟩ := Option.map_eq_some_iff.mp h
      obtain ⟨hstart, hcloses, t, ht⟩ := stringBody_spec hr
      have hsolid : Solid (byte '\'') := ⟨by decide, by decide⟩
      cases heq
      obtain rfl := beq_iff_eq.mp hquote
      refine ⟨nofun, List.cons_prefix_cons.mpr ⟨rfl, hstart⟩, closes_quote.mpr hcloses, ⟨_, r.2, rfl, hsolid⟩,
        byte '\'' :: t, _, ?_, hsolid⟩
      rw [ht]
      rfl
    · obtain ⟨p, hp, heq⟩ := Option.map_eq_some_iff.mp h
      cases heq
      have hcloses : Closes false (ofString p.text) :=
        closes_plain (P := (· ∈ ofString p.text)) (by cases p <;> decide) (by cases p <;> decide) fun _ h => h
      exact ⟨nofun, punctAt_spec hp, hcloses, edges_of_solid (text_ne_nil p) fun b hb => solid_of_text hb⟩

/-! ## A separator after a text -/

/-- The text is empty or starts with a separator. -/
def Stops (t : Bytes) : Prop := ∀ x ∈ t.head?, Separator x

theorem stops_cons {t : Bytes} (hx : Separator x) : Stops (x :: t) := fun _ h => Option.some.inj h ▸ hx

/-- The text goes on with a point and a digit. -/
def DotDigit (t : Bytes) : Prop := ∃ rest, t = byte '.' :: rest ∧ startsWithDigit rest

theorem DotDigit.length {t} (h : DotDigit t) : ¬ t.length ≤ 1 := by
  obtain ⟨rest, rfl, hdigit⟩ := h
  cases rest with
  | nil => cases hdigit
  | cons c rest => simp

section Append

variable {t : Bytes} (ht : Stops t)

include ht

theorem startsWithDigit_append (s : Bytes) : startsWithDigit (s ++ t) = startsWithDigit s := by
  cases s with
  | nil =>
    cases t with
    | nil => rfl
    | cons x t => exact (ht x rfl).not_isDigit
  | cons c s => rfl

theorem numberBody_append (hasDot : Bool) (s : Bytes)
    (hdot : DotDigit t → numberBody hasDot s = s → hasDot ∨ byte '.' ∈ s) :
    numberBody hasDot (s ++ t) = numberBody hasDot s := by
  induction s generalizing hasDot with
  | nil =>
    cases t with
    | nil => rfl
    | cons x t =>
      show numberBody hasDot (x :: t) = []
      rw [numberBody, (ht x rfl).not_isDigit, if_neg Bool.false_ne_true, if_neg]
      · intro hpoint
        simp only [Bool.and_eq_true, beq_iff_eq, Bool.not_eq_eq_eq_not, Bool.not_true] at hpoint
        obtain ⟨⟨rfl, rfl⟩, hdigit⟩ := hpoint
        rcases hdot ⟨t, rfl, hdigit⟩ rfl with h | h
        · cases h
        · cases h
  | cons c s ih =>
    rw [List.cons_append, numberBody, numberBody, startsWithDigit_append ht]
    split_ifs with hdigit hpoint
    · rw [ih]
      intro hd hbody
      rcases hdot hd (by rw [numberBody, if_pos hdigit, hbody]) with h | h
      · exact .inl h
      · refine .inr ((List.mem_cons.mp h).resolve_left ?_)
        rintro rfl
        cases hdigit
    · rw [ih true fun _ _ => .inl rfl]
    · rfl

theorem numberText_append (c : UInt8) (s : Bytes)
    (hdot : DotDigit t → numberText (c :: s) = c :: s → byte '.' ∈ c :: s) :
    numberText (c :: s ++ t) = numberText (c :: s) := by
  rw [List.cons_append, numberText, numberText]
  rw [numberText] at hdot
  split_ifs at hdot ⊢ with hminus
  · rw [numberBody_append ht]
    intro hd hbody
    refine .inr ((List.mem_cons.mp (hdot hd (by rw [hbody]))).resolve_left ?_)
    rintro rfl
    cases hminus
  · exact numberBody_append ht false (c :: s) fun hd hbody => .inr (hdot hd hbody)

theorem punctAt_append (c : UInt8) (s : Bytes) : punctAt (c :: s ++ t) = punctAt (c :: s) := by
  have hstart : ∀ p : Punct, (ofString p.text).isPrefixOf (c :: s ++ t) = (ofString p.text).isPrefixOf (c :: s) := by
    intro p
    rw [Bool.eq_iff_iff, List.isPrefixOf_iff_prefix, List.isPrefixOf_iff_prefix]
    refine ⟨fun h => ?_, fun h => h.trans (List.prefix_append _ _)⟩
    rcases List.prefix_or_prefix_of_prefix h (List.prefix_append (c :: s) t) with hshort | ⟨more, hmore⟩
    · exact hshort
    · cases more with
      | nil => simp [← hmore]
      | cons x more =>
        rw [← hmore, List.prefix_append_right_inj] at h
        obtain ⟨rest, rfl⟩ := h
        refine absurd ?_ ((ht x rfl).notMem_tail p)
        rw [← hmore]
        exact List.mem_append_right s (.head _)
  exact congrArg (List.find? · _) (funext hstart)

theorem stringBody_append (s : Bytes) (h : stringBody s ≠ none ∨ t.length ≤ 1) :
    stringBody (s ++ t) = stringBody s := by
  have hquote : ∀ x rest, t = x :: rest → ¬(x == byte '\'') = true := by
    rintro x rest rfl
    rw [(ht x rfl).ne_quote]
    exact Bool.false_ne_true
  induction s using stringBody.induct with
  | case1 =>
    match t, h with
    | [], _ => rfl
    | [x], _ => exact stringBody_other [] (hquote x [] rfl)
    | _ :: _ :: _, h => simp [stringBody] at h
  | case2 c hc d rest hd ih =>
    rw [stringBody_escaped _ hc hd, Ne, Option.map_eq_none_iff] at h
    rw [List.cons_append, List.cons_append, stringBody_escaped _ hc hd, stringBody_escaped _ hc hd, ih h]
  | case3 c hc d rest hd =>
    rw [List.cons_append, List.cons_append, stringBody_closed _ hc hd, stringBody_closed _ hc hd]
  | case4 c hc =>
    cases t with
    | nil => rfl
    | cons x t => rw [List.cons_append, List.nil_append, stringBody_closed _ hc (hquote x t rfl), stringBody_last hc]
  | case5 c rest hc ih =>
    rw [stringBody_other _ hc, Ne, Option.map_eq_none_iff] at h
    rw [List.cons_append, stringBody_other _ hc, stringBody_other _ hc, ih h]

/-- A token of `s` is one of `s ++ t`, unless a number goes on with a point. -/
theorem scan_append {s : Bytes} (hs : s ≠ [])
    (hdot : DotDigit t → ∀ num, scan s = some (.number num s, s) → byte '.' ∈ s) (hsome : scan s ≠ none ∨ t.length ≤ 1)
    : scan (s ++ t) = scan s := by
  cases s with
  | nil => exact absurd rfl hs
  | cons c s =>
    have hwhile : (c :: s ++ t).takeWhile isIdentPart = (c :: s).takeWhile isIdentPart := by
      rw [List.takeWhile_append]
      split_ifs with hall
      · have hnone : t.takeWhile isIdentPart = [] := by
          cases t with
          | nil => rfl
          | cons x t => exact List.takeWhile_cons_of_neg (by rw [(ht x rfl).not_isIdentPart]; exact Bool.false_ne_true)
        rw [hnone, List.append_nil]
        exact ((List.takeWhile_prefix _).eq_of_length hall).symm
      · rfl
    have hpunct := punctAt_append ht c s
    rw [List.cons_append] at hwhile hpunct ⊢
    unfold scan at hdot hsome ⊢
    dsimp only at hdot hsome ⊢
    rw [hwhile, hpunct, startsWithDigit_append ht]
    split_ifs at hdot hsome ⊢ with hident hdigit hquote
    · rfl
    · rw [← List.cons_append, numberText_append ht c s]
      intro hd hwhole
      rw [hwhole] at hdot hsome
      obtain ⟨r, hr⟩ := Option.ne_none_iff_exists'.mp (hsome.resolve_right hd.length)
      obtain ⟨num, hnum, -⟩ := Option.map_eq_some_iff.mp hr
      exact hdot hd num (by rw [hnum]; rfl)
    · rw [Ne, Option.map_eq_none_iff] at hsome
      rw [stringBody_append ht s hsome]
    · rfl

end Append

theorem scan_concat (hx : Separator x) {s : Bytes} (hs : s ≠ []) : scan (s ++ [x]) = scan s :=
  scan_append (stops_cons hx) hs (fun h => absurd le_rfl h.length) (.inr le_rfl)

/-! ## The tokens of a text -/

namespace Lexes

variable {s : Bytes} {toks : List Tok}

theorem congr {s'} (hs : s.dropWhile isBlank = s'.dropWhile isBlank) (h : Lexes s toks) : Lexes s' toks := by
  cases h with
  | eof h => exact .eof (hs ▸ h)
  | token h hrest =>
    rw [hs] at h hrest
    exact .token h hrest

/-- The tokens end with the end of the text, and only there. -/
theorem shape (h : Lexes s toks) : ∃ ts, toks = ts ++ [.eof] ∧ .eof ∉ ts := by
  induction h with
  | eof => exact ⟨[], rfl, List.not_mem_nil⟩
  | @token s lexeme tok toks h _ ih =>
    obtain ⟨ts, rfl, hlive⟩ := ih
    refine ⟨tok :: ts, rfl, fun hmem => ?_⟩
    rcases List.mem_cons.mp hmem with heq | hmem
    · exact (scan_spec h).1 heq.symm
    · exact hlive hmem

theorem edges (h : Lexes s toks) : s.dropWhile isBlank = [] ∨
    ∃ pre m post, s = pre ++ (m ++ post) ∧ Edges m ∧ (∀ b ∈ pre, isBlank b) ∧ ∀ b ∈ post, isBlank b := by
  induction h with
  | eof h => exact .inl h
  | @token s lexeme tok toks h _ ih =>
    right
    obtain ⟨-, ⟨rest, hrest⟩, -, hedges⟩ := scan_spec h
    have hsplit : s = s.takeWhile isBlank ++ (lexeme ++ rest) := by
      rw [hrest, List.takeWhile_append_dropWhile]
    have hblank : ∀ b ∈ s.takeWhile isBlank, isBlank b := fun b hb => List.mem_takeWhile_imp hb
    rw [← hrest, List.drop_left] at ih
    rcases ih with hnil | ⟨pre, m, post, rfl, hm, hpre, hpost⟩
    · exact ⟨_, lexeme, rest, hsplit, hedges, hblank, List.dropWhile_eq_nil_iff.mp hnil⟩
    · refine ⟨_, lexeme ++ (pre ++ m), post, ?_, ⟨?_, ?_⟩, hblank, hpost⟩
      · simp only [List.append_assoc]
        exact hsplit
      · obtain ⟨⟨b, t, rfl, hb⟩, -⟩ := hedges
        exact ⟨b, t ++ (pre ++ m), rfl, hb⟩
      · obtain ⟨-, t, b, rfl, hb⟩ := hm
        exact ⟨lexeme ++ (pre ++ t), b, by simp only [List.append_assoc], hb⟩

theorem dropWhile_append {t} (hne : s.dropWhile isBlank ≠ []) :
    (s ++ t).dropWhile isBlank = s.dropWhile isBlank ++ t := by
  rw [List.dropWhile_append, if_neg]
  simpa only [List.isEmpty_iff] using hne

theorem eq_eof (hs : s.dropWhile isBlank = []) (h : Lexes s toks) : toks = [.eof] := by
  cases h with
  | eof => rfl
  | token h =>
    rw [hs] at h
    cases h

/-- The tokens of a text and what follows, if no token goes on into that. -/
theorem append {t} (ht : Stops t) {ts more} (hmore : Lexes t more) (h : Lexes s (ts ++ [.eof]))
    (hdot : DotDigit t → ∀ ts' num text, ts = ts' ++ [.number num text] → byte '.' ∈ text) :
    Lexes (s ++ t) (ts ++ more) := by
  generalize htoks : ts ++ [.eof] = toks at h
  induction h generalizing ts with
  | @eof s h =>
    cases ts with
    | nil =>
      refine hmore.congr ?_
      rw [List.dropWhile_append, h]
      rfl
    | cons t ts => simp at htoks
  | @token s lexeme tok toks h hrest ih =>
    obtain ⟨hlive, hstart, -⟩ := scan_spec h
    have hne : s.dropWhile isBlank ≠ [] := by
      intro hnil
      rw [hnil] at h
      cases h
    cases ts with
    | nil => exact absurd (List.cons.inj htoks).1.symm hlive
    | cons tok' ts =>
      obtain ⟨rfl, rfl⟩ := List.cons.inj htoks
      have hscan : scan (s.dropWhile isBlank ++ t) = some (tok', lexeme) := by
        refine (scan_append ht hne (fun hd num hnum => ?_) (.inl (by simp [h]))).trans h
        rw [hnum, Option.some_inj] at h
        cases h
        rw [List.drop_length] at hrest
        obtain rfl : ts = [] := List.append_left_eq_self.mp (eq_eof rfl hrest)
        exact hdot hd [] num _ rfl
      rw [← dropWhile_append hne] at hscan
      refine .token hscan ?_
      rw [dropWhile_append hne, List.drop_append_of_le_length hstart.length_le]
      refine ih (fun hd ts' num text hlast => hdot hd (tok' :: ts') num text ?_) rfl
      rw [hlast]
      rfl

theorem of_concat (hx : Separator x) (h : Lexes (s ++ [x]) toks) :
    ∃ ts more, toks = ts ++ more ∧ Lexes s (ts ++ [.eof]) ∧ Lexes [x] more := by
  generalize hs : s ++ [x] = s' at h
  induction h generalizing s with
  | eof h =>
    subst hs
    rw [List.dropWhile_append] at h
    split_ifs at h with hempty
    · exact ⟨[], [.eof], rfl, .eof (List.isEmpty_iff.mp hempty), .eof h⟩
    · exact absurd h (List.append_ne_nil_of_right_ne_nil _ nofun)
  | @token s' lexeme tok toks h hrest ih =>
    subst hs
    by_cases hne : s.dropWhile isBlank = []
    · have hdrop : (s ++ [x]).dropWhile isBlank = [x].dropWhile isBlank := by
        rw [List.dropWhile_append, hne]
        rfl
      exact ⟨[], tok :: toks, rfl, .eof hne, (Lexes.token h hrest).congr hdrop⟩
    · rw [dropWhile_append hne, scan_concat hx hne] at h
      obtain ⟨-, hstart, -⟩ := scan_spec h
      have hdrop : (s.dropWhile isBlank).drop lexeme.length ++ [x] =
          ((s ++ [x]).dropWhile isBlank).drop lexeme.length := by
        rw [dropWhile_append hne, List.drop_append_of_le_length hstart.length_le]
      obtain ⟨ts, more, rfl, hlexes, hmore⟩ := ih hdrop
      exact ⟨tok :: ts, more, rfl, .token h hlexes, hmore⟩

/-- A text that is one token. -/
theorem single (h : scan s = some (tok, s)) : Lexes s [tok, .eof] := by
  obtain ⟨-, -, -, ⟨b, t, rfl, hb⟩, -⟩ := scan_spec h
  have hdrop : (b :: t).dropWhile isBlank = b :: t := by
    refine List.dropWhile_cons_of_neg fun hblank => ?_
    simp only [isBlank, Bool.or_eq_true, beq_iff_eq] at hblank
    rcases hblank with ((rfl | rfl) | rfl) | rfl
    all_goals exact absurd hb.1 (by decide)
  refine .token (by rw [hdrop]; exact h) (.eof ?_)
  rw [hdrop, List.drop_length]
  rfl

theorem rparen : Lexes [byte ')'] [.punct .rparen, .eof] := single rfl

theorem eq_rparen (h : Lexes [byte ')'] toks) : toks = [.punct .rparen, .eof] := by
  cases h with
  | eof h => cases h
  | token h hrest =>
    cases h
    cases hrest with
    | eof => rfl
    | token h => cases h

end Lexes

/-- A text with a known first token. -/
theorem lexes_token {s rest : Bytes} (lexeme : Bytes) (hscan : scan (s.dropWhile isBlank) = some (tok, lexeme))
    (hrest : (s.dropWhile isBlank).drop lexeme.length = rest) {toks : List Tok} :
    Lexes s toks ↔ ∃ toks', toks = tok :: toks' ∧ Lexes rest toks' := by
  constructor
  · intro h
    cases h with
    | eof h =>
      rw [h] at hscan
      cases hscan
    | token h hlexes =>
      rw [hscan] at h
      cases h
      rw [hrest] at hlexes
      exact ⟨_, rfl, hlexes⟩
  · rintro ⟨toks', rfl, h⟩
    rw [← hrest] at h
    exact .token hscan h

theorem lexes_blanks {pre post s} (hpre : ∀ b ∈ pre, isBlank b) (hpost : ∀ b ∈ post, isBlank b) {toks} :
    Lexes (pre ++ (s ++ post)) toks ↔ Lexes s toks := by
  have hfront : Lexes (pre ++ (s ++ post)) toks ↔ Lexes (s ++ post) toks := by
    have hdrop : (pre ++ (s ++ post)).dropWhile isBlank = (s ++ post).dropWhile isBlank := by
      rw [List.dropWhile_append, List.dropWhile_eq_nil_iff.mpr hpre]
      rfl
    exact ⟨.congr hdrop, .congr hdrop.symm⟩
  rw [hfront]
  clear hfront
  induction post using List.reverseRecOn generalizing toks with
  | nil => rw [List.append_nil]
  | append_singleton post x ih =>
    have hx : isBlank x := hpost x (List.mem_append_right _ (List.mem_singleton_self x))
    have hblank : [x].dropWhile isBlank = [] := List.dropWhile_eq_nil_iff.mpr fun b hb => List.mem_singleton.mp hb ▸ hx
    have hrest : Lexes (s ++ post) toks ↔ Lexes s toks := ih fun b hb => hpost b (List.mem_append_left _ hb)
    rw [← hrest, ← List.append_assoc]
    constructor
    · intro h
      obtain ⟨ts, more, rfl, hlexes, hmore⟩ := Lexes.of_concat (separator_blank hx) h
      rw [hmore.eq_eof hblank]
      exact hlexes
    · intro h
      obtain ⟨ts, rfl, -⟩ := h.shape
      exact .append (stops_cons (separator_blank hx)) (.eof hblank) h fun hd => absurd le_rfl hd.length

/-- A closing parenthesis after a text is its last token. -/
theorem lexes_rparen {s toks} :
    Lexes (s ++ [byte ')']) toks ↔ ∃ ts, toks = ts ++ [.punct .rparen, .eof] ∧ Lexes s (ts ++ [.eof]) := by
  constructor
  · intro h
    obtain ⟨ts, more, rfl, hlexes, hmore⟩ := Lexes.of_concat (separator_of_mem (by decide)) h
    rw [hmore.eq_rparen]
    exact ⟨ts, rfl, hlexes⟩
  · rintro ⟨ts, rfl, h⟩
    exact .append (stops_cons (separator_of_mem (by decide))) .rparen h fun hd => absurd le_rfl hd.length

theorem Lexes.closes {toks} (h : Lexes s toks) : Closes false s := by
  have hblank : ∀ {s : Bytes}, (∀ b ∈ s, isBlank b) → Closes false s := closes_plain (by decide) (by decide)
  induction h with
  | eof h => exact hblank (List.dropWhile_eq_nil_iff.mp h)
  | @token s lexeme tok toks h _ ih =>
    obtain ⟨-, ⟨rest, hrest⟩, hcloses, -⟩ := scan_spec h
    rw [← hrest, List.drop_left] at ih
    have hfront : Closes false (s.takeWhile isBlank) := hblank fun b hb => List.mem_takeWhile_imp hb
    rw [← List.takeWhile_append_dropWhile (p := isBlank) (l := s), ← hrest]
    exact hfront.append (hcloses.append ih)

/-! ## The lexer -/

theorem advanceAll_rest (cur : Cursor) (l : Bytes) : (cur.advanceAll l).rest = cur.rest.drop l.length := by
  induction l generalizing cur with
  | nil => rfl
  | cons c l ih =>
    have hstep : cur.advanceAll (c :: l) = (cur.advance c).advanceAll l := rfl
    have htail : (cur.advance c).rest = cur.rest.tail := rfl
    rw [hstep, ih, htail, List.length_cons, List.drop_tail]

/-- A message that is not the one of a fuel that ran out. -/
def Genuine (msg : Bytes) : Prop := msg.head? ∉ [none, some (byte 'l'), some (byte 'p')]

instance (msg : Bytes) : Decidable (Genuine msg) := inferInstanceAs (Decidable (_ ∉ _))

theorem Genuine.append {msg} (h : Genuine msg) (more : Bytes) : Genuine (msg ++ more) := by
  cases msg with
  | nil => exact absurd (.head _) h
  | cons c msg => exact h

theorem genuine_unexpected (c : UInt8) : Genuine (unexpected c) := by
  unfold unexpected
  split_ifs
  · decide
  · rw [List.append_assoc]
    exact Genuine.append (by decide) _
  · exact Genuine.append (by decide) _

/-- `next` after the white space returns the token that the text starts with. -/
theorem lexToken_eq (src : Bytes) (cur : Cursor) : (cur.rest = [] ∧ lexToken src cur = .ok (cur.token .eof, cur)) ∨
    (∃ tok l, scan cur.rest = some (tok, l) ∧ lexToken src cur = .ok (cur.token tok, cur.advanceAll l)) ∨
    (cur.rest ≠ [] ∧ scan cur.rest = none ∧ ∃ msg, Genuine msg ∧ lexToken src cur = .error (cur.errf src msg)) := by
  unfold lexToken scan
  cases hrest : cur.rest with
  | nil => exact .inl ⟨rfl, rfl⟩
  | cons c rest =>
    right
    dsimp only
    split_ifs
    · exact .inl ⟨_, _, rfl, rfl⟩
    · cases Float64.parse (numberText (c :: rest)) with
      | none => exact .inr ⟨List.cons_ne_nil _ _, rfl, _, Genuine.append (by decide) _, rfl⟩
      | some num => exact .inl ⟨_, _, rfl, rfl⟩
    · cases stringBody rest with
      | none => exact .inr ⟨List.cons_ne_nil _ _, rfl, _, by decide, rfl⟩
      | some r => exact .inl ⟨_, _, rfl, rfl⟩
    · cases punctAt (c :: rest) with
      | none => exact .inr ⟨List.cons_ne_nil _ _, rfl, _, genuine_unexpected c, rfl⟩
      | some p => exact .inl ⟨_, _, rfl, rfl⟩

/-- The cursor behind the blanks. -/
def Cursor.skipped (cur : Cursor) : Cursor := cur.advanceAll (cur.rest.takeWhile isBlank)

theorem skipped_rest (cur : Cursor) : cur.skipped.rest = cur.rest.dropWhile isBlank := by
  have hsplit : cur.rest.takeWhile isBlank ++ cur.rest.dropWhile isBlank = cur.rest := List.takeWhile_append_dropWhile
  rw [Cursor.skipped, advanceAll_rest]
  exact (congrArg (List.drop _) hsplit.symm).trans (List.drop_left' rfl)

theorem lexNext_eq (src : Bytes) (cur : Cursor) : lexNext src cur = lexToken src cur.skipped := rfl

theorem tokensFrom_sound {fuel cur out ts} (h : tokensFrom src fuel cur out = .ok ts) :
    ∃ new, ts = out ++ new ∧ Lexes cur.rest (new.map Token.tok) := by
  induction fuel generalizing cur out with
  | zero => cases h
  | succ fuel ih =>
    rw [tokensFrom, lexNext_eq] at h
    rcases lexToken_eq src cur.skipped with ⟨hnil, heq⟩ | ⟨tok, l, hscan, heq⟩ | ⟨-, -, msg, -, heq⟩
    · rw [heq] at h
      cases h
      rw [skipped_rest] at hnil
      exact ⟨_, rfl, .eof hnil⟩
    · have hlive : ¬(cur.skipped.token tok).tok = .eof := (scan_spec hscan).1
      rw [heq] at h
      dsimp only at h
      rw [if_neg hlive] at h
      obtain ⟨new, rfl, hlexes⟩ := ih h
      rw [advanceAll_rest, skipped_rest] at hlexes
      rw [skipped_rest] at hscan
      exact ⟨cur.skipped.token tok :: new, (List.append_cons ..).symm, .token hscan hlexes⟩
    · rw [heq] at h
      cases h

theorem tokensFrom_complete {toks s} (h : Lexes s toks) (src : Bytes) {fuel cur} (out : List Token)
    (hcur : cur.rest = s) (hfuel : s.length < fuel) :
    ∃ new, tokensFrom src fuel cur out = .ok (out ++ new) ∧ new.map Token.tok = toks := by
  obtain ⟨fuel, rfl⟩ := Nat.exists_eq_add_one_of_ne_zero (Nat.ne_zero_of_lt hfuel)
  induction h generalizing fuel cur out with
  | @eof s h =>
    rw [← hcur, ← skipped_rest] at h
    refine ⟨[cur.skipped.token .eof], ?_, rfl⟩
    rcases lexToken_eq src cur.skipped with ⟨-, heq⟩ | ⟨tok, l, hscan, -⟩ | ⟨hne, -⟩
    · rw [tokensFrom, lexNext_eq, heq]
      rfl
    · rw [h] at hscan
      cases hscan
    · exact absurd h hne
  | @token s lexeme tok toks h hrest ih =>
    obtain ⟨hlive, ⟨rest, hstart⟩, -, ⟨b, t, rfl, -⟩, -⟩ := scan_spec h
    have hshort : ((s.dropWhile isBlank).drop (b :: t).length).length < s.length := by
      have hle : (s.dropWhile isBlank).length ≤ s.length := (List.dropWhile_suffix _).length_le
      have hlength : (s.dropWhile isBlank).length = (b :: t).length + rest.length := by
        rw [← hstart, List.length_append]
      rw [List.length_cons] at hlength
      rw [List.length_drop, List.length_cons]
      omega
    obtain ⟨fuel, rfl⟩ := Nat.exists_eq_add_one_of_ne_zero (n := fuel) (by omega)
    rw [← hcur, ← skipped_rest] at h
    rcases lexToken_eq src cur.skipped with ⟨hnil, -⟩ | ⟨tok', l, hscan, heq⟩ | ⟨-, hnone, -⟩
    · rw [hnil] at h
      cases h
    · rw [h] at hscan
      cases hscan
      have hnext : (cur.skipped.advanceAll (b :: t)).rest = (s.dropWhile isBlank).drop (b :: t).length := by
        rw [advanceAll_rest, skipped_rest, hcur]
      obtain ⟨new, hnew, hkinds⟩ := ih (out ++ [cur.skipped.token tok]) hnext fuel (by omega)
      refine ⟨cur.skipped.token tok :: new, ?_, congrArg (tok :: ·) hkinds⟩
      rw [tokensFrom, lexNext_eq, heq]
      dsimp only
      rw [if_neg (show ¬(cur.skipped.token tok).tok = .eof from hlive), hnew, List.append_assoc]
      rfl
    · rw [h] at hnone
      cases hnone

theorem tokens_sound {ts} (h : tokens src = .ok ts) : Lexes src (ts.map Token.tok) := by
  obtain ⟨new, rfl, hlexes⟩ := tokensFrom_sound h
  exact hlexes

theorem tokens_complete {toks} (h : Lexes src toks) : ∃ ts, tokens src = .ok ts ∧ ts.map Token.tok = toks :=
  tokensFrom_complete h src [] rfl (Nat.lt_succ_self _)

end Forgelet.Expression
