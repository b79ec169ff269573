import Forgelet.Expression.Eval
import Forgelet.Lib.Decimal

/-!
# Proofs: `format` reads its templates back

A template is made of texts, in which every brace is doubled, and of placeholders. `format` puts the arguments in for
the placeholders and does not look at what it has put in.
-/

namespace Forgelet.Expression

open Bytes (byte ofNat ofString)

/-- A part of a format: a text, or the place of an argument. -/
inductive Segment
  | literal (s : Bytes)
  | arg (i : Nat)

/-- The text with every brace doubled. -/
def doubled (s : Bytes) : Bytes := s.flatMap fun b => if b = byte '{' ∨ b = byte '}' then [b, b] else [b]

/-- The part as the format has it. -/
def Segment.template : Segment → Bytes
  | literal s => doubled s
  | arg i => byte '{' :: (ofNat i ++ [byte '}'])

/-- The part as the result has it. -/
def Segment.rendered (args : List Value) : Segment → Bytes
  | literal s => s
  | arg i => (args.getD i .null).display

variable {args : List Value} {rest out : Bytes}

/-- The loop of `formatGitHub` makes `out` of the rest of a template. -/
def Formats (args : List Value) (rest out : Bytes) : Prop :=
  ∀ fuel, rest.length ≤ fuel → formatLoop args fuel rest = .ok out

theorem Formats.one (b : UInt8) (h : Formats args rest out) :
    Formats args ((if b = byte '{' ∨ b = byte '}' then [b, b] else [b]) ++ rest) (b :: out) := by
  intro fuel hfuel
  cases fuel with
  | zero => split_ifs at hfuel <;> simp at hfuel
  | succ fuel =>
    have hrest : formatLoop args fuel rest = .ok out := by
      refine h fuel ?_
      split_ifs at hfuel <;> simp at hfuel <;> omega
    by_cases hopen : b = byte '{'
    · subst hopen
      simp [formatLoop, hrest, Except.map]
    · by_cases hclose : b = byte '}'
      · subst hclose
        simp [formatLoop, hrest, Except.map, hopen]
      · simp [formatLoop, hrest, Except.map, hopen, hclose]

theorem Formats.literal (s : Bytes) (h : Formats args rest out) : Formats args (doubled s ++ rest) (s ++ out) := by
  induction s with
  | nil => exact h
  | cons b s ih =>
    rw [doubled, List.flatMap_cons, List.append_assoc]
    exact ih.one b

theorem Formats.placeholder {i} (hi : i < args.length) (hint : args.length ≤ 2 ^ 63) (h : Formats args rest out) :
    Formats args (byte '{' :: (ofNat i ++ [byte '}']) ++ rest) ((args.getD i .null).display ++ out) := by
  intro fuel hfuel
  cases fuel with
  | zero => simp at hfuel
  | succ fuel =>
    have hrest : formatLoop args fuel rest = .ok out := by
      refine h fuel ?_
      simp at hfuel
      omega
    obtain ⟨b, more, hdigits⟩ : ∃ b more, ofNat i = b :: more :=
      List.exists_cons_of_ne_nil (Bytes.digitsFrom_ne_nil i i [])
    have hopen : b ≠ byte '{' := by
      rintro rfl
      cases Bytes.isDigit_of_mem_ofNat (hdigits ▸ List.mem_cons_self)
    have hclose : ∀ b ∈ ofNat i, (b != byte '}') = true := by
      intro b hb
      rw [bne_iff_ne]
      rintro rfl
      cases Bytes.isDigit_of_mem_ofNat hb
    have htake : (ofNat i ++ byte '}' :: rest).takeWhile (· != byte '}') = ofNat i := by
      rw [List.takeWhile_append_of_pos hclose]
      simp
    have htext : byte '{' :: (ofNat i ++ [byte '}']) ++ rest =
        byte '{' :: (ofNat i ++ byte '}' :: rest) := by
      simp
    have hdrop : (ofNat i ++ byte '}' :: rest).drop ((ofNat i).length + 1) = rest := by
      simp
    have hhead : (ofNat i ++ byte '}' :: rest).head? ≠ some (byte '{') := by
      simpa [hdigits] using hopen
    rw [htext, formatLoop, if_pos (beq_self_eq_true _), if_neg hhead, if_pos (by simp)]
    dsimp only
    rw [htake, Bytes.atoi_ofNat (by omega), hdrop, hrest]
    simp [hi, Except.map]

/-- `format` makes of the template of some segments their texts. -/
theorem formatGitHub_template (segments : List Segment) (hint : args.length ≤ 2 ^ 63)
    (hargs : ∀ i, .arg i ∈ segments → i < args.length) :
    formatGitHub (segments.flatMap Segment.template) args = .ok (.str (segments.flatMap (Segment.rendered args))) := by
  have hformats : Formats args (segments.flatMap Segment.template) (segments.flatMap (Segment.rendered args)) := by
    induction segments with
    | nil => exact fun fuel _ => by cases fuel <;> rfl
    | cons seg segments ih =>
      have ih := ih fun i hi => hargs i (.tail _ hi)
      rw [List.flatMap_cons, List.flatMap_cons]
      cases seg with
      | literal s => exact ih.literal s
      | arg i => exact ih.placeholder (hargs i (.head _)) hint
  rw [formatGitHub, hformats _ le_rfl]
  rfl

/-- A literal brace touches a placeholder on either side, and the argument has braces too. -/
theorem formatGitHub_template_braces : formatGitHub (ofString "\x7b\x7b\x7b0\x7d\x7d\x7d") [Value.text "\x7b0\x7d"] =
    .ok (Value.text "\x7b\x7b0\x7d\x7d") :=
  formatGitHub_template [.literal (ofString "\x7b"), .arg 0, .literal (ofString "\x7d")] (by decide) (by simp)

end Forgelet.Expression
