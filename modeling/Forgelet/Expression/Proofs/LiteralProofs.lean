import Forgelet.Expression.Eval
import Forgelet.Expression.Proofs.ParserProofs

/-!
# Proofs: string literals

A string is written between quotes, with the quotes in it doubled. The lexer reads it back: a quote that no other one
follows is the last.
-/

namespace Forgelet.Expression

open Bytes (byte)

/-- The text with every quote doubled. -/
def escaped (s : Bytes) : Bytes := s.flatMap fun b => if b = byte '\'' then [b, b] else [b]

/-- The literal of a text. -/
def quoted (s : Bytes) : Bytes := byte '\'' :: (escaped s ++ [byte '\''])

variable {t : Bytes} (ht : t.head? ≠ some (byte '\''))

include ht

theorem stringBody_quoted (s : Bytes) :
    stringBody (escaped s ++ byte '\'' :: t) = some (s, escaped s ++ [byte '\'']) := by
  induction s with
  | nil =>
    cases t with
    | nil => rfl
    | cons d t => exact stringBody_closed t rfl (by simpa using ht)
  | cons b s ih =>
    by_cases hb : b = byte '\''
    · have hcons : escaped (b :: s) = b :: b :: escaped s := by simp [escaped, hb]
      rw [hcons, List.cons_append, List.cons_append, stringBody_escaped _ (by simp [hb]) (by simp [hb]), ih]
      rfl
    · have hcons : escaped (b :: s) = b :: escaped s := by simp [escaped, hb]
      rw [hcons, List.cons_append, stringBody_other _ (by simp [hb]), ih]
      rfl

theorem lexes_quoted {toks} (s : Bytes) (h : Lexes t toks) : Lexes (quoted s ++ t) (.string s :: toks) := by
  have hscan : scan (quoted s ++ t) = some (.string s, quoted s) := by
    have hbody := stringBody_quoted ht s
    rw [quoted, List.cons_append, List.append_assoc, List.singleton_append]
    simp only [scan]
    rw [hbody]
    rfl
  exact (lexes_token (s := quoted s ++ t) (quoted s) hscan List.drop_left).mpr ⟨toks, rfl, h⟩

omit ht

theorem lexes_literals (s : Bytes) (rest : List Bytes) : Lexes (Bytes.join [byte ','] ((s :: rest).map quoted))
    (((s :: rest).map Tok.string).intersperse (.punct .comma) ++ [.eof]) := by
  induction rest generalizing s with
  | nil =>
    have hone := lexes_quoted (t := []) nofun s (.eof rfl)
    rwa [List.append_nil] at hone
  | cons s' rest ih =>
    have hcomma : Lexes (byte ',' :: Bytes.join [byte ','] ((s' :: rest).map quoted))
        (.punct .comma :: (((s' :: rest).map Tok.string).intersperse (.punct .comma) ++ [.eof])) :=
      (lexes_token [byte ','] rfl rfl).mpr ⟨_, rfl, ih s'⟩
    have hboth := lexes_quoted (by rw [List.head?_cons]; decide) s hcomma
    rw [List.append_cons] at hboth
    exact hboth

/-- Literals that are separated by commas are read back, and the value of a literal is its string. -/
theorem literals_roundTrip (s : Bytes) (rest : List Bytes) :
    (tokens (Bytes.join [byte ','] ((s :: rest).map quoted))).map kinds =
        .ok (((s :: rest).map Tok.string).intersperse (.punct .comma) ++ [.eof]) ∧
      ∀ env, eval (quoted s) env = .ok (.str s) := by
  refine ⟨?_, fun env => ?_⟩
  · obtain ⟨ts, hts, hkinds⟩ := tokens_complete (lexes_literals s rest)
    rw [hts, ← hkinds]
    rfl
  · have hparse : parse (quoted s) = .ok (.literal (.str s)) :=
      parse_iff.mpr ⟨[.string s], lexes_literals s [], .or (.and (.compare (.plain nofun (.chain .string
        (.chainEnd nofun nofun))) (.compareEnd rfl)) (.andEnd nofun)) (.orEnd nofun)⟩
    rw [eval, hparse]
    rfl

end Forgelet.Expression
