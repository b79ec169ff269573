import Forgelet.Executor.Output

/-!
# Proofs: the lines of a stream

The read loop hands on the lines of the whole stream, however the reads divide it. What is in the buffer and what is
still to be read have the same lines as before, with those that were handed on in front.
-/

namespace Forgelet.Executor

open Bytes (byte)

/-- The lines of a stream, without the newline and one carriage return, and what no newline ends. -/
def streamLines (s : Bytes) : List Bytes :=
  let parts := s.splitOn (byte '\n')
  let rest := parts.getLastD []
  parts.dropLast.map (trimLast (byte '\r')) ++ if rest = [] then [] else [rest]

theorem streamLines_line {line} (h : byte '\n' ∉ line) (s : Bytes) :
    streamLines (line ++ byte '\n' :: s) = trimLast (byte '\r') line :: streamLines s := by
  have hsplit : (line ++ byte '\n' :: s).splitOn (byte '\n') = line :: s.splitOn (byte '\n') := by
    have hline : line.splitOnP (· == byte '\n') = [line] := List.splitOn_eq_singleton h
    rw [List.splitOn, List.splitOnP_append_cons line s (by simp), hline]
    rfl
  have hne := List.splitOn_ne_nil (byte '\n') s
  simp [streamLines, hsplit, List.dropLast_cons_of_ne_nil hne, List.getLastD_eq_getLast?,
    List.getLast?_cons_of_ne_nil hne]

theorem streamLines_rest {s} (h : byte '\n' ∉ s) : streamLines s = if s = [] then [] else [s] := by
  simp [streamLines, List.splitOn_eq_singleton h]

theorem index_cases (b : UInt8) (s : Bytes) : (Bytes.index [b] s = none ∧ b ∉ s) ∨
    ∃ before after, s = before ++ b :: after ∧ b ∉ before ∧ Bytes.index [b] s = some before.length := by
  induction s with
  | nil => exact .inl ⟨rfl, List.not_mem_nil⟩
  | cons c s ih =>
    by_cases hc : b = c
    · exact .inr ⟨[], s, by rw [hc]; rfl, List.not_mem_nil, by simp [Bytes.index, hc]⟩
    · rcases ih with ⟨hnone, hmem⟩ | ⟨before, after, rfl, hmem, hsome⟩
      · exact .inl ⟨by simp [Bytes.index, hc, hnone], by simp [hc, hmem]⟩
      · exact .inr ⟨c :: before, after, rfl, by simp [hc, hmem], by simp [Bytes.index, hc, hsome]⟩

/-- A stream is a text without newline, or a line and a stream after it. -/
theorem lines_induction {motive : Bytes → Prop} (rest : ∀ s, byte '\n' ∉ s → motive s)
    (line : ∀ line s, byte '\n' ∉ line → motive s → motive (line ++ byte '\n' :: s)) (s : Bytes) : motive s := by
  induction hn : s.length using Nat.strong_induction_on generalizing s with
  | h n ih =>
    rcases index_cases (byte '\n') s with ⟨-, hmem⟩ | ⟨before, after, rfl, hmem, -⟩
    · exact rest s hmem
    · have hshort : after.length < n := by
        rw [List.length_append, List.length_cons] at hn
        omega
      exact line before after hmem (ih after.length hshort after rfl)

/-- The complete lines of the buffer are taken, and come first whatever is read next. -/
theorem takeLines_spec {fuel buf} (h : buf.length ≤ fuel) : byte '\n' ∉ (takeLines fuel buf).2 ∧
    ∀ next, streamLines (buf ++ next) = (takeLines fuel buf).1 ++ streamLines ((takeLines fuel buf).2 ++ next) := by
  induction fuel generalizing buf with
  | zero =>
    obtain rfl := List.eq_nil_of_length_eq_zero (Nat.le_zero.mp h)
    exact ⟨List.not_mem_nil, fun next => rfl⟩
  | succ fuel ih =>
    rcases index_cases (byte '\n') buf with ⟨hnone, hmem⟩ | ⟨line, after, rfl, hmem, hsome⟩
    · simp [takeLines, hnone, hmem]
    · have hshort : after.length ≤ fuel := by simp at h; omega
      obtain ⟨hleft, hlines⟩ := ih hshort
      have hdrop : (line ++ byte '\n' :: after).drop (line.length + 1) = after := by simp
      simp only [takeLines, hsome, hdrop, List.take_left]
      exact ⟨hleft, fun next => by simp [streamLines_line hmem, hlines]⟩

theorem readLines_eq {buf} (h : byte '\n' ∉ buf) (reads : List Bytes) :
    readLines buf reads = streamLines (buf ++ reads.flatten) := by
  induction reads generalizing buf with
  | nil => simp [readLines, streamLines_rest h]
  | cons chunk rest ih =>
    obtain ⟨hleft, hlines⟩ := takeLines_spec (le_refl (buf ++ chunk).length)
    rw [List.flatten_cons, ← List.append_assoc, hlines, ← ih hleft]
    rfl

/-- However the output of a script is divided into reads, its lines are those of the whole stream. -/
theorem process_lines (reads : List Bytes) (ended : ProcessEnd) :
    (Process.ran reads ended).lines = streamLines reads.flatten :=
  readLines_eq List.not_mem_nil reads

example : (Process.ran [Bytes.ofString "a\r", [], Bytes.ofString "\nb\r\r\n\nc\r"] (.exited 0)).lines =
    [Bytes.ofString "a", Bytes.ofString "b\r", [], Bytes.ofString "c\r"] := by decide

end Forgelet.Executor
