import Forgelet.Lib.EditDistance
import Forgelet.Workflow.Compiler

/-!
# Proofs: the edit distance

The rows of `editDistance` are the distances to the beginnings of a text, and its result is the least number of edits.
-/

namespace Forgelet.Compiler

open EditDistance

/-- The distances of a list to the beginnings of another, which it has been compared with up to `done`. -/
def row (a done : List UInt8) : List UInt8 → List Nat
  | [] => []
  | d :: b => distance a (d :: done) :: row a (d :: done) b

theorem distanceRow_row (c : UInt8) (a done b : List UInt8) :
    distanceRow c (distance (c :: a) done) (distance a done) b (row a done b) = row (c :: a) done b := by
  induction b generalizing done with
  | nil => rfl
  | cons d b ih =>
    rw [row, row, ← ih (d :: done)]
    rfl

theorem distance_nil (a : List UInt8) : distance a [] = a.length := by
  induction a with
  | nil => rfl
  | cons c a ih => exact congrArg (· + 1) ih

theorem distanceRows_row (a done b : List UInt8) :
    distanceRows b (distance done [] :: row done [] b) (done.length + 1) a =
      distance (a.reverse ++ done) [] :: row (a.reverse ++ done) [] b := by
  induction a generalizing done with
  | nil => rfl
  | cons c a ih =>
    have hrow : nextRow b (distance done [] :: row done [] b) (done.length + 1) c =
        distance (c :: done) [] :: row (c :: done) [] b := by
      rw [← distanceRow_row, distance_nil (c :: done)]
      rfl
    rw [distanceRows, hrow, List.reverse_cons, List.append_assoc]
    exact ih (c :: done)

theorem row_nil (done b : List UInt8) : row [] done b = List.range' (done.length + 1) b.length := by
  induction b generalizing done with
  | nil => rfl
  | cons d b ih => simp [row, ih, distance, List.range'_succ]

theorem getLastD_row (a done b : List UInt8) :
    (distance a done :: row a done b).getLastD 0 = distance a (b.reverse ++ done) := by
  induction b generalizing done with
  | nil => rfl
  | cons d b ih =>
    rw [List.reverse_cons, List.append_assoc]
    exact ih (d :: done)

theorem editDistance_eq (a b : List UInt8) : editDistance a b = distance a b := by
  have hfirst : List.range (b.length + 1) = distance ([] : List UInt8) [] :: row [] [] b := by
    rw [row_nil, List.range_eq_range', List.range'_succ]
    rfl
  have hrows := distanceRows_row a [] b
  rw [List.length_nil, Nat.zero_add] at hrows
  rw [editDistance, hfirst, hrows, getLastD_row, List.append_nil, List.append_nil, distance_reverse]

/-- `editDistance` is the least number of insertions, deletions and substitutions. -/
theorem editDistance_isLeast (a b : List UInt8) : IsLeast {n | Edits n a b} (editDistance a b) := by
  rw [editDistance_eq]
  exact isLeast_distance a b

end Forgelet.Compiler
