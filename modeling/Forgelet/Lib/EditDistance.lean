import Mathlib.Order.Bounds.Basic
import Mathlib.Order.MinMax

/-!
# The least number of edits

An edit inserts, deletes or replaces one element of a list. Edits in any order can be brought into the order of the
lists, as an alignment of one with the other, and `distance` finds the cheapest alignment.
-/

namespace EditDistance

variable {α : Type*}

/-- One element is inserted, deleted or replaced. -/
inductive Edit : List α → List α → Prop
  | insert (x : α) (b : List α) : Edit b (x :: b)
  | delete (x : α) (b : List α) : Edit (x :: b) b
  | replace (x y : α) (b : List α) : Edit (x :: b) (y :: b)
  | cons {b c} (x : α) (h : Edit b c) : Edit (x :: b) (x :: c)

/-- A number of edits, one after the other. -/
inductive Edits : ℕ → List α → List α → Prop
  | refl (a : List α) : Edits 0 a a
  | step {n a b c} (h : Edits n a b) (hedit : Edit b c) : Edits (n + 1) a c

/-- Two lists side by side, with the number of places where they differ. -/
inductive Align : ℕ → List α → List α → Prop
  | nil : Align 0 [] []
  | keep {n a b} (x : α) (h : Align n a b) : Align n (x :: a) (x :: b)
  | replace {n a b} (x y : α) (h : Align n a b) : Align (n + 1) (x :: a) (y :: b)
  | delete {n a b} (x : α) (h : Align n a b) : Align (n + 1) (x :: a) b
  | insert {n a b} (y : α) (h : Align n a b) : Align (n + 1) a (y :: b)

variable {a b c : List α} {n : ℕ}

theorem Edit.append (h : Edit a b) (t : List α) : Edit (a ++ t) (b ++ t) := by
  induction h with
  | insert x b => exact .insert x _
  | delete x b => exact .delete x _
  | replace x y b => exact .replace x y _
  | cons x h ih => exact .cons x ih

theorem Edit.prepend (h : Edit a b) (t : List α) : Edit (t ++ a) (t ++ b) := by
  induction t with
  | nil => exact h
  | cons x t ih => exact .cons x ih

theorem Edit.reverse (h : Edit a b) : Edit a.reverse b.reverse := by
  induction h with
  | insert x b => simpa using (Edit.insert x []).prepend b.reverse
  | delete x b => simpa using (Edit.delete x []).prepend b.reverse
  | replace x y b => simpa using (Edit.replace x y []).prepend b.reverse
  | cons x h ih => simpa using ih.append [x]

theorem Edits.reverse (h : Edits n a b) : Edits n a.reverse b.reverse := by
  induction h with
  | refl a => exact .refl _
  | step h hedit ih => exact ih.step hedit.reverse

theorem Edits.cons (x : α) (h : Edits n a b) : Edits n (x :: a) (x :: b) := by
  induction h with
  | refl a => exact .refl _
  | step h hedit ih => exact ih.step (.cons x hedit)

/-! ## Alignments -/

theorem Align.edits (h : Align n a b) : Edits n a b := by
  induction h with
  | nil => exact .refl []
  | keep x h ih => exact ih.cons x
  | replace x y h ih => exact (ih.cons x).step (.replace x y _)
  | delete x h ih => exact (ih.cons x).step (.delete x _)
  | insert y h ih => exact ih.step (.insert y _)

theorem align_refl (a : List α) : Align 0 a a := by
  induction a with
  | nil => exact .nil
  | cons x a ih => exact .keep x ih

/-- One more edit costs at most one place more. -/
theorem Align.edit (h : Align n a b) (hedit : Edit b c) : ∃ m ≤ n + 1, Align m a c := by
  induction h generalizing c with
  | nil =>
    cases hedit with
    | insert x => exact ⟨1, le_rfl, .insert x .nil⟩
  | @keep n a b x h ih =>
    cases hedit with
    | insert y => exact ⟨n + 1, le_rfl, .insert y (.keep x h)⟩
    | delete => exact ⟨n + 1, le_rfl, .delete x h⟩
    | replace _ y => exact ⟨n + 1, le_rfl, .replace x y h⟩
    | cons _ hedit =>
      obtain ⟨m, hm, hc⟩ := ih hedit
      exact ⟨m, hm, .keep x hc⟩
  | @replace n a b x y h ih =>
    cases hedit with
    | insert z => exact ⟨n + 2, le_rfl, .insert z (.replace x y h)⟩
    | delete => exact ⟨n + 1, by omega, .delete x h⟩
    | replace _ z => exact ⟨n + 1, by omega, .replace x z h⟩
    | cons _ hedit =>
      obtain ⟨m, hm, hc⟩ := ih hedit
      exact ⟨m + 1, by omega, .replace x y hc⟩
  | delete x h ih =>
    obtain ⟨m, hm, hc⟩ := ih hedit
    exact ⟨m + 1, by omega, .delete x hc⟩
  | @insert n a b y h ih =>
    cases hedit with
    | insert z => exact ⟨n + 2, le_rfl, .insert z (.insert y h)⟩
    | delete => exact ⟨n, by omega, h⟩
    | replace _ z => exact ⟨n + 1, by omega, .insert z h⟩
    | cons _ hedit =>
      obtain ⟨m, hm, hc⟩ := ih hedit
      exact ⟨m + 1, by omega, .insert y hc⟩

theorem Edits.align (h : Edits n a b) : ∃ m ≤ n, Align m a b := by
  induction h with
  | refl a => exact ⟨0, le_rfl, align_refl a⟩
  | step h hedit ih =>
    obtain ⟨m, hm, hb⟩ := ih
    obtain ⟨k, hk, hc⟩ := hb.edit hedit
    exact ⟨k, by omega, hc⟩

/-! ## The distance -/

variable [DecidableEq α]

/-- The distances of `x :: a`, from those of `a`. -/
def extend (x : α) (above : List α → ℕ) : List α → ℕ
  | [] => above [] + 1
  | y :: b => min (min (above (y :: b) + 1) (extend x above b + 1)) (above b + if x = y then 0 else 1)

/-- The least number of edits between two lists. -/
def distance : List α → List α → ℕ
  | [] => List.length
  | x :: a => extend x (distance a)

theorem align_distance (a b : List α) : Align (distance a b) a b := by
  induction a generalizing b with
  | nil =>
    induction b with
    | nil => exact .nil
    | cons y b ih => exact .insert y ih
  | cons x a iha =>
    induction b with
    | nil => exact .delete x (iha [])
    | cons y b ihb =>
      rw [distance, extend]
      rcases min_choice (min (distance a (y :: b) + 1) (extend x (distance a) b + 1))
        (distance a b + if x = y then 0 else 1) with h | h
      · rw [h]
        rcases min_choice (distance a (y :: b) + 1) (extend x (distance a) b + 1) with h | h
        · rw [h]
          exact .delete x (iha _)
        · rw [h]
          exact .insert y ihb
      · rw [h]
        split_ifs with hxy
        · rw [hxy]
          exact .keep y (iha b)
        · exact .replace x y (iha b)

theorem Align.distance_le (h : Align n a b) : distance a b ≤ n := by
  induction h with
  | nil => exact le_rfl
  | keep x h ih => simp [distance, extend, ih]
  | replace x y h ih =>
    simp only [distance, extend]
    split_ifs <;> omega
  | @delete n a b x h ih =>
    cases b with
    | nil => exact Nat.succ_le_succ ih
    | cons y b => simp only [distance, extend]; omega
  | @insert n a b y h ih =>
    cases a with
    | nil => exact Nat.succ_le_succ ih
    | cons x a => simp only [distance, extend] at ih ⊢; omega

theorem isLeast_distance (a b : List α) : IsLeast {n | Edits n a b} (distance a b) := by
  refine ⟨(align_distance a b).edits, fun n h => ?_⟩
  obtain ⟨m, hm, halign⟩ := Edits.align h
  exact halign.distance_le.trans hm

theorem distance_reverse (a b : List α) : distance a.reverse b.reverse = distance a b := by
  refine (isLeast_distance a.reverse b.reverse).unique ⟨(isLeast_distance a b).1.reverse, fun n h => ?_⟩
  have hback := Edits.reverse h
  rw [List.reverse_reverse, List.reverse_reverse] at hback
  exact (isLeast_distance a b).2 hback

end EditDistance
