import Mathlib.Data.List.Basic

/-!
# Texts with separators

A text that is put together from parts with a separator can be taken apart again where the parts do not contain it.
-/

namespace Separator

variable {α : Type*} {sep : α} {part part' rest rest' : List α}

/-- Texts with a separator are the same if their parts are, or one is cut later. -/
theorem cut_eq_iff : part ++ sep :: rest = part' ++ sep :: rest' ↔
    (part = part' ∧ rest = rest') ∨ (∃ t, part' = part ++ sep :: t ∧ rest = t ++ sep :: rest') ∨
      ∃ t, part = part' ++ sep :: t ∧ rest' = t ++ sep :: rest := by
  constructor
  · intro heq
    rcases List.append_eq_append_iff.mp heq with ⟨more, hpart, hrest⟩ | ⟨more, hpart, hrest⟩
    · cases more with
      | nil => exact .inl ⟨by simpa using hpart.symm, (List.cons.inj hrest).2⟩
      | cons a more =>
        obtain ⟨rfl, htail⟩ := List.cons.inj hrest
        exact .inr (.inl ⟨more, hpart, htail⟩)
    · cases more with
      | nil => exact .inl ⟨by simpa using hpart, (List.cons.inj hrest).2.symm⟩
      | cons a more =>
        obtain ⟨rfl, htail⟩ := List.cons.inj hrest
        exact .inr (.inr ⟨more, hpart, htail⟩)
  · rintro (⟨rfl, rfl⟩ | ⟨t, rfl, rfl⟩ | ⟨t, rfl, rfl⟩) <;> simp

/-- Parts that do not contain the separator are told apart. -/
theorem cut_inj (h : sep ∉ part) (h' : sep ∉ part') (heq : part ++ sep :: rest = part' ++ sep :: rest') :
    part = part' ∧ rest = rest' := by
  rcases cut_eq_iff.mp heq with heq | ⟨t, rfl, -⟩ | ⟨t, rfl, -⟩
  · exact heq
  · exact absurd (List.mem_append_right _ (.head _)) h'
  · exact absurd (List.mem_append_right _ (.head _)) h

end Separator
