import Forgelet.Executor.Mask

/-!
# Proofs: masking

The values are replaced one after the other by asterisks. A value is gone for good once it was replaced, unless
asterisks can put it together again.
-/

namespace Forgelet.Executor

open Bytes (ofString byte)
open Replace (Apart)

namespace Masker

/-- The byte that markers are made of. -/
def star : UInt8 := byte '*'

theorem marker_eq : marker = List.replicate 3 star := rfl

variable {v s : Bytes}

theorem mem_sorted {m : Masker} : v ∈ m.sorted ↔ v ∈ m.vals := (List.perm_insertionSort _ _).mem_iff

theorem nil_notMem_sorted (m : Masker) : [] ∉ m.sorted := fun hmem => m.nonempty (mem_sorted.mp hmem)

/-- `Apply` without the test that values are not empty. -/
theorem apply_eq (m : Masker) (s : Bytes) :
    m.apply s = m.sorted.foldl (fun t v => Replace.replaceAll v (List.replicate 3 star) t) s := by
  refine List.foldl_ext _ _ _ fun t v hv => ?_
  have hne : v ≠ [] := fun hnil => m.nil_notMem_sorted (hnil ▸ hv)
  rw [if_pos hne, marker_eq]

theorem infix_of_infix_foldl {vs : List Bytes} (hvs : [] ∉ vs) (hv : v ≠ []) (hapart : Apart star 3 v)
    (h : v <:+: vs.foldl (fun t v => Replace.replaceAll v (List.replicate 3 star) t) s) : v <:+: s := by
  induction vs generalizing s with
  | nil => exact h
  | cons w vs ih =>
    rw [List.mem_cons, not_or] at hvs
    exact Replace.infix_of_infix_replaceAll (Ne.symm hvs.1) hv hapart (ih hvs.2 h)

theorem not_infix_foldl {vs : List Bytes} (hvs : [] ∉ vs) (hv : v ∈ vs) (hapart : Apart star 3 v) (s : Bytes) :
    ¬v <:+: vs.foldl (fun t v => Replace.replaceAll v (List.replicate 3 star) t) s := by
  have hne : v ≠ [] := fun hnil => hvs (hnil ▸ hv)
  induction vs generalizing s with
  | nil => cases hv
  | cons w vs ih =>
    rw [List.mem_cons, not_or] at hvs
    rcases List.mem_cons.mp hv with rfl | hv
    · intro h
      exact Replace.not_infix_replaceAll hne hapart s (infix_of_infix_foldl hvs.2 hne hapart h)
    · exact ih hvs.2 hv _

theorem not_infix_apply (m : Masker) (hv : v ∈ m.vals) (hapart : Apart star 3 v) (s : Bytes) : ¬v <:+: m.apply s := by
  rw [apply_eq]
  exact not_infix_foldl m.nil_notMem_sorted (mem_sorted.mpr hv) hapart s

/-- A text without any of the values stays as it is. -/
theorem apply_eq_self (m : Masker) (h : ∀ v ∈ m.vals, ¬v <:+: s) : m.apply s = s := by
  rw [apply_eq]
  have hsorted : ∀ v ∈ m.sorted, ¬v <:+: s := fun v hv => h v (mem_sorted.mp hv)
  generalize m.sorted = vs at hsorted
  induction vs with
  | nil => rfl
  | cons v vs ih =>
    rw [List.foldl_cons, Replace.replaceAll_eq_self (hsorted v (.head _))]
    exact ih fun w hw => hsorted w (.tail _ hw)

/-- The state after a sequence of `Add` calls. -/
def ofAdds (adds : List Bytes) : Masker := adds.foldl add new

/-- No registered value without asterisk is left in a masked text, and if no value has one, masking twice is masking
once. -/
theorem apply_masks (adds : List Bytes) (s : Bytes) :
    (∀ v ∈ (ofAdds adds).vals, star ∉ v → ¬v <:+: (ofAdds adds).apply s) ∧ ((∀ v ∈ (ofAdds adds).vals, star ∉ v) →
        (ofAdds adds).apply ((ofAdds adds).apply s) = (ofAdds adds).apply s) := by
  refine ⟨fun v hv hstar => not_infix_apply _ hv (.of_notMem hstar 2) s, fun hstar => ?_⟩
  exact apply_eq_self _ fun v hv => not_infix_apply _ hv (.of_notMem (hstar v hv) 2) s

-- an asterisk in a value can be found next to a marker
example : (ofAdds [ofString "a*"]).apply (ofString "aa*") = ofString "a***" := by decide

end Masker

end Forgelet.Executor
