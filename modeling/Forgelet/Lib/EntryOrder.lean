import Forgelet.Lib.Bytes
import Forgelet.Lib.Entries

/-!
# Entries without their order

A map is printed with its entries sorted by key, in the order of byte strings, so two lists of entries with distinct
keys are printed alike if they hold the same entries.
-/

namespace Bytes

theorem le_total (s t : Bytes) : le s t ∨ le t s := by
  induction s generalizing t with
  | nil => exact .inl rfl
  | cons a s ih =>
    cases t with
    | nil => exact .inr rfl
    | cons b t =>
      simp only [le, Bool.or_eq_true, Bool.and_eq_true, decide_eq_true_eq, beq_iff_eq]
      by_cases hab : a = b
      · rcases ih t with hst | hts
        · exact .inl (.inr ⟨hab, hst⟩)
        · exact .inr (.inr ⟨hab.symm, hts⟩)
      · rcases UInt8.lt_or_lt_of_ne hab with h | h
        · exact .inl (.inl h)
        · exact .inr (.inl h)

theorem le_trans {s t u : Bytes} (hst : le s t) (htu : le t u) : le s u := by
  induction s generalizing t u with
  | nil => rfl
  | cons a s ih =>
    cases t with
    | nil => cases hst
    | cons b t =>
      cases u with
      | nil => cases htu
      | cons c u =>
        simp only [le, Bool.or_eq_true, Bool.and_eq_true, decide_eq_true_eq, beq_iff_eq] at hst htu ⊢
        rcases hst with hab | ⟨rfl, hst⟩
        · rcases htu with hbc | ⟨rfl, -⟩
          · exact .inl (UInt8.lt_trans hab hbc)
          · exact .inl hab
        · rcases htu with hbc | ⟨rfl, htu⟩
          · exact .inl hbc
          · exact .inr ⟨rfl, ih hst htu⟩

theorem le_antisymm {s t : Bytes} (hst : le s t) (hts : le t s) : s = t := by
  induction s generalizing t with
  | nil =>
    cases t with
    | nil => rfl
    | cons b t => cases hts
  | cons a s ih =>
    cases t with
    | nil => cases hst
    | cons b t =>
      simp only [le, Bool.or_eq_true, Bool.and_eq_true, decide_eq_true_eq, beq_iff_eq] at hst hts
      rcases hst with hab | ⟨rfl, hst⟩
      · rcases hts with hba | ⟨rfl, -⟩
        · exact absurd hba (UInt8.lt_asymm hab)
        · exact absurd hab (UInt8.lt_irrefl b)
      · rcases hts with hba | ⟨-, hts⟩
        · exact absurd hba (UInt8.lt_irrefl a)
        · rw [ih hst hts]

end Bytes

namespace Entries

variable {V : Type}

theorem isSome_find? (k : Bytes) (m : List (Bytes × V)) : (find? k m).isSome = decide (k ∈ m.map (·.1)) := by
  induction m with
  | nil => rfl
  | cons e rest ih =>
    rw [find?, List.map_cons]
    by_cases hk : e.1 = k
    · simp [hk]
    · simp [hk, Ne.symm hk, ih]

theorem mem_of_find? {k : Bytes} {v : V} {m : List (Bytes × V)} (h : find? k m = some v) : (k, v) ∈ m := by
  induction m with
  | nil => cases h
  | cons e rest ih =>
    rw [find?] at h
    by_cases hk : e.1 = k
    · rw [if_pos hk] at h
      cases h
      rw [← hk]
      exact (.head _)
    · rw [if_neg hk] at h
      exact .tail _ (ih h)

theorem find?_of_mem {m : List (Bytes × V)} (hm : (m.map (·.1)).Nodup) {e : Bytes × V} (he : e ∈ m) :
    find? e.1 m = some e.2 := by
  have hsome : (find? e.1 m).isSome := by
    rw [isSome_find?, decide_eq_true_eq]
    exact List.mem_map_of_mem he
  obtain ⟨v, hv⟩ := Option.isSome_iff_exists.mp hsome
  rw [hv, List.inj_on_of_nodup_map hm he (mem_of_find? hv) rfl]

/-- Lists with distinct keys that give every key one value hold the same entries. -/
theorem perm_of_find? {m m' : List (Bytes × V)} (hm : (m.map (·.1)).Nodup) (hm' : (m'.map (·.1)).Nodup)
    (h : ∀ k, find? k m = find? k m') : m.Perm m' := by
  rw [List.perm_ext_iff_of_nodup hm.of_map hm'.of_map]
  intro e
  constructor
  · intro he
    exact mem_of_find? ((h e.1).symm.trans (find?_of_mem hm he))
  · intro he
    exact mem_of_find? ((h e.1).trans (find?_of_mem hm' he))

/-- The order of entries with distinct keys does not matter to a lookup. -/
theorem find?_perm {m m' : List (Bytes × V)} (h : m.Perm m') (hm : (m.map (·.1)).Nodup) (k : Bytes) :
    find? k m = find? k m' := by
  have hm' : (m'.map (·.1)).Nodup := (h.map (·.1)).nodup_iff.mp hm
  cases hk : find? k m with
  | none =>
    have hnone : (find? k m').isSome = false := by
      rw [isSome_find?, ← decide_eq_decide.mpr (h.map (·.1)).mem_iff, ← isSome_find?, hk]
      rfl
    rw [Option.isSome_eq_false_iff, Option.isNone_iff_eq_none] at hnone
    exact hnone.symm
  | some v => exact (find?_of_mem hm' (h.mem_iff.mp (mem_of_find? hk))).symm

theorem mem_assign {k : Bytes} {v : V} {m : List (Bytes × V)} {e : Bytes × V} (h : e ∈ assign k v m) :
    e = (k, v) ∨ e ∈ m := by
  induction m with
  | nil => exact .inl (List.mem_singleton.mp h)
  | cons first rest ih =>
    rw [assign] at h
    split at h
    · exact (List.mem_cons.mp h).imp_right (List.mem_cons_of_mem _)
    · rcases List.mem_cons.mp h with rfl | h
      · exact .inr (.head _)
      · exact (ih h).imp_right (List.mem_cons_of_mem _)

theorem nodup_assign (k : Bytes) (v : V) {m : List (Bytes × V)} (hm : (m.map (·.1)).Nodup) :
    ((assign k v m).map (·.1)).Nodup := by
  induction m with
  | nil => exact List.nodup_singleton k
  | cons first rest ih =>
    rw [List.map_cons, List.nodup_cons] at hm
    rw [assign]
    split
    · rename_i hk
      rw [List.map_cons, List.nodup_cons, ← hk]
      exact hm
    · rename_i hk
      rw [List.map_cons, List.nodup_cons]
      refine ⟨fun hmem => ?_, ih hm.2⟩
      obtain ⟨e, he, heq⟩ := List.mem_map.mp hmem
      rcases mem_assign he with rfl | he
      · exact hk heq.symm
      · exact hm.1 (heq ▸ List.mem_map_of_mem he)

/-- The order in which entries are printed. -/
def keyLe (a b : Bytes × V) : Prop := Bytes.le a.1 b.1 = true

instance : DecidableRel (keyLe (V := V)) := fun a b => inferInstanceAs (Decidable (Bytes.le a.1 b.1))

instance : Std.Total (keyLe (V := V)) := ⟨fun a b => Bytes.le_total a.1 b.1⟩

instance : IsTrans (Bytes × V) keyLe := ⟨fun _ _ _ => Bytes.le_trans⟩

/-- Sorted entries with distinct keys do not depend on the order they were in. -/
theorem insertionSort_eq_of_perm {m m' : List (Bytes × V)} (h : m.Perm m') (hk : (m.map (·.1)).Nodup) :
    (m.insertionSort fun a b => Bytes.le a.1 b.1 = true) = m'.insertionSort fun a b => Bytes.le a.1 b.1 = true := by
  have hsorted := List.pairwise_insertionSort (keyLe (V := V))
  refine List.Perm.eq_of_pairwise ?_ (hsorted m) (hsorted m')
    ((List.perm_insertionSort _ m).trans (h.trans (List.perm_insertionSort _ m').symm))
  intro a b ha hb hab hba
  rw [List.mem_insertionSort] at ha hb
  exact List.inj_on_of_nodup_map hk ha (h.mem_iff.mpr hb) (Bytes.le_antisymm hab hba)

end Entries
