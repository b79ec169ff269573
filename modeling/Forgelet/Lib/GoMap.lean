import Mathlib.Data.List.AList

/-!
# Go maps

A Go map is an association list with distinct keys; the order of its entries stands for the iteration order. Lookups
after a write are given as one `if`.
-/

/-- A Go map from `K` to `V`. -/
abbrev GoMap (K V : Type) := AList (fun _ : K => V)

/-- An order in which Go may iterate over the keys of a map. -/
structure MapOrder (K : Type) where
  arrange : List K → List K
  perm : ∀ l, (arrange l).Perm l

/-- The order in which the keys were written. -/
def MapOrder.written (K : Type) : MapOrder K where
  arrange := id
  perm := fun _ => .refl _

namespace GoMap

variable {K V : Type} [DecidableEq K]

/-- Equality of entries, which evaluates. -/
instance [DecidableEq V] : DecidableEq (GoMap K V) := fun m m' =>
  decidable_of_iff (m.entries = m'.entries) AList.ext_iff.symm

theorem lookup_insert_ite (m : GoMap K V) (a b : K) (v : V) :
    (m.insert a v).lookup b = if b = a then some v else m.lookup b := by
  split_ifs with h
  · subst h; exact AList.lookup_insert m
  · exact AList.lookup_insert_ne h

theorem lookup_insert_cases {m : GoMap K V} {a b : K} {v w : V} (h : (m.insert a v).lookup b = some w) :
    (b = a ∧ w = v) ∨ m.lookup b = some w := by
  rw [lookup_insert_ite] at h
  split_ifs at h with heq
  · exact .inl ⟨heq, (Option.some.inj h).symm⟩
  · exact .inr h

theorem lookup_erase_ite (m : GoMap K V) (a b : K) : (m.erase a).lookup b = if b = a then none else m.lookup b := by
  split_ifs with h
  · subst h; exact AList.lookup_erase b m
  · exact AList.lookup_erase_ne h

theorem lookup_union_or (m m' : GoMap K V) (k : K) : (m ∪ m').lookup k = (m.lookup k).or (m'.lookup k) := by
  by_cases h : k ∈ m
  · rw [AList.lookup_union_left h]
    obtain ⟨v, hv⟩ := Option.isSome_iff_exists.mp (AList.lookup_isSome.mpr h)
    rw [hv, Option.some_or]
  · rw [AList.lookup_union_right h, AList.lookup_eq_none.mpr h, Option.none_or]

theorem mem_entries_iff (m : GoMap K V) (e : (_ : K) × V) :
    e ∈ m.entries ↔ m.lookup e.1 = some e.2 :=
  (AList.mem_lookup_iff (s := m)).symm

theorem mem_values_iff (m : GoMap K V) (v : V) : v ∈ m.entries.map (·.2) ↔ ∃ k, m.lookup k = some v := by
  constructor
  · intro h
    obtain ⟨e, he, rfl⟩ := List.mem_map.mp h
    exact ⟨e.1, (m.mem_entries_iff e).mp he⟩
  · rintro ⟨k, hk⟩
    exact List.mem_map.mpr ⟨⟨k, v⟩, (m.mem_entries_iff ⟨k, v⟩).mpr hk, rfl⟩

theorem keys_filter_isNone (m : GoMap K V) : (m.keys.filter fun k => (m.lookup k).isNone) = [] := by
  rw [List.filter_eq_nil_iff]
  intro k hk
  have hsome := AList.lookup_isSome.mpr hk
  simp only [Option.isNone_iff_eq_none]
  intro hnone
  rw [hnone] at hsome
  cases hsome

/-- The count of the values with a property moves by what the old and the new value contribute. -/
theorem countP_insert (m : GoMap K V) {k : K} {w : V} (v : V) (p : V → Bool) (h : m.lookup k = some w) :
    (m.insert k v).entries.countP (fun e => p e.2) + (if p w then 1 else 0) =
      m.entries.countP (fun e => p e.2) + (if p v then 1 else 0) := by
  have hk : k ∈ m.entries.keys := by
    have hmem : k ∈ m := by
      rw [← AList.lookup_isSome, h]
      rfl
    exact hmem
  obtain ⟨w', l₁, l₂, hl₁, heq, herase⟩ := List.exists_of_kerase hk
  have hw : w' = w := by
    have hmem : (⟨k, w'⟩ : (_ : K) × V) ∈ m.entries := by
      rw [heq]
      exact List.mem_append_right _ (.head _)
    exact Option.mem_unique ((m.mem_entries_iff ⟨k, w'⟩).mp hmem) h
  subst hw
  rw [AList.entries_insert, herase, heq]
  simp only [List.countP_cons, List.countP_append]
  omega

end GoMap
