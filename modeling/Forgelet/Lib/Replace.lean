import Mathlib.Data.List.Infix

/-!
# Replacing the occurrences of a pattern

`replaceAll` scans a list from the left and puts another list in the place of every occurrence of a pattern that does
not overlap the one before; proofs go by `replaceAll_induction`. Where the replacement consists of a marker symbol,
lists that the symbol neither begins nor ends nor fills are not put together by it, and others are.
-/

namespace Replace

variable {α : Type} [DecidableEq α] {old new : List α}

/-- The rounds of a replacement; `skip` is left of the occurrence in progress. -/
def replaceFrom (old new : List α) : Nat → List α → List α
  | _, [] => []
  | skip + 1, _ :: s => replaceFrom old new skip s
  | 0, c :: s =>
    if old <+: c :: s then new ++ replaceFrom old new (old.length - 1) s
    else c :: replaceFrom old new 0 s

/-- The list with `new` for every occurrence of `old`, which is not empty. -/
def replaceAll (old new s : List α) : List α := replaceFrom old new 0 s

theorem replaceFrom_eq_drop (skip : Nat) (s : List α) :
    replaceFrom old new skip s = replaceAll old new (s.drop skip) := by
  induction s generalizing skip with
  | nil =>
    rw [List.drop_nil]
    cases skip <;> rfl
  | cons c s ih =>
    cases skip with
    | zero => rfl
    | succ skip => exact ih skip

theorem replaceAll_append (hold : old ≠ []) (s : List α) :
    replaceAll old new (old ++ s) = new ++ replaceAll old new s := by
  obtain ⟨c, rest, rfl⟩ := List.exists_cons_of_ne_nil hold
  have hpre : c :: rest <+: c :: (rest ++ s) := List.prefix_append (c :: rest) s
  rw [List.cons_append, replaceAll, replaceFrom, if_pos hpre, replaceFrom_eq_drop, List.length_cons,
    Nat.add_sub_cancel, List.drop_left]

theorem replaceAll_cons {c : α} {s : List α} (h : ¬old <+: c :: s) :
    replaceAll old new (c :: s) = c :: replaceAll old new s := by
  rw [replaceAll, replaceFrom, if_neg h]
  rfl

/-- A symbol at which no occurrence begins is kept, and an occurrence is replaced as a whole. -/
theorem replaceAll_induction (new : List α) (hold : old ≠ []) {motive : List α → List α → Prop} (nil : motive [] [])
    (keep : ∀ c s, ¬old <+: c :: s → motive s (replaceAll old new s) → motive (c :: s) (c :: replaceAll old new s))
    (hit : ∀ s, motive s (replaceAll old new s) → motive (old ++ s) (new ++ replaceAll old new s)) (s : List α) :
    motive s (replaceAll old new s) := by
  induction hn : s.length using Nat.strong_induction_on generalizing s with
  | h n ih =>
    cases s with
    | nil => exact nil
    | cons c s =>
      by_cases hpre : old <+: c :: s
      · obtain ⟨rest, hrest⟩ := hpre
        have hpos : 0 < old.length := List.length_pos_of_ne_nil hold
        have hlen : old.length + rest.length = n := by rw [← hn, ← hrest, List.length_append]
        rw [← hrest, replaceAll_append hold]
        exact hit rest (ih rest.length (by omega) rest rfl)
      · rw [replaceAll_cons hpre]
        exact keep c s hpre (ih s.length (by rw [← hn, List.length_cons]; omega) s rfl)

theorem replaceAll_eq_self {s : List α} (h : ¬old <:+: s) : replaceAll old new s = s := by
  induction s with
  | nil => rfl
  | cons c s ih =>
    rw [List.infix_cons_iff, not_or] at h
    rw [replaceAll_cons h.1, ih h.2]

omit [DecidableEq α] in
theorem prefix_of_prefix_append_cons {x : α} {v s t : List α} (hx : x ∉ v) (h : v <+: s ++ x :: t) : v <+: s := by
  induction s generalizing v with
  | nil =>
    cases v with
    | nil => exact List.nil_prefix
    | cons c v =>
      rw [List.nil_append, List.cons_prefix_cons] at h
      exact absurd (h.1 ▸ (.head _)) hx
  | cons c s ih =>
    cases v with
    | nil => exact List.nil_prefix
    | cons d v =>
      rw [List.cons_append, List.cons_prefix_cons] at h
      rw [List.cons_prefix_cons]
      exact ⟨h.1, ih (fun hmem => hx (.tail _ hmem)) h.2⟩

omit [DecidableEq α] in
theorem infix_append_cons {x : α} {v s t : List α} (hx : x ∉ v) (h : v <:+: s ++ x :: t) : v <:+: s ∨ v <:+: t := by
  induction s with
  | nil =>
    rcases List.infix_cons_iff.mp h with h | h
    · rw [List.prefix_nil.mp (prefix_of_prefix_append_cons (s := []) hx h)]
      exact .inl List.nil_infix
    · exact .inr h
  | cons c s ih =>
    rcases List.infix_cons_iff.mp h with h | h
    · exact .inl (prefix_of_prefix_append_cons (s := c :: s) hx h).isInfix
    · rcases ih h with h | h
      · exact .inl (h.trans (List.suffix_cons c s).isInfix)
      · exact .inr h

/-! ## Markers -/

section Marker

variable {m : α} {n : Nat} {v : List α}

/-- The symbol `m` neither begins nor ends the list, and does not stand `n` times in a row in it. -/
structure Apart (m : α) (n : Nat) (v : List α) : Prop where
  head : v.head? ≠ some m
  last : v.getLast? ≠ some m
  inner : ¬List.replicate n m <:+: v

instance : Decidable (Apart m n v) :=
  decidable_of_iff (v.head? ≠ some m ∧ v.getLast? ≠ some m ∧ ¬List.replicate n m <:+: v)
    ⟨fun h => ⟨h.1, h.2.1, h.2.2⟩, fun h => ⟨h.head, h.last, h.inner⟩⟩

omit [DecidableEq α] in
theorem Apart.of_notMem (hm : m ∉ v) (n : Nat) : Apart m (n + 1) v where
  head h := hm (List.mem_of_mem_head? (Option.mem_def.mpr h))
  last h := hm (List.mem_of_mem_getLast? (Option.mem_def.mpr h))
  inner h := hm (h.subset (List.mem_replicate.mpr ⟨Nat.succ_ne_zero n, rfl⟩))

omit [DecidableEq α] in
/-- A list that begins in a marker ends in it or has it as a part. -/
theorem eq_nil_of_prefix_marker (hlast : v.getLast? ≠ some m) (hinner : ¬List.replicate n m <:+: v) {s : List α}
    (h : v <+: List.replicate n m ++ s) : v = [] := by
  rcases List.prefix_or_prefix_of_prefix h (List.prefix_append ..) with h | h
  · have hall := List.eq_replicate_of_mem fun b hb => List.eq_of_mem_replicate (h.subset hb)
    cases hlen : v.length with
    | zero => exact List.eq_nil_of_length_eq_zero hlen
    | succ k =>
      rw [hlen] at hall
      rw [hall, List.replicate_succ', List.getLast?_concat] at hlast
      exact absurd rfl hlast
  · exact absurd h.isInfix hinner

omit [DecidableEq α] in
theorem infix_of_infix_marker_append (hv : v ≠ []) (hhead : v.head? ≠ some m) {s : List α}
    (h : v <:+: List.replicate n m ++ s) : v <:+: s := by
  induction n with
  | zero => exact h
  | succ n ih =>
    rw [List.replicate_succ, List.cons_append, List.infix_cons_iff] at h
    rcases h with h | h
    · obtain ⟨c, v, rfl⟩ := List.exists_cons_of_ne_nil hv
      rw [List.cons_prefix_cons] at h
      exact absurd (congrArg some h.1) hhead
    · exact ih h

theorem prefix_of_prefix_replaceAll (hold : old ≠ []) (hlast : v.getLast? ≠ some m)
    (hinner : ¬List.replicate n m <:+: v) {s : List α} (h : v <+: replaceAll old (List.replicate n m) s) :
    v <+: s := by
  refine replaceAll_induction (List.replicate n m) hold (motive := fun s t => ∀ v : List α, v.getLast? ≠ some m →
    ¬List.replicate n m <:+: v → v <+: t → v <+: s) ?_ ?_ ?_ s v hlast hinner h
  · exact fun _ _ _ h => h
  · intro c s _ ih v hlast hinner h
    cases v with
    | nil => exact List.nil_prefix
    | cons d v =>
      rw [List.cons_prefix_cons] at h ⊢
      refine ⟨h.1, ih v (fun hv => hlast ?_) (fun hv => hinner (List.infix_cons hv)) h.2⟩
      rw [List.getLast?_cons, hv]
      rfl
  · intro s _ v hlast hinner h
    rw [eq_nil_of_prefix_marker hlast hinner h]
    exact List.nil_prefix

/-- Replacing other occurrences does not put `v` together. -/
theorem infix_of_infix_replaceAll (hold : old ≠ []) (hv : v ≠ []) (hapart : Apart m n v) {s : List α}
    (h : v <:+: replaceAll old (List.replicate n m) s) : v <:+: s := by
  revert h
  refine replaceAll_induction (List.replicate n m) hold (motive := fun s t => v <:+: t → v <:+: s) ?_ ?_ ?_ s
  · exact fun h => h
  · intro c s hpre ih h
    rw [List.infix_cons_iff] at h ⊢
    rcases h with h | h
    · rw [← replaceAll_cons hpre] at h
      exact .inl (prefix_of_prefix_replaceAll hold hapart.last hapart.inner h)
    · exact .inr (ih h)
  · intro s ih h
    exact (ih (infix_of_infix_marker_append hv hapart.head h)).trans (List.suffix_append old s).isInfix

theorem not_infix_replaceAll (hold : old ≠ []) (hapart : Apart m n old) (s : List α) :
    ¬old <:+: replaceAll old (List.replicate n m) s := by
  refine replaceAll_induction (List.replicate n m) hold (motive := fun _ t => ¬old <:+: t) ?_ ?_ ?_ s
  · exact fun h => hold (List.infix_nil.mp h)
  · intro c s hpre ih h
    rw [List.infix_cons_iff] at h
    rcases h with h | h
    · rw [← replaceAll_cons hpre] at h
      exact hpre (prefix_of_prefix_replaceAll hold hapart.last hapart.inner h)
    · exact ih h
  · intro s ih h
    exact ih (infix_of_infix_marker_append hold hapart.head h)

/-! ### Lists that a marker completes -/

theorem replaceAll_append_of_not_prefix {p t : List α} (h : ∀ i < p.length, ¬old <+: (p ++ t).drop i) :
    replaceAll old new (p ++ t) = p ++ replaceAll old new t := by
  induction p with
  | nil => rfl
  | cons c p ih =>
    have hfirst : ¬old <+: c :: (p ++ t) := h 0 (Nat.succ_pos _)
    rw [List.cons_append, replaceAll_cons hfirst, List.cons_append]
    exact congrArg _ (ih fun i hi => h (i + 1) (Nat.succ_lt_succ hi))

omit [DecidableEq α] in
/-- A list that does not begin with `m` but has it after `p` does not occur early in `p` and itself. -/
theorem not_prefix_drop {p r q : List α} (hhead : (p ++ m :: r).head? ≠ some m) {i : Nat} (hi : i < p.length) :
    ¬p ++ m :: r <+: (p ++ (p ++ m :: r ++ q)).drop i := by
  rintro ⟨t, ht⟩
  have hget : ∀ j < (p ++ m :: r).length, (p ++ (p ++ m :: r ++ q))[i + j]? = (p ++ m :: r)[j]? := by
    intro j hj
    rw [← List.getElem?_drop, ← ht, List.getElem?_append_left hj]
  -- the symbols at the front and after `p` are both the one at `i`
  have hlen : p.length < (p ++ m :: r).length := by
    rw [List.length_append, List.length_cons]
    omega
  have hfront := hget 0 (Nat.zero_lt_of_lt hlen)
  have hafter := hget p.length hlen
  rw [Nat.add_zero, List.getElem?_append_left hi] at hfront
  rw [Nat.add_comm, List.getElem?_append_right (Nat.le_add_right _ _), Nat.add_sub_cancel_left,
    List.getElem?_append_left (by simp; omega), List.getElem?_append_left hi, hfront,
    List.getElem?_append_right (Nat.le_refl _), Nat.sub_self, List.getElem?_cons_zero] at hafter
  rw [List.head?_eq_getElem?] at hhead
  exact hhead hafter

omit [DecidableEq α] in
/-- A list that is not apart from `m` is a part of a marker between parts `p` and `q` of it. -/
theorem exists_completed (hn : 0 < n) (h : ¬Apart m n v) : ∃ p q : List α,
    (∀ i < p.length, ∀ t, ¬v <+: (p ++ (v ++ t)).drop i) ∧ p ⊆ v ∧ q ⊆ v ∧ q.length < v.length ∧
      v <:+: p ++ (List.replicate n m ++ q) := by
  obtain ⟨k, rfl⟩ := Nat.exists_eq_succ_of_ne_zero (Nat.ne_of_gt hn)
  by_cases hhead : v.head? = some m
  · obtain ⟨q, rfl⟩ := List.head?_eq_some_iff.mp hhead
    refine ⟨[], q, nofun, List.nil_subset _, List.subset_cons_self m q, Nat.lt_succ_self _, ?_⟩
    rw [List.nil_append, List.replicate_succ', List.append_assoc]
    exact (List.suffix_append ..).isInfix
  have hnone : ∀ {p r : List α}, v = p ++ m :: r → ∀ i < p.length, ∀ t, ¬v <+: (p ++ (v ++ t)).drop i := by
    rintro p r rfl i hi t
    exact not_prefix_drop hhead hi
  by_cases hlast : v.getLast? = some m
  · obtain ⟨p, rfl⟩ := List.getLast?_eq_some_iff.mp hlast
    refine ⟨p, [], hnone rfl, List.subset_append_left .., List.nil_subset _, by simp, ?_⟩
    have hmarker : p ++ (List.replicate (k + 1) m ++ []) = p ++ [m] ++ List.replicate k m := by
      rw [List.append_nil, List.replicate_succ, List.append_assoc, List.singleton_append]
    rw [hmarker]
    exact (List.prefix_append ..).isInfix
  · obtain ⟨p, q, rfl⟩ : List.replicate (k + 1) m <:+: v := by
      by_contra hinner
      exact h ⟨hhead, hlast, hinner⟩
    refine ⟨p, q, hnone (r := List.replicate k m ++ q) (by simp [List.replicate_succ]), ?_, ?_, ?_, ?_⟩
    · exact fun b hb => by simp [hb]
    · exact List.subset_append_right ..
    · rw [List.length_append, List.length_append, List.length_replicate]
      omega
    · rw [List.append_assoc]

/-- Such a list is left when it is replaced in the right place, between other symbols. -/
theorem exists_infix_replaceAll (hv : v ≠ []) (hn : 0 < n) (h : ¬Apart m n v) {x y : α} (hx : v.head? ≠ some x)
    (hy : v.getLast? ≠ some y) :
    ∃ s ⊆ v, v <:+: replaceAll v (List.replicate n m) (x :: (s ++ [y])) := by
  obtain ⟨p, q, hnone, hp, hq, hshort, hmade⟩ := exists_completed hn h
  refine ⟨p ++ (v ++ q), ?_, ?_⟩
  · exact List.append_subset.mpr ⟨hp, List.append_subset.mpr ⟨List.Subset.refl v, hq⟩⟩
  · have hfirst : ¬v <+: x :: (p ++ (v ++ q) ++ [y]) := by
      obtain ⟨c, v, rfl⟩ := List.exists_cons_of_ne_nil hv
      rw [List.cons_prefix_cons]
      exact fun hpre => hx (congrArg some hpre.1)
    have hrest : ¬v <:+: q ++ [y] := by
      intro hin
      have hlen : (q ++ [y]).length ≤ v.length := by
        rw [List.length_append, List.length_singleton]
        exact hshort
      rw [hin.sublist.eq_of_length_le hlen, List.getLast?_concat] at hy
      exact hy rfl
    rw [replaceAll_cons hfirst, List.append_assoc, List.append_assoc,
      replaceAll_append_of_not_prefix fun i hi => hnone i hi _, replaceAll_append hv, replaceAll_eq_self hrest,
      ← List.append_assoc (List.replicate n m), ← List.append_assoc p]
    exact List.infix_cons (hmade.trans (List.prefix_append ..).isInfix)

end Marker

end Replace
