import Mathlib.Order.WellFoundedSet

/-!
# Lists in dependency order

Things with an id and the ids they need are in dependency order when each needs only ids that stand before it. Where
needs have no cycle, a finite set each of whose members needs another one is empty.
-/

namespace DependencyOrder

variable {α K : Type*} (id : α → K) (needs : α → List K)

/-- The list is in dependency order, after the ids `seen`. -/
def InOrder (seen : List K) : List α → Prop
  | [] => True
  | a :: rest => (∀ k ∈ needs a, k ∈ seen) ∧ InOrder (seen ++ [id a]) rest

instance InOrder.decidable [DecidableEq K] (seen : List K) :
    (l : List α) → Decidable (InOrder id needs seen l)
  | [] => isTrue trivial
  | a :: rest =>
    have := InOrder.decidable (seen ++ [id a]) rest
    inferInstanceAs (Decidable ((∀ k ∈ needs a, k ∈ seen) ∧ InOrder id needs (seen ++ [id a]) rest))

variable {id needs}

variable {seen : List K}

theorem inOrder_append {l l' : List α} : InOrder id needs seen (l ++ l') ↔
      InOrder id needs seen l ∧ InOrder id needs (seen ++ l.map id) l' := by
  induction l generalizing seen with
  | nil => simp [InOrder]
  | cons a rest ih =>
    rw [List.cons_append, InOrder, InOrder, ih, and_assoc, List.map_cons, List.append_assoc, List.singleton_append]

theorem inOrder_concat {l : List α} {a : α} : InOrder id needs seen (l ++ [a]) ↔
      InOrder id needs seen l ∧ ∀ k ∈ needs a, k ∈ seen ++ l.map id := by
  rw [inOrder_append]
  simp only [InOrder, and_true]

/-- A list of things that all need only what was seen is in order. -/
theorem inOrder_of_needs_seen {l : List α}
    (h : ∀ a ∈ l, ∀ k ∈ needs a, k ∈ seen) : InOrder id needs seen l := by
  induction l generalizing seen with
  | nil => trivial
  | cons a rest ih =>
    rw [List.forall_mem_cons] at h
    exact ⟨h.1, ih fun b hb k hk => List.mem_append_left _ (h.2 b hb k hk)⟩

/-- A list is in order if, wherever it is cut, what is needed next stands before. -/
theorem inOrder_nil_iff {l : List α} : InOrder id needs [] l ↔
      ∀ pre a post, l = pre ++ a :: post → ∀ k ∈ needs a, ∃ b ∈ pre, id b = k := by
  constructor
  · rintro h pre a post rfl k hk
    have hcut := (inOrder_append.mp h).2.1 k hk
    rw [List.nil_append] at hcut
    exact List.mem_map.mp hcut
  · intro h
    induction l using List.reverseRecOn with
    | nil => trivial
    | append_singleton rest a ih =>
      refine inOrder_concat.mpr ⟨ih fun pre b post hrest => ?_, fun k hk => ?_⟩
      · refine h pre b (post ++ [a]) ?_
        rw [hrest, List.append_assoc, List.cons_append]
      · rw [List.nil_append]
        exact List.mem_map.mpr (h rest a [] rfl k hk)

/-- If `r` has no cycle, a finite set in which every member has a predecessor is empty. -/
theorem eq_empty_of_acyclic {r : α → α → Prop} (hacyclic : ∀ a, ¬Relation.TransGen r a a) {S : Set α}
    (hfin : S.Finite) (hpred : ∀ a ∈ S, ∃ b ∈ S, r b a) : S = ∅ := by
  have hstrict : IsStrictOrder α (Relation.TransGen r) := { irrefl := hacyclic, trans := fun _ _ _ => .trans }
  refine Set.eq_empty_of_forall_notMem fun a ha => ?_
  have hwf : S.WellFoundedOn (Relation.TransGen r) := hfin.wellFoundedOn
  refine hwf.induction (P := fun _ => False) ha fun b hb hno => ?_
  obtain ⟨c, hc, hcb⟩ := hpred b hb
  exact hno c hc (.single hcb)

end DependencyOrder
