import Mathlib.Data.Set.Card

/-!
# Moments that are found one after the other

Moments of which only the first one after a given moment can be asked for. Walking from one to the next reaches the
last one up to a bound, and after finitely many steps if no bounded interval holds infinitely many.
-/

namespace Moments

variable {T : Type} [LinearOrder T]

/-- `next` finds the first moment of `S` after a given one, if there is any. -/
structure Successor (S : Set T) (next : T → Option T) : Prop where
  exhausted : ∀ {t : T}, next t = none → S ∩ Set.Ioi t = ∅
  first : ∀ {t m : T}, next t = some m → IsLeast (S ∩ Set.Ioi t) m
  finite : ∀ a b : T, (S ∩ Set.Ioc a b).Finite

variable {S : Set T} {next : T → Option T} {now c n : T}

section

variable (h : Successor S next)
include h

/-- A walk ends where the next moment is missing or too late: nothing lies between. -/
theorem Successor.empty (hend : ∀ n, next c = some n → now < n) : S ∩ Set.Ioc c now = ∅ := by
  rw [Set.eq_empty_iff_forall_notMem]
  rintro m ⟨hm, hcm, hmnow⟩
  cases hn : next c with
  | none =>
    have hmem : m ∈ S ∩ Set.Ioi c := ⟨hm, hcm⟩
    rw [h.exhausted hn] at hmem
    exact hmem
  | some n =>
    have hle : n ≤ m := (h.first hn).2 ⟨hm, hcm⟩
    exact absurd (hle.trans hmnow) (not_le_of_gt (hend n hn))

theorem Successor.inter_Ioc (hn : next c = some n) (hle : n ≤ now) :
    S ∩ Set.Ioc c now = insert n (S ∩ Set.Ioc n now) := by
  have hfirst := h.first hn
  ext m
  constructor
  · rintro ⟨hm, hcm, hmnow⟩
    rcases eq_or_lt_of_le (hfirst.2 ⟨hm, hcm⟩) with heq | hlt
    · exact .inl heq.symm
    · exact .inr ⟨hm, hlt, hmnow⟩
  · rintro (rfl | ⟨hm, hnm, hmnow⟩)
    · exact ⟨hfirst.1.1, hfirst.1.2, hle⟩
    · exact ⟨hm, lt_trans hfirst.1.2 hnm, hmnow⟩

theorem Successor.induction (now : T) {P : T → Prop}
    (step : ∀ c, (∀ n, next c = some n → n ≤ now → P n) → P c) (c : T) : P c := by
  induction hk : (S ∩ Set.Ioc c now).ncard using Nat.strong_induction_on generalizing c with
  | _ k ih =>
    refine step c fun n hn hle => ih _ ?_ n rfl
    have hnot : n ∉ S ∩ Set.Ioc n now := fun hmem => lt_irrefl n hmem.2.1
    rw [← hk, h.inter_Ioc hn hle, Set.ncard_insert_of_notMem hnot (h.finite n now)]
    exact Nat.lt_succ_self _

/-- The last moment after the next one is the last one of all. -/
theorem Successor.isGreatest_step (hn : next c = some n) (hle : n ≤ now) {m : T}
    (hm : IsGreatest (S ∩ Set.Ioc n now) m) : IsGreatest (S ∩ Set.Ioc c now) m := by
  rw [h.inter_Ioc hn hle]
  refine ⟨.inr hm.1, ?_⟩
  rintro x (rfl | hx)
  · exact hm.1.2.1.le
  · exact hm.2 hx

/-- A next moment with nothing after it is the last one. -/
theorem Successor.isGreatest_last (hn : next c = some n) (hle : n ≤ now)
    (hempty : S ∩ Set.Ioc n now = ∅) : IsGreatest (S ∩ Set.Ioc c now) n := by
  rw [h.inter_Ioc hn hle, hempty]
  refine ⟨.inl rfl, ?_⟩
  rintro x (rfl | hx)
  · exact le_rfl
  · cases hx

end

end Moments
