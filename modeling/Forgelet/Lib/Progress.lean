import Mathlib.Data.List.Basic

/-!
# Loops that run until nothing changes

A pass over a list either leaves the state as it is or reports progress, and passes are repeated while they report it.
When a measure falls with every pass that reports progress, the loop ends with a pass that changes nothing. The loop is
given with fuel, as a function, and without, as the sequence of its passes.
-/

namespace Progress

variable {σ α : Type}

variable {f : σ × Bool → α → σ × Bool} {l : List α} {μ : σ → Nat} {P : σ → Prop} {k : Nat}

/-- A step without a report has changed nothing, and no report is taken back. -/
def Reports (f : σ × Bool → α → σ × Bool) : Prop := ∀ acc x, f acc x = acc ∨ (f acc x).2

theorem foldl_reports (hf : Reports f) (l : List α) (acc : σ × Bool) :
    l.foldl f acc = acc ∨ (l.foldl f acc).2 := by
  induction l generalizing acc with
  | nil => exact .inl rfl
  | cons x rest ih =>
    rw [List.foldl_cons]
    rcases ih (f acc x) with hrest | hrest
    · rw [hrest]
      exact hf acc x
    · exact .inr hrest

theorem quiet_of_foldl (hf : Reports f) {s s' : σ}
    (h : l.foldl f (s, false) = (s', false)) : s' = s ∧ ∀ x ∈ l, f (s, false) x = (s, false) := by
  induction l with
  | nil => exact ⟨(congrArg Prod.fst h).symm, fun x hx => by cases hx⟩
  | cons x rest ih =>
    rw [List.foldl_cons] at h
    have hx : f (s, false) x = (s, false) := by
      rcases hf (s, false) x with hx | hx
      · exact hx
      · -- the report of the first step would still stand at the end
        rcases foldl_reports hf rest (f (s, false) x) with hrest | hrest
        · rw [← hrest, h] at hx
          cases hx
        · rw [h] at hrest
          cases hrest
    rw [hx] at h
    obtain ⟨hs, hrest⟩ := ih h
    refine ⟨hs, fun y hy => ?_⟩
    rcases List.mem_cons.mp hy with rfl | hy
    · exact hx
    · exact hrest y hy

/-- A pass over steps that leave a state reports what one of them reports. -/
theorem foldl_idle {s : σ} {reports : α → Bool}
    (h : ∀ x ∈ l, ∀ b, f (s, b) x = (s, b || reports x)) (b : Bool) : l.foldl f (s, b) = (s, b || l.any reports) := by
  induction l generalizing b with
  | nil => simp
  | cons x rest ih =>
    rw [List.forall_mem_cons] at h
    rw [List.foldl_cons, h.1, ih h.2, List.any_cons, Bool.or_assoc]

theorem foldl_le (h : ∀ x ∈ l, ∀ acc, μ (f acc x).1 ≤ μ acc.1) (acc : σ × Bool) : μ (l.foldl f acc).1 ≤ μ acc.1 := by
  induction l generalizing acc with
  | nil => exact Nat.le_refl _
  | cons x rest ih =>
    rw [List.forall_mem_cons] at h
    rw [List.foldl_cons]
    have hx := h.1 acc
    have hrest := ih h.2 (f acc x)
    omega

/-- A pass lowers a measure or changes nothing, and then has met `Q` at every step. -/
theorem foldl_changes {s : σ} {Q : α → Prop} (hfirst : ∀ x ∈ l, ∀ b, (f (s, b) x).1 = s ∧ Q x ∨ μ (f (s, b) x).1 < μ s)
    (hlater : ∀ x ∈ l, ∀ acc, μ (f acc x).1 ≤ μ acc.1) (b : Bool) :
    (l.foldl f (s, b)).1 = s ∧ (∀ x ∈ l, Q x) ∨ μ (l.foldl f (s, b)).1 < μ s := by
  induction l generalizing b with
  | nil => exact .inl ⟨rfl, fun x hx => by cases hx⟩
  | cons x rest ih =>
    rw [List.forall_mem_cons] at hfirst hlater
    rw [List.foldl_cons]
    rcases hfirst.1 b with ⟨hsame, hx⟩ | hlt
    · have hpair : f (s, b) x = (s, (f (s, b) x).2) := Prod.ext hsame rfl
      rw [hpair]
      rcases ih hfirst.2 hlater.2 (f (s, b) x).2 with ⟨hrest, hall⟩ | hrest
      · exact .inl ⟨hrest, List.forall_mem_cons.mpr ⟨hx, hall⟩⟩
      · exact .inr hrest
    · have hrest := foldl_le hlater.2 (f (s, b) x)
      exact .inr (by omega)

/-- Passes, which are numbered, until one reports no progress. -/
def untilQuiet (pass : Nat → σ → σ × Bool) : Nat → σ → σ
  | 0, s => s
  | fuel + 1, s =>
    match pass fuel s with
    | (s, true) => untilQuiet pass fuel s
    | (s, false) => s

theorem untilQuiet_invariant {pass : Nat → σ → σ × Bool}
    (hP : ∀ n s, P s → P (pass n s).1) (fuel : Nat) {s : σ} (hs : P s) : P (untilQuiet pass fuel s) := by
  induction fuel generalizing s with
  | zero => exact hs
  | succ fuel ih =>
    rw [untilQuiet]
    have hnext := hP fuel s hs
    generalize pass fuel s = out at hnext
    obtain ⟨s', progress⟩ := out
    cases progress with
    | true => exact ih hnext
    | false => exact hnext

/-- The loop ends if a measure falls with every pass that reports progress. -/
theorem untilQuiet_quiet {pass : Nat → σ → σ × Bool} (hP : ∀ n s, P s → P (pass n s).1)
    (hμ : ∀ n s, P s → (pass n s).2 → μ (pass n s).1 < μ s) {fuel : Nat} {s : σ} (hs : P s)
    (hfuel : μ s < fuel) : ∃ n s', P s' ∧ pass n s' = (untilQuiet pass fuel s, false) := by
  induction fuel generalizing s with
  | zero => omega
  | succ fuel ih =>
    rw [untilQuiet]
    have hnext := hP fuel s hs
    have hlt := hμ fuel s hs
    cases hpass : pass fuel s with
    | mk s' progress =>
      rw [hpass] at hnext hlt
      cases progress with
      | true =>
        have hless : μ s' < μ s := hlt rfl
        exact ih hnext (by omega)
      | false => exact ⟨fuel, s, hs, hpass⟩

/-- The state before the `k`-th pass, where passes are counted from zero. -/
def before (pass : Nat → σ → σ × Bool) (s : σ) : Nat → σ
  | 0 => s
  | k + 1 => (pass k (before pass s k)).1

/-- The loop comes to its `k`-th pass: all passes before it report progress. -/
def ComesTo (pass : Nat → σ → σ × Bool) (s : σ) (k : Nat) : Prop := ∀ i < k, (pass i (before pass s i)).2

/-- The loop returns from its `k`-th pass, in the state `s'`. -/
def EndsAt (pass : Nat → σ → σ × Bool) (s : σ) (k : Nat) (s' : σ) : Prop :=
  ComesTo pass s k ∧ pass k (before pass s k) = (s', false)

variable {pass : Nat → σ → σ × Bool} {s : σ}

theorem ComesTo.succ (h : ComesTo pass s k) (hprogress : (pass k (before pass s k)).2) :
    ComesTo pass s (k + 1) := by
  intro i hi
  rcases Nat.lt_succ_iff_lt_or_eq.mp hi with hlt | rfl
  · exact h i hlt
  · exact hprogress

theorem endsAt_of_not_comesTo {n : Nat} (h : ¬ ComesTo pass s (n + 1)) : ∃ k ≤ n, ∃ s', EndsAt pass s k s' := by
  induction n with
  | zero =>
    refine ⟨0, Nat.le_refl _, (pass 0 s).1, fun i hi => absurd hi (Nat.not_lt_zero i), ?_⟩
    by_contra hquiet
    have hprogress : (pass 0 s).2 := by
      rw [← Bool.not_eq_false]
      exact fun hfalse => hquiet (Prod.ext rfl hfalse)
    exact h (ComesTo.succ (fun i hi => absurd hi (Nat.not_lt_zero i)) hprogress)
  | succ n ih =>
    by_cases hreach : ComesTo pass s (n + 1)
    · have hquiet : (pass (n + 1) (before pass s (n + 1))).2 = false := by
        rw [← Bool.not_eq_true]
        exact fun hprogress => h (hreach.succ hprogress)
      exact ⟨n + 1, Nat.le_refl _, _, hreach, Prod.ext rfl hquiet⟩
    · obtain ⟨k, hk, hends⟩ := ih hreach
      exact ⟨k, by omega, hends⟩

theorem EndsAt.not_comesTo {n : Nat} {s' : σ} (h : EndsAt pass s k s') (hlt : k < n) : ¬ ComesTo pass s n := by
  intro hreach
  have hprogress := hreach k hlt
  rw [h.2] at hprogress
  cases hprogress

theorem before_invariant (hP : ∀ n t, P t → P (pass n t).1) (hs : P s) (k : Nat) : P (before pass s k) := by
  induction k with
  | zero => exact hs
  | succ k ih => exact hP k _ ih

/-- The measure at the start bounds the number of the passes that are not idle. -/
theorem ComesTo.le_idle (idle : Nat → Bool) (hP : ∀ n t, P t → P (pass n t).1) (hs : P s)
    (hle : ∀ n t, P t → μ (pass n t).1 ≤ μ t) (hlt : ∀ n, (pass n (before pass s n)).2 → idle n = false →
      μ (pass n (before pass s n)).1 < μ (before pass s n)) (h : ComesTo pass s k) :
    k + μ (before pass s k) ≤ μ s + (List.range k).countP idle := by
  induction k with
  | zero => exact Nat.le_of_eq (Nat.add_comm 0 _)
  | succ k ih =>
    have hk := ih fun i hi => h i (Nat.lt_succ_of_lt hi)
    have hnext := hle k _ (before_invariant hP hs k)
    rw [List.range_succ, List.countP_append, List.countP_singleton]
    show k + 1 + μ (pass k (before pass s k)).1 ≤ _
    cases hidle : idle k with
    | true =>
      rw [if_pos rfl]
      omega
    | false =>
      have hless := hlt k (h k (Nat.lt_succ_self k)) hidle
      rw [if_neg Bool.false_ne_true]
      omega

/-- A loop that has returned has returned within any greater bound. -/
theorem untilQuiet_of_endsAt {fuel : Nat} {s' : σ} (h : EndsAt pass s k s') (hfuel : k < fuel) :
    untilQuiet (fun n => pass (fuel - 1 - n)) fuel s = s' := by
  have hrun : ∀ m i, i + m = fuel → i ≤ k → untilQuiet (fun n => pass (fuel - 1 - n)) m (before pass s i) = s' := by
    intro m
    induction m with
    | zero => omega
    | succ m ih =>
      intro i hi hik
      have hnumber : fuel - 1 - m = i := by omega
      rw [untilQuiet, hnumber]
      rcases Nat.lt_or_eq_of_le hik with hlt | rfl
      · have hpair : pass i (before pass s i) = (before pass s (i + 1), true) := Prod.ext rfl (h.1 i hlt)
        rw [hpair]
        exact ih (i + 1) (by omega) hlt
      · rw [h.2]
  exact hrun fuel 0 (Nat.zero_add fuel) (Nat.zero_le k)

end Progress
