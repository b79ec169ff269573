import Forgelet.Run.Model

/-!
# Proofs: statuses, transitions and the run aggregate
-/

namespace Forgelet

open JobRunStatus

variable {src dst : JobRunStatus}

theorem transitionJob_eq_ok {next} (h : transitionJob src dst = .ok next) : next = dst ∧ canTransitionJob src dst := by
  unfold transitionJob at h
  split_ifs at h with hc
  exact ⟨(Except.ok.inj h).symm, hc⟩

/-- Cancelling and skipping are possible from exactly the non-terminal statuses. -/
theorem transitionJob_stop (hd : dst = .cancelled ∨ dst = .skipped) :
    transitionJob src dst = if src.isTerminal then
      .error { kind := "jobrun", fromStatus := src.text, toStatus := dst.text } else .ok dst := by
  rcases hd with rfl | rfl <;> cases src <;> rfl

/-- A phase never implies cancellation, nor a step back to `queued` or `dispatched`. -/
theorem jobStatusFromPhase_cases {p target} (h : jobStatusFromPhase p = some target) :
    target = .running ∨ target = .succeeded ∨ target = .failed ∨ target = .skipped := by
  cases p <;> simp_all [jobStatusFromPhase]

/-- The projection moves a job that is not terminal only to a status of at least its rank. -/
theorem jobRank_le_of_canAdvanceJob (h : canAdvanceJob src dst) : jobRank src ≤ jobRank dst := by
  unfold canAdvanceJob at h
  split_ifs at h with h1 h2
  · rw [beq_iff_eq.mp h2]
  · exact Nat.le_of_lt (by simpa using h)

theorem canAdvanceRun_of_terminal {src dst} (hs : src.isTerminal = false) (hd : dst.isTerminal) :
    canAdvanceRun src dst := by
  cases src <;> cases dst <;> simp_all [canAdvanceRun, WorkflowRunStatus.isTerminal]

/-- A terminal run status only "advances" to itself. -/
theorem canAdvanceRun_sticky {src dst} (hs : src.isTerminal) (h : canAdvanceRun src dst) : dst = src := by
  unfold canAdvanceRun at h
  split_ifs at h with h1
  exact (beq_iff_eq.mp h1).symm

/-- What the loop of `AggregateRunStatus` computes. -/
theorem foldl_add (l : List JobRunStatus) (t : Tally) : l.foldl Tally.add t =
      { running := t.running || l.contains .running
        started := t.started || (l.contains .running || l.contains .dispatched)
        allTerminal := t.allTerminal && l.all isTerminal
        anyFailed := t.anyFailed || l.contains .failed
        anyCancelled := t.anyCancelled || l.contains .cancelled
        anySucceeded := t.anySucceeded || l.contains .succeeded
        anySkipped := t.anySkipped || l.contains .skipped } := by
  induction l generalizing t with
  | nil => simp
  | cons s l ih =>
    rw [List.foldl_cons, ih]
    cases s <;> simp [Tally.add, isTerminal, Bool.or_comm]

theorem terminal_decided {l} (hl : l ≠ []) (h : l.all isTerminal) :
    l.contains .failed ∨ l.contains .cancelled ∨ l.contains .succeeded ∨
      l.contains .skipped := by
  cases l with
  | nil => exact absurd rfl hl
  | cons s l =>
    have hs : s.isTerminal := by
      simp only [List.all_cons, Bool.and_eq_true] at h
      exact h.1
    cases s <;> simp_all [isTerminal]

/-- The aggregate is terminal exactly when there are jobs and all of them are terminal. -/
theorem aggregateRunStatus_isTerminal (l : List JobRunStatus) :
    (aggregateRunStatus l).isTerminal ↔ l ≠ [] ∧ ∀ s ∈ l, s.isTerminal := by
  have hall : (∀ s ∈ l, s.isTerminal) ↔ l.all isTerminal := by
    rw [List.all_eq_true]
  rw [hall]
  unfold aggregateRunStatus
  simp only [foldl_add, Tally.init, Bool.false_or, Bool.true_and]
  by_cases hl : l = []
  · subst hl; simp [WorkflowRunStatus.isTerminal]
  · have hne : l.isEmpty = false := by simpa using hl
    simp only [hne, Bool.false_eq_true, if_false]
    by_cases hr : l.contains .running
    · -- a running job is not terminal
      have hna : l.all isTerminal = false := by
        rw [List.all_eq_false]
        exact ⟨.running, by simpa using hr, by simp [isTerminal]⟩
      simp only [hr, if_true, hna, Bool.false_eq_true, and_false, WorkflowRunStatus.isTerminal]
    · simp only [hr, Bool.false_eq_true, if_false]
      by_cases ha : l.all isTerminal
      · have hd := terminal_decided hl ha
        simp only [ha, Bool.not_true, Bool.false_eq_true, if_false]
        split_ifs with h1 h2 h3 <;> simp_all [WorkflowRunStatus.isTerminal]
      · simp only [ha, Bool.not_false, if_true]
        split_ifs <;> simp [WorkflowRunStatus.isTerminal]

/-- While a job is open, the run has started exactly if one of its jobs is dispatched or running. -/
theorem aggregateRunStatus_open {l} (hopen : ∃ st ∈ l, isTerminal st = false) :
    aggregateRunStatus l = if .running ∈ l ∨ .dispatched ∈ l then .running else .queued := by
  obtain ⟨st, hst, hopen⟩ := hopen
  have hne : l.isEmpty = false := by
    cases l with
    | nil => cases hst
    | cons => rfl
  have hall : l.all isTerminal = false := List.all_eq_false.mpr ⟨st, hst, by rw [hopen]; decide⟩
  unfold aggregateRunStatus
  simp only [foldl_add, Tally.init, Bool.false_or, Bool.true_and, hne, hall, List.contains_iff_mem, Bool.or_eq_true]
  by_cases hrunning : .running ∈ l <;> simp [hrunning]

end Forgelet
