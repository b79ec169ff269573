import Forgelet.Store.Proofs.ReachableProofs

/-!
# Proofs: how calls move the jobs

Most calls only move jobs from one status to another. `Moves R` says that the statuses of all jobs before and after are
related by `R`; a call is described once for every `R` that allows its moves, and a sequence of calls by transitivity.
-/

namespace Forgelet.DurableStore

open Relation

variable {W : Wiring} {R R' : JobRunID → JobRunStatus → JobRunStatus → Prop} {s s' s'' : DurableStore}

theorem Rewritten.forall₂_jobsOf {P : JobRunRecord → JobRunRecord → Prop} (hre : Rewritten s s')
    (hP : ∀ {id j j'}, s.jobs.lookup id = some j → s'.jobs.lookup id = some j' → P j j') (r : RunID) :
    List.Forall₂ P (s.jobsOf r) (s'.jobsOf r) := by
  unfold jobsOf
  rw [hre.jobIDs_eq]
  induction s.jobIDs r with
  | nil => exact .nil
  | cons id rest ih =>
    cases hj : s.jobs.lookup id with
    | none =>
      simp only [List.filterMap_cons, hj, hre.absent hj]
      exact ih
    | some j =>
      obtain ⟨j', hj', -⟩ := hre.symm.job hj
      simp only [List.filterMap_cons, hj, hj']
      exact .cons (hP hj hj') ih

theorem Rewritten.map_asCreated (hre : Rewritten s s') (r : RunID) :
    (s'.jobsOf r).map (·.asCreated) = (s.jobsOf r).map (·.asCreated) := by
  rw [eq_comm, ← List.forall₂_eq_eq_eq, List.forall₂_map_left_iff, List.forall₂_map_right_iff]
  refine hre.forall₂_jobsOf (fun {id j j'} hj hj' => ?_) r
  obtain ⟨j₀, hj₀, heq⟩ := hre.job hj'
  obtain rfl := Option.mem_unique hj hj₀
  exact heq.symm

/-- Nothing is created, and the statuses of every job before and after are related. -/
structure Moves (R : JobRunID → JobRunStatus → JobRunStatus → Prop) (s s' : DurableStore) : Prop where
  rewritten : Rewritten s s'
  status : ∀ {id j j'}, s.jobs.lookup id = some j → s'.jobs.lookup id = some j' →
    R id j.status j'.status

variable {id : JobRunID}

namespace Moves

theorem mono (h : Moves R s s') (himp : ∀ id a b, R id a b → R' id a b) : Moves R' s s' :=
  ⟨h.rewritten, fun hj hj' => himp _ _ _ (h.status hj hj')⟩

theorem trans (htrans : ∀ {id a b c}, R id a b → R id b c → R id a c) (h : Moves R s s') (h' : Moves R s' s'') :
    Moves R s s'' := by
  refine ⟨h.rewritten.trans h'.rewritten, fun {id j j''} hj hj'' => ?_⟩
  obtain ⟨j', hj', -⟩ := h'.rewritten.job hj''
  exact htrans (h.status hj hj') (h'.status hj' hj'')

theorem job (h : Moves R s s') {j'} (hj' : s'.jobs.lookup id = some j') :
    ∃ j, s.jobs.lookup id = some j ∧ j'.asCreated = j.asCreated ∧ R id j.status j'.status := by
  obtain ⟨j, hj, heq⟩ := h.rewritten.job hj'
  exact ⟨j, hj, heq, h.status hj hj'⟩

end Moves

/-! ## The calls -/

section Calls

variable (hrefl : ∀ id a, R id a a)
include hrefl

theorem moves_of_jobs_eq (hre : Rewritten s s') (hjobs : s'.jobs = s.jobs) : Moves R s s' := by
  refine ⟨hre, fun {id j j'} hj hj' => ?_⟩
  obtain rfl := Option.mem_unique hj (hjobs ▸ hj')
  exact hrefl id _

theorem Moves.refl (s : DurableStore) : Moves R s s := moves_of_jobs_eq hrefl (Rewritten.refl s) rfl

theorem moves_one (hre : Rewritten s s') {j j'}
    (hlook : ∀ i, s'.jobs.lookup i = if i = id then some j' else s.jobs.lookup i) (hj : s.jobs.lookup id = some j)
    (hmove : R id j.status j'.status) : Moves R s s' := by
  refine ⟨hre, fun {i ji ji'} hi hi' => ?_⟩
  rw [hlook] at hi'
  split_ifs at hi' with heq
  · subst heq
    obtain rfl := Option.mem_unique hj hi
    cases hi'
    exact hmove
  · obtain rfl := Option.mem_unique hi hi'
    exact hrefl i _

theorem moves_applyObserved (id : JobRunID) (phase : ObservedPhase) (now : Time)
    (hmove : ∀ job target, s.jobs.lookup id = some job → job.status.isTerminal = false →
      jobStatusFromPhase phase = some target → R id job.status target) :
    Moves R s (s.applyObserved id phase now).2 := by
  have hre := (written_applyObserved s id phase now).toRewritten
  have hout := applyObserved_outcome s id phase now
  generalize s.applyObserved id phase now = out at hout hre
  cases hout with
  | missing | stale => exact .refl hrefl s
  | refreshed => exact moves_of_jobs_eq hrefl hre (refreshRun_jobs _ _ _)
  | @moved job target found opened implied forward =>
    refine moves_one hrefl hre (observed_lookup s id) found ?_
    rw [observed_status]
    exact hmove job target found opened implied

theorem moves_skip (hskip : SkipStep W s s')
    (hmove : ∀ id job, s.jobs.lookup id = some job → job.status = .queued → job.condition = "" →
      s.dependencyState id = .depsFailed → R id .queued .skipped)
    : Moves R s s' := by
  have hre := (written_skip hskip).toRewritten
  obtain ⟨found, queued, unconditional, failed⟩ := hskip
  rename_i id job
  refine moves_one hrefl hre (skipJob_lookup W s id · queued) found ?_
  rw [queued]
  exact hmove id job found queued unconditional failed

theorem moves_ackJob {job} (found : s.jobs.lookup id = some job) (queued : job.status = .queued) (obj : ActiveObject)
    (now : Time) (hmove : R id .queued .dispatched) : Moves R s (s.ackJob job id obj now) := by
  have hre := written_ackJob found (.inl queued) obj now
  refine moves_one hrefl hre.toRewritten (fun i => setJob_lookup s id _ i) found ?_
  rw [queued]
  exact hmove

theorem moves_cancelRun (r : RunID) (now : Time) (hmove : ∀ id a, a.isTerminal = false → R id a .cancelled) :
    Moves R s (s.cancelRun r now).2 := by
  have hre := (written_cancelRun s r now).toRewritten
  obtain heq | ⟨run, -, heq⟩ := cancelRun_eq s r now <;> rw [heq] at hre ⊢
  · exact .refl hrefl s
  · refine ⟨hre, fun {i j j'} hj hj' => ?_⟩
    rw [setRun_jobs, cancelJobs_lookup, hj] at hj'
    split_ifs at hj'
    · -- a job of the run: it is cancelled unless it is terminal
      cases hj'
      unfold cancelled
      split
      · exact hrefl i _
      · rename_i hopen
        exact hmove i _ (by simpa using hopen)
    · cases hj'
      exact hrefl i _

end Calls

end Forgelet.DurableStore
