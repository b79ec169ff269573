import Forgelet.Store.Proofs.RewriteProofs

/-!
# Proofs: the status of a run is the one its jobs imply

`Settled` under the operations that rewrite progress. They leave every job as open or as closed as it was, or move one
open job and recompute the aggregate of its run (`settled_move`), or close a run together with all its jobs.
-/

namespace Forgelet.DurableStore

open Relation

variable {W : Wiring} {s s' : DurableStore}

variable {id : JobRunID} {r : RunID} {job : JobRunRecord}

theorem Settled.congr (h : Settled s) (hruns : s'.runs = s.runs) (hjobs : s'.jobs = s.jobs)
    (hids : s'.runJobs = s.runJobs) : Settled s' := by
  have hof : ∀ r, s'.jobsOf r = s.jobsOf r := by
    intro r
    unfold jobsOf jobIDs
    rw [hjobs, hids]
  refine ⟨fun hr => ?_, fun hr => ?_, fun hj => ?_⟩
  · rw [hruns] at hr
    rw [hof]
    exact h.run_terminal hr
  · rw [hruns] at hr
    exact h.run_finished hr
  · rw [hjobs] at hj
    exact h.job_finished hj

theorem mem_jobsOf_setJob {j} : job ∈ (s.setJob id j).jobsOf r ↔
      (id ∈ s.jobIDs r ∧ job = j) ∨ ∃ i ∈ s.jobIDs r, i ≠ id ∧ s.jobs.lookup i = some job := by
  rw [mem_jobsOf]
  simp only [setJob_jobIDs, setJob_lookup]
  constructor
  · rintro ⟨i, hi, hlook⟩
    split_ifs at hlook with heq
    · exact .inl ⟨heq ▸ hi, (Option.some.inj hlook).symm⟩
    · exact .inr ⟨i, hi, heq, hlook⟩
  · rintro (⟨hid, rfl⟩ | ⟨i, hi, hne, hlook⟩)
    · exact ⟨id, hid, if_pos rfl⟩
    · exact ⟨i, hi, by rw [if_neg hne]; exact hlook⟩

/-- A write that leaves a job as open or as closed as it was. -/
theorem settled_setJob {j j'} (h : Settled s) (hj : s.jobs.lookup id = some j)
    (hterm : j'.status.isTerminal = j.status.isTerminal) (hfin : j'.finishedAt = j.finishedAt) :
    Settled (s.setJob id j') where
  run_terminal {r run} hr := by
    rw [h.run_terminal hr]
    constructor
    · intro hall job hjob
      rcases mem_jobsOf_setJob.mp hjob with ⟨hid, rfl⟩ | ⟨i, hi, _, hlook⟩
      · rw [hterm]
        exact hall j (mem_jobsOf.mpr ⟨id, hid, hj⟩)
      · exact hall job (mem_jobsOf.mpr ⟨i, hi, hlook⟩)
    · intro hall job hjob
      obtain ⟨i, hi, hlook⟩ := mem_jobsOf.mp hjob
      by_cases heq : i = id
      · subst heq
        obtain rfl := Option.mem_unique hj hlook
        rw [← hterm]
        exact hall j' (mem_jobsOf_setJob.mpr (.inl ⟨hi, rfl⟩))
      · exact hall job (mem_jobsOf_setJob.mpr (.inr ⟨i, hi, heq, hlook⟩))
  run_finished hr := h.run_finished hr
  job_finished {i ji} hi := by
    rw [setJob_lookup] at hi
    split_ifs at hi with heq
    · cases hi
      rw [hterm, hfin]
      exact h.job_finished hj
    · exact h.job_finished hi

theorem jobsOf_refreshRun (s : DurableStore) (r r' : RunID) (now : Time) :
    (s.refreshRun r now).jobsOf r' = s.jobsOf r' := by
  obtain h | ⟨run, h⟩ := refreshRun_eq s r now <;> rw [h]
  rfl

/-- A refresh settles its run if the run is not closed already over open jobs. -/
theorem settled_refreshRun (now : Time)
    (hothers : ∀ r' run, r' ≠ r → s.runs.lookup r' = some run →
      (run.status.isTerminal ↔ ∀ j ∈ s.jobsOf r', j.status.isTerminal))
    (hclosed : ∀ run, s.runs.lookup r = some run → run.status.isTerminal → ∀ j ∈ s.jobsOf r, j.status.isTerminal)
    (hne : s.Stored r → s.jobsOf r ≠ [])
    (hfin : ∀ r' run, s.runs.lookup r' = some run → (run.finishedAt.isSome ↔ run.status.isTerminal))
    (hjobs : ∀ id j, s.jobs.lookup id = some j → (j.finishedAt.isSome ↔ j.status.isTerminal)) :
    Settled (s.refreshRun r now) where
  run_terminal {r' run'} hr := by
    rw [jobsOf_refreshRun]
    rw [refreshRun_lookup] at hr
    split_ifs at hr with heq
    · subst heq
      obtain ⟨run, hrun, rfl⟩ := Option.map_eq_some_iff.mp hr
      cases hst : run.status.isTerminal with
      | true =>
        rw [show refreshed run (s.statusesOf r') now = run from if_pos hst]
        exact ⟨fun h => hclosed run hrun h, fun _ => hst⟩
      | false =>
        have hstat : s.statusesOf r' ≠ [] := by
          exact fun h => hne ⟨run, hrun⟩ (List.map_eq_nil_iff.mp h)
        rw [refreshed_isTerminal run _ now hst]
        refine (and_iff_right hstat).trans ?_
        unfold statusesOf
        rw [List.forall_mem_map]
    · exact hothers r' run' heq hr
  run_finished {r' run'} hr := by
    rw [refreshRun_lookup] at hr
    split_ifs at hr with heq
    · obtain ⟨run, hrun, rfl⟩ := Option.map_eq_some_iff.mp hr
      exact refreshed_finishedAt run _ now (hfin r run hrun)
    · exact hfin r' run' hr
  job_finished {id j} hj := by
    rw [refreshRun_jobs] at hj
    exact hjobs id j hj

theorem jobsOf_ne_nil (hl : Listing s) (hr : s.Stored r) : s.jobsOf r ≠ [] := by
  obtain ⟨id, hid⟩ := List.exists_mem_of_ne_nil _ (hl.nonempty hr)
  obtain ⟨j, hj, -⟩ := hl.listed hid
  exact List.ne_nil_of_mem (mem_jobsOf.mpr ⟨id, hid, hj⟩)

theorem settled_move {j j'} (h : Settled s) (hl : Listing s) (hj : s.jobs.lookup id = some j)
    (hopen : j.status.isTerminal = false) (hfin : j'.finishedAt.isSome ↔ j'.status.isTerminal) (now : Time) :
    Settled ((s.setJob id j').refreshRun j.runID now) := by
  apply settled_refreshRun
  · -- the job is not listed for another run
    intro r run hne hr
    rw [h.run_terminal hr]
    have hnot : id ∉ s.jobIDs r := by
      intro hid
      obtain ⟨j₀, hlook, hrun⟩ := hl.listed hid
      obtain rfl := Option.mem_unique hj hlook
      exact hne hrun.symm
    have hsame : ∀ job, job ∈ (s.setJob id j').jobsOf r ↔ job ∈ s.jobsOf r := by
      intro job
      rw [mem_jobsOf_setJob, mem_jobsOf]
      constructor
      · rintro (⟨hid, _⟩ | ⟨i, hi, _, hlook⟩)
        · exact absurd hid hnot
        · exact ⟨i, hi, hlook⟩
      · rintro ⟨i, hi, hlook⟩
        exact .inr ⟨i, hi, fun heq => hnot (heq ▸ hi), hlook⟩
    simp only [hsame]
  · -- its own run is open, since the job is
    intro run hr hterm
    have hmem : j ∈ s.jobsOf j.runID :=
      mem_jobsOf.mpr ⟨id, hl.complete ⟨run, hr⟩ hj rfl, hj⟩
    have := (h.run_terminal hr).mp hterm j hmem
    rw [hopen] at this
    cases this
  · intro hr hnil
    have hid := hl.complete hr hj rfl
    have hmem : j' ∈ (s.setJob id j').jobsOf j.runID := mem_jobsOf_setJob.mpr (.inl ⟨hid, rfl⟩)
    rw [hnil] at hmem
    cases hmem
  · intro r run hr
    exact h.run_finished hr
  · intro i ji hi
    rw [setJob_lookup] at hi
    split_ifs at hi
    · cases hi
      exact hfin
    · exact h.job_finished hi

/-! ## The operations -/

theorem settled_skip (h : Settled s) (hl : Listing s) (hskip : SkipStep W s s') : Settled s' := by
  obtain ⟨found, queued, -, -⟩ := hskip
  rw [skipJob_eq W s _ queued]
  have hs : Settled { s with ticks := s.ticks + 1 } := h.congr rfl rfl rfl
  have hl' : Listing { s with ticks := s.ticks + 1 } := ⟨hl.listed, hl.nodup, hl.complete, hl.nonempty⟩
  refine settled_move hs hl' found ?_ ?_ _
  · rw [queued]
    rfl
  · simp [JobRunStatus.isTerminal]

theorem settled_skips (h : Settled s) (hl : Listing s) (hskips : ReflTransGen (SkipStep W) s s') :
    Settled s' ∧ Listing s' := by
  induction hskips with
  | refl => exact ⟨h, hl⟩
  | tail _ hstep ih =>
    exact ⟨settled_skip ih.1 ih.2 hstep, ih.2.rewrite (written_skip hstep).framed⟩

theorem settled_claimNextQueuedJob (h : Settled s) (hl : Listing s) : Settled (s.claimNextQueuedJob W).2 := by
  obtain ⟨s₁, hskips, herr | ⟨id, job, -, hok⟩⟩ := claimNextQueuedJob_spec W s
  · rw [herr]
    exact (settled_skips h hl hskips).1
  · rw [hok]
    exact (settled_skips h hl hskips).1.congr rfl rfl rfl

theorem settled_ackJob (h : Settled s) (found : s.jobs.lookup id = some job)
    (waiting : job.status = .queued ∨ job.status = .dispatched) (obj : ActiveObject) (now : Time) :
    Settled (s.ackJob job id obj now) := by
  refine Settled.congr (s := s.setJob id _) ?_ rfl rfl rfl
  refine settled_setJob h found ?_ rfl
  rcases waiting with hst | hst
  · rw [hst]
    rfl
  · rw [hst]

theorem settled_ackDispatched (h : Settled s) (id : JobRunID) (obj : ActiveObject) (now : Time) :
    Settled (s.ackDispatched id obj now).2 := by
  have hout := ackDispatched_outcome s id obj now
  generalize s.ackDispatched id obj now = out at hout
  cases hout with
  | refused => exact h
  | acked found waiting => exact settled_ackJob h found waiting obj now

theorem observed_status (job : JobRunRecord) (target : JobRunStatus) (now : Time) :
    (observed job target now).status = target := by
  unfold observed
  split <;> rfl

theorem settled_applyObserved (h : Settled s) (hl : Listing s) (id : JobRunID) (phase : ObservedPhase) (now : Time) :
    Settled (s.applyObserved id phase now).2 := by
  have hout := applyObserved_outcome s id phase now
  generalize s.applyObserved id phase now = out at hout
  cases hout with
  | missing | stale => exact h
  | refreshed =>
    -- the phase implies no status, and the aggregate is what it was
    exact settled_refreshRun now (fun _ _ _ hr => h.run_terminal hr)
      (fun _ hr => (h.run_terminal hr).mp) (jobsOf_ne_nil hl)
      (fun _ _ hr => h.run_finished hr) (fun _ _ hj => h.job_finished hj)
  | @moved job target found opened implied forward =>
    have hnone : job.finishedAt = none := by
      have := h.job_finished found
      rw [opened] at this
      simpa using this
    refine settled_move h hl found opened ?_ now
    rcases jobStatusFromPhase_cases implied with rfl | rfl | rfl | rfl <;>
      simp [observed, hnone, JobRunStatus.isTerminal]

/-- What `CancelRun` makes of a job of its run. -/
def cancelled (now : Time) (j : JobRunRecord) : JobRunRecord :=
  if j.status.isTerminal then j else { j with status := .cancelled, finishedAt := some now }

theorem cancelled_isTerminal (now : Time) (j : JobRunRecord) : (cancelled now j).status.isTerminal := by
  unfold cancelled
  split
  · assumption
  · rfl

theorem cancelled_idem (now : Time) (j : JobRunRecord) : cancelled now (cancelled now j) = cancelled now j :=
  if_pos (cancelled_isTerminal now j)

theorem cancelJobs_cons (now : Time) (s : DurableStore) (id : JobRunID) (rest : List JobRunID) :
    ∃ s₁, cancelJobs now s (id :: rest) = cancelJobs now s₁ rest ∧ s₁.runs = s.runs ∧ ∀ i, s₁.jobs.lookup i =
        if i = id then (s.jobs.lookup id).map (cancelled now) else s.jobs.lookup i := by
  rw [cancelJobs]
  cases hjob : s.jobs.lookup id with
  | none =>
    refine ⟨s.unclaim id, rfl, rfl, fun i => ?_⟩
    split_ifs with hi
    · rw [hi]
      exact hjob
    · rfl
  | some job =>
    dsimp only
    rw [transitionJob_stop (Or.inl rfl)]
    unfold cancelled
    cases hst : job.status.isTerminal with
    | true =>
      refine ⟨s.unclaim id, rfl, rfl, fun i => ?_⟩
      split_ifs with hi
      · rw [hi, unclaim_jobs, hjob, Option.map_some, if_pos hst]
      · rfl
    | false =>
      refine ⟨_, rfl, rfl, fun i => ?_⟩
      rw [unclaim_jobs, setJob_lookup, Option.map_some, hst]
      rfl

theorem cancelJobs_runs (now : Time) (s : DurableStore) (ids : List JobRunID) :
    (cancelJobs now s ids).runs = s.runs := by
  induction ids generalizing s with
  | nil => rfl
  | cons id rest ih =>
    obtain ⟨s₁, heq, hruns, -⟩ := cancelJobs_cons now s id rest
    rw [heq, ih, hruns]

/-- The loop of `CancelRun` cancels the open jobs among `ids` and no other. -/
theorem cancelJobs_lookup (now : Time) (s : DurableStore) (ids : List JobRunID) (i : JobRunID) :
    (cancelJobs now s ids).jobs.lookup i =
      if i ∈ ids then (s.jobs.lookup i).map (cancelled now) else s.jobs.lookup i := by
  induction ids generalizing s with
  | nil => rfl
  | cons id rest ih =>
    obtain ⟨s₁, heq, -, hlook⟩ := cancelJobs_cons now s id rest
    rw [heq, ih, hlook]
    by_cases hi : i = id
    · subst hi
      rw [if_pos rfl, if_pos (List.mem_cons_self ..)]
      split_ifs
      · rw [Option.map_map]
        exact congrArg (fun f => (s.jobs.lookup i).map f) (funext (cancelled_idem now))
      · rfl
    · rw [if_neg hi]
      simp only [List.mem_cons, hi, false_or]

theorem cancelJobs_terminal {now} (hjob : job ∈ (cancelJobs now s (s.jobIDs r)).jobsOf r) : job.status.isTerminal := by
  obtain ⟨i, hi, hlook⟩ := mem_jobsOf.mp hjob
  rw [(written_cancelJobs (r := r) now s (s.jobIDs r)).jobIDs_eq] at hi
  rw [cancelJobs_lookup, if_pos hi] at hlook
  obtain ⟨j₀, -, rfl⟩ := Option.map_eq_some_iff.mp hlook
  exact cancelled_isTerminal now j₀

theorem cancelJobs_jobsOf_other (hl : Listing s) {r'} (hne : r' ≠ r) (now : Time) :
    (cancelJobs now s (s.jobIDs r)).jobsOf r' = s.jobsOf r' := by
  unfold jobsOf
  rw [(written_cancelJobs (r := r) now s (s.jobIDs r)).jobIDs_eq]
  refine List.filterMap_congr fun i hi => ?_
  rw [cancelJobs_lookup, if_neg]
  intro hi'
  obtain ⟨j₁, hj₁, hr₁⟩ := hl.listed hi
  obtain ⟨j₂, hj₂, hr₂⟩ := hl.listed hi'
  obtain rfl := Option.mem_unique hj₁ hj₂
  exact hne (hr₁.symm.trans hr₂)

theorem cancelJobs_job_finished (h : Settled s) {ids now} (hjob : (cancelJobs now s ids).jobs.lookup id = some job) :
    job.finishedAt.isSome ↔ job.status.isTerminal := by
  rw [cancelJobs_lookup] at hjob
  split_ifs at hjob
  · obtain ⟨j₀, hj₀, rfl⟩ := Option.map_eq_some_iff.mp hjob
    refine ⟨fun _ => cancelled_isTerminal now j₀, fun _ => ?_⟩
    unfold cancelled
    split
    · rename_i hterm
      exact (h.job_finished hj₀).mpr hterm
    · rfl
  · exact h.job_finished hjob

theorem settled_cancelRun (h : Settled s) (hl : Listing s) (r : RunID) (now : Time) :
    Settled (s.cancelRun r now).2 := by
  obtain heq | ⟨run, -, heq⟩ := cancelRun_eq s r now <;> rw [heq]
  · exact h
  · refine ⟨fun {r' run'} hr => ?_, fun {r' run'} hr => ?_, fun {id j} hj => cancelJobs_job_finished h hj⟩
    · rw [setRun_lookup] at hr
      split_ifs at hr with hr'
      · cases hr
        subst hr'
        exact iff_of_true rfl fun j hj => cancelJobs_terminal hj
      · rw [cancelJobs_runs] at hr
        show _ ↔ ∀ j ∈ (cancelJobs now s (s.jobIDs r)).jobsOf r', _
        rw [cancelJobs_jobsOf_other hl hr']
        exact h.run_terminal hr
    · rw [setRun_lookup] at hr
      split_ifs at hr
      · cases hr
        exact iff_of_true rfl rfl
      · rw [cancelJobs_runs] at hr
        exact h.run_finished hr

theorem settled_markCollected (h : Settled s) (id : JobRunID) (now : Time) : Settled (s.markCollected id now).2 := by
  obtain heq | ⟨job, hjob, heq⟩ := markCollected_eq s id now <;> rw [heq]
  · exact h
  · exact settled_setJob h hjob rfl rfl

end Forgelet.DurableStore
