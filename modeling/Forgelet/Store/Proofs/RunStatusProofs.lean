import Mathlib.Data.List.MinMax
import Forgelet.Store.Proofs.NumberingProofs

/-!
# Proofs: the status of a run whose jobs were retried

The aggregate of a run that is reopened is taken over all attempts. The status of a run that was not cancelled is
therefore the one of its latest attempts exactly when no earlier attempt is open and none has failed unless a latest
attempt has.
-/

namespace Forgelet

theorem aggregateRunStatus_ended {l} (hne : l ≠ []) (hend : ∀ st ∈ l, st.isTerminal) (hnot : .cancelled ∉ l) :
    aggregateRunStatus l = if .failed ∈ l then .failed else .succeeded := by
  have hterm := (aggregateRunStatus_isTerminal l).mpr ⟨hne, hend⟩
  have hall : l.all JobRunStatus.isTerminal := List.all_eq_true.mpr hend
  have hrun : .running ∉ l := fun hmem => by cases hend _ hmem
  have hdec := terminal_decided hne hall
  unfold aggregateRunStatus
  simp only [foldl_add, Tally.init, Bool.false_or, Bool.true_and, hall, List.contains_eq_mem] at hdec ⊢
  simp only [hnot, hrun, decide_false, Bool.false_eq_true, if_false, false_or, Bool.not_true, List.isEmpty_iff,
    hne, decide_eq_true_eq, Bool.or_eq_true] at hdec ⊢
  split_ifs with hfail
  · rfl
  · rfl
  · tauto

theorem mem_latestAttempts {jobs job} : job ∈ latestAttempts jobs ↔
      job ∈ jobs ∧ ∀ other ∈ jobs, other.jobKey = job.jobKey → other.attempt ≤ job.attempt := by
  unfold latestAttempts superseded
  simp [List.mem_filter]

theorem latestAttempts_ne_nil {jobs} (hne : jobs ≠ []) : latestAttempts jobs ≠ [] := by
  cases hmax : jobs.argmax (·.attempt) with
  | none => exact absurd (List.argmax_eq_none.mp hmax) hne
  | some job =>
    refine List.ne_nil_of_mem (mem_latestAttempts.mpr ⟨List.argmax_mem hmax, fun other hother _ => ?_⟩)
    exact List.le_of_mem_argmax hother hmax

namespace DurableStore

open Relation

variable {W : Wiring} {s s' : DurableStore} {r : RunID}

theorem Aggregated.congr (ha : Aggregated s r) (hruns : s'.runs.lookup r = s.runs.lookup r)
    (hjobs : (s'.jobsOf r).map (·.status) = (s.jobsOf r).map (·.status)) : Aggregated s' r := by
  intro run hrun hterm
  rw [hjobs]
  exact ha run (hruns ▸ hrun) hterm

theorem Aggregated.refreshRun (ha : Aggregated s r) (r' : RunID) (now : Time) : Aggregated (s.refreshRun r' now) r := by
  intro run hrun hterm
  rw [jobsOf_refreshRun]
  rw [refreshRun_lookup] at hrun
  split_ifs at hrun with heq
  · subst heq
    obtain ⟨old, hold, rfl⟩ := Option.map_eq_some_iff.mp hrun
    unfold refreshed at hterm ⊢
    split
    · rename_i hclosed
      exact ha old hold hclosed
    · rename_i hopen
      rw [if_neg hopen] at hterm
      split
      · rfl
      · rename_i hstays
        rw [if_neg hstays] at hterm
        exact absurd hterm hopen
  · exact ha run hrun hterm

theorem Aggregated.setJob (ha : Aggregated s r) (hs : Settled s) {id j j'} (hj : s.jobs.lookup id = some j)
    (hmove : j.status.isTerminal = false ∨ j'.status = j.status) : Aggregated (s.setJob id j') r := by
  intro run hrun hterm
  -- all jobs of the terminal run have ended, so the write leaves their statuses as they are
  have hended := (hs.run_terminal hrun).mp hterm
  have hsame : ((s.setJob id j').jobsOf r).map (·.status) = (s.jobsOf r).map (·.status) := by
    unfold jobsOf
    rw [List.map_filterMap, List.map_filterMap, setJob_jobIDs]
    refine List.filterMap_congr fun i hi => ?_
    rw [setJob_lookup]
    split_ifs with heq
    · subst heq
      have hterm' := hended j (mem_jobsOf.mpr ⟨i, hi, hj⟩)
      rw [hj, Option.map_some, Option.map_some]
      rcases hmove with hopen | hstatus
      · rw [hopen] at hterm'
        cases hterm'
      · rw [hstatus]
    · rfl
  rw [hsame]
  exact ha run hrun hterm

section

variable (hi : Inv W s) (ha : Aggregated s r)
include hi ha

theorem aggregated_skips (h : ReflTransGen (SkipStep W) s s') :
    Aggregated s' r := by
  induction h with
  | refl => exact ha
  | tail hskips hskip ih =>
    have hs := (settled_skips hi.settled hi.listing hskips).1
    obtain ⟨found, queued, -, -⟩ := hskip
    rw [skipJob_eq W _ _ queued]
    refine Aggregated.refreshRun ?_ _ _
    refine Aggregated.setJob (j := _) ih (hs.congr rfl rfl rfl) found (.inl ?_)
    rw [queued]
    rfl

theorem aggregated_createRun (seed : RunSeed) (now : Time) :
    Aggregated (s.createRun W seed now).2 r := by
  have hout := createRun_outcome W s seed now
  generalize s.createRun W seed now = out at hout
  cases hout with
  | found | refused => exact ha
  | created =>
    intro run hrun hterm
    rw [committed_run] at hrun
    split_ifs at hrun with heq
    · cases hrun
      cases hterm
    · rw [committed_jobsOf_old hi.minted hi.listing heq]
      exact ha run hrun hterm
  | duplicate =>
    intro run hrun hterm
    rw [(orphaned_drafted hi.minted _ now).jobsOf_eq hi.listing ⟨run, hrun⟩]
    exact ha run hrun hterm

theorem aggregated_rerequestJob (id : JobRunID) (now : Time) :
    Aggregated (s.rerequestJob W id now).2 r := by
  have hout := rerequestJob_outcome W s id now
  generalize s.rerequestJob W id now = out at hout
  cases hout with
  | missing | existing => exact ha
  | orphan found unstored =>
    intro run hrun hterm
    rw [(orphaned_appended hi found unstored now).jobsOf_eq hi.listing ⟨run, hrun⟩]
    exact ha run hrun hterm
  | attempt found last stored =>
    intro run hrun hterm
    rw [reattempted_run] at hrun
    rw [reattempted_jobsOf hi]
    split_ifs at hrun ⊢ with heq
    · -- the run is open again
      obtain ⟨old, -, rfl⟩ := Option.map_eq_some_iff.mp hrun
      rw [reopened_not_terminal] at hterm
      cases hterm
    · exact ha run hrun hterm

theorem aggregated_cancelRun {r'} (hne : r' ≠ r) (now : Time) :
    Aggregated (s.cancelRun r' now).2 r := by
  obtain heq | ⟨run, -, heq⟩ := cancelRun_eq s r' now <;> rw [heq]
  · exact ha
  · refine ha.congr ?_ (congrArg _ (cancelJobs_jobsOf_other hi.listing hne.symm now))
    rw [setRun_lookup, if_neg hne.symm, cancelJobs_runs]

end

theorem aggregated_step (hi : Inv W s) {op} (hok : NotCancelling r s op) (ha : Aggregated s r) :
    Aggregated (op.apply W s) r := by
  cases op with
  | recordDelivery d =>
    rw [StoreOp.apply, recordDelivery]
    split <;> exact ha
  | createRun seed now => exact aggregated_createRun hi ha seed now
  | claimNextQueuedJob =>
    rw [StoreOp.apply]
    obtain ⟨s₁, hskips, herr | ⟨id, job, -, hok⟩⟩ := claimNextQueuedJob_spec W s
    · rw [herr]
      exact aggregated_skips hi ha hskips
    · rw [hok]
      exact (aggregated_skips hi ha hskips).congr rfl rfl
  | releaseClaim i => exact ha
  | ackDispatched i obj now =>
    rw [StoreOp.apply]
    have hout := ackDispatched_outcome s i obj now
    generalize s.ackDispatched i obj now = out at hout
    cases hout with
    | refused => exact ha
    | acked found waiting =>
      refine Aggregated.setJob ha hi.settled found (.inl ?_)
      rcases waiting with hst | hst <;> rw [hst] <;> rfl
  | applyObserved i phase now =>
    rw [StoreOp.apply]
    have hout := applyObserved_outcome s i phase now
    generalize s.applyObserved i phase now = out at hout
    cases hout with
    | missing | stale => exact ha
    | refreshed => exact ha.refreshRun _ now
    | moved found opened implied forward => exact (ha.setJob hi.settled found (.inl opened)).refreshRun _ now
  | cancelRun r' now => exact aggregated_cancelRun hi ha (fun heq => hok now (by rw [heq])) now
  | rerequestJob i now => exact aggregated_rerequestJob hi ha i now
  | markCollected i now =>
    rw [StoreOp.apply]
    obtain heq | ⟨job, hjob, heq⟩ := markCollected_eq s i now <;> rw [heq]
    · exact ha
    · exact ha.setJob hi.settled hjob (.inr rfl)

theorem JobWrite.not_cancelled {op id job job'} (h : JobWrite op id job job') (hop : ∀ r now, op ≠ .cancelRun r now)
    (hjob : job.status ≠ .cancelled) : job'.status ≠ .cancelled := by
  cases h with
  | skip | ack => exact nofun
  | observe opened implied forward now =>
    rw [observed_status]
    rcases jobStatusFromPhase_cases implied with rfl | rfl | rfl | rfl <;> exact nofun
  | cancel => exact absurd rfl (hop _ _)
  | collect => exact hjob

theorem uncancelled_cancelRun (hi : Inv W s) (hu : Uncancelled s r) {r'} (hne : r' ≠ r) (now : Time) :
    Uncancelled (s.cancelRun r' now).2 r := by
  obtain heq | ⟨run, -, heq⟩ := cancelRun_eq s r' now <;> rw [heq]
  · exact hu
  · intro id job hjob hjrun
    -- a job of the run is not listed for the other one
    rw [setRun_jobs, cancelJobs_lookup] at hjob
    split_ifs at hjob with hmem
    · obtain ⟨old, hold, rfl⟩ := Option.map_eq_some_iff.mp hjob
      obtain ⟨listed, hlisted, hlrun⟩ := hi.listing.listed hmem
      obtain rfl := Option.mem_unique hold hlisted
      have hsame : (cancelled now old).runID = old.runID := by
        unfold cancelled
        split <;> rfl
      exact absurd (hlrun.symm.trans (hsame.symm.trans hjrun)) hne
    · exact hu id job hjob hjrun

theorem uncancelled_step (hi : Inv W s) {op} (hok : NotCancelling r s op) (hu : Uncancelled s r) :
    Uncancelled (op.apply W s) r := by
  by_cases hcancel : ∃ r' now, op = .cancelRun r' now
  · obtain ⟨r', now, rfl⟩ := hcancel
    exact uncancelled_cancelRun hi hu (fun heq => hok now (by rw [heq])) now
  · push Not at hcancel
    intro id job hjob hrun
    rcases origin_apply hi op hjob with hnew | ⟨old, hold, hwrites⟩
    · rw [← hnew]
      exact nofun
    · have hbefore := hu id old hold ((JobRunRecord.of_asCreated_eq (writes_asCreated hwrites)).2.1.symm.trans hrun)
      clear hjob hrun
      induction hwrites with
      | refl => exact hbefore
      | tail _ hwrite ih => exact hwrite.not_cancelled hcancel ih

theorem aggregated_new : Aggregated new r := fun _ h => by cases h

theorem uncancelled_new : Uncancelled new r := fun _ _ h => by cases h

/-- When a run is not cancelled and the latest attempt of each key has ended, its status is the aggregate of these
exactly if the earlier attempts have ended too and none failed without a failure among the latest. -/
theorem latest_aggregate_iff (W : Wiring) (s : DurableStore) (r : RunID) (run : RunRecord)
    (h : ReachableWith W (NotCancelling r) s) (hrun : s.getRun r = .ok run)
    (hended : ∀ job ∈ latestAttempts (s.jobsOf r), job.status.isTerminal) :
    run.status = aggregateRunStatus ((latestAttempts (s.jobsOf r)).map (·.status)) ↔
      ∀ job ∈ s.jobsOf r, job.status.isTerminal ∧
        (job.status = .failed → ∃ last ∈ latestAttempts (s.jobsOf r), last.status = .failed) := by
  have hi := inv_reachable (reachable_of_with h)
  have hlook := getRun_eq_ok.mp hrun
  have hne := jobsOf_ne_nil hi.listing ⟨run, hlook⟩
  have hagg : Aggregated s r := h.invariant aggregated_new fun hi hok => aggregated_step hi hok
  have hunc : Uncancelled s r := h.invariant uncancelled_new fun hi hok => uncancelled_step hi hok
  have hnot : ∀ job ∈ s.jobsOf r, job.status ≠ .cancelled := by
    intro job hjob
    obtain ⟨id, hid, hfound⟩ := mem_jobsOf.mp hjob
    obtain ⟨job', hfound', hof⟩ := hi.listing.listed hid
    obtain rfl := Option.mem_unique hfound hfound'
    exact hunc id job hfound hof
  -- both aggregates are over ended jobs none of which was cancelled
  have hstatus : ∀ {l}, l ≠ [] → (∀ job ∈ l, job.status.isTerminal) → (∀ job ∈ l, job ∈ s.jobsOf r) →
      aggregateRunStatus (l.map (·.status)) = if ∃ job ∈ l, job.status = .failed then .failed else .succeeded := by
    intro l hl hend hsub
    rw [aggregateRunStatus_ended (by simpa using hl) (List.forall_mem_map.mpr hend)]
    · simp only [List.mem_map]
    · intro hmem
      obtain ⟨job, hjob, hcancelled⟩ := List.mem_map.mp hmem
      exact hnot job (hsub job hjob) hcancelled
  have hlatest := hstatus (latestAttempts_ne_nil hne) hended fun job hjob => (mem_latestAttempts.mp hjob).1
  constructor
  · intro heq
    have hterm : run.status.isTerminal := by
      rw [heq, aggregateRunStatus_isTerminal]
      exact ⟨by simpa using latestAttempts_ne_nil hne, List.forall_mem_map.mpr hended⟩
    have hall := (hi.settled.run_terminal hlook).mp hterm
    have hboth := (hagg run hlook hterm).symm.trans heq
    rw [hstatus hne hall fun _ => id, hlatest] at hboth
    intro job hjob
    refine ⟨hall job hjob, fun hfail => ?_⟩
    rw [if_pos ⟨job, hjob, hfail⟩] at hboth
    by_contra hno
    rw [if_neg hno] at hboth
    cases hboth
  · intro hall
    have hend : ∀ job ∈ s.jobsOf r, job.status.isTerminal := fun job hjob => (hall job hjob).1
    rw [hagg run hlook ((hi.settled.run_terminal hlook).mpr hend), hstatus hne hend fun _ => id, hlatest]
    refine if_congr ⟨?_, ?_⟩ rfl rfl
    · rintro ⟨job, hjob, hfail⟩
      exact (hall job hjob).2 hfail
    · rintro ⟨job, hjob, hfail⟩
      exact ⟨job, (mem_latestAttempts.mp hjob).1, hfail⟩

/-- A push whose job ends with `first` and, requested again, with `second`. -/
def twiceOps (first second : ObservedPhase) : List StoreOp :=
  [.recordDelivery pushDelivery, .createRun (pushSeed [intentOf "a" [] ""]) 0, .claimNextQueuedJob,
    .ackDispatched "ii" ⟨"jobrun-ii", "u"⟩ 1, .applyObserved "ii" first 2, .rerequestJob "ii" 3,
    .claimNextQueuedJob, .ackDispatched "iii" ⟨"jobrun-iii", "u"⟩ 4, .applyObserved "iii" second 5]

/-- A run whose job succeeds and then fails has failed. -/
theorem latest_aggregate_repeated : ∃ run, (afterOps Wiring.unary (twiceOps .succeeded .failed)).getRun "i" = .ok run ∧
      run.status = aggregateRunStatus
        ((latestAttempts ((afterOps Wiring.unary (twiceOps .succeeded .failed)).jobsOf "i")).map (·.status)) := by
  have hok : ∀ op ∈ twiceOps .succeeded .failed, ∀ s, NotCancelling "i" s op := by
    simp [twiceOps, NotCancelling]
  refine ⟨_, rfl, ?_⟩
  exact (latest_aggregate_iff Wiring.unary _ "i" _ (reachableWith_foldl .refl _ hok) rfl (by decide)).mpr (by decide)

/-- A run stays failed after its only job was repeated and has succeeded. -/
theorem recovered_run_failed :
    ((afterOps Wiring.unary (twiceOps .failed .succeeded)).getRun "i").toOption.map (·.status) = some .failed ∧
      (latestAttempts ((afterOps Wiring.unary (twiceOps .failed .succeeded)).jobsOf "i")).map (·.status) =
        [.succeeded] ∧ aggregateRunStatus [.succeeded] = .succeeded := by
  decide

end DurableStore

end Forgelet
