import Forgelet.Run.Proofs.StatusProofs
import Forgelet.Store.Memory

/-!
# Proofs: what the operations of the in-memory store compute

One specification for each helper and each loop of the store: what is looked up in the store after it.
-/

namespace Forgelet.DurableStore

variable {s : DurableStore}

/-! ## The record updates -/

section Updates

variable (s : DurableStore) (id : JobRunID) (job : JobRunRecord) (r : RunID) (run : RunRecord)

@[simp] theorem setJob_claimed : (s.setJob id job).claimed = s.claimed := rfl
@[simp] theorem setJob_jobIDs : (s.setJob id job).jobIDs r = s.jobIDs r := rfl

@[simp] theorem setRun_jobs : (s.setRun r run).jobs = s.jobs := rfl

@[simp] theorem claim_jobs : (s.claim id).jobs = s.jobs := rfl
@[simp] theorem claim_runs : (s.claim id).runs = s.runs := rfl
@[simp] theorem unclaim_jobs : (s.unclaim id).jobs = s.jobs := rfl

theorem setJob_lookup (i : JobRunID) : (s.setJob id job).jobs.lookup i = if i = id then some job else s.jobs.lookup i :=
  GoMap.lookup_insert_ite _ _ _ _

theorem setRun_lookup (i : RunID) : (s.setRun r run).runs.lookup i = if i = r then some run else s.runs.lookup i :=
  GoMap.lookup_insert_ite _ _ _ _

end Updates

/-! ## Listings -/

theorem mem_jobsOf {r job} : job ∈ s.jobsOf r ↔ ∃ id ∈ s.jobIDs r, s.jobs.lookup id = some job := by
  exact List.mem_filterMap

theorem getRun_eq_ok {r run} : s.getRun r = .ok run ↔ s.runs.lookup r = some run := by
  unfold getRun
  cases s.runs.lookup r with
  | none | some => simp

theorem getJobRun_eq_ok {id job} : s.getJobRun id = .ok job ↔ s.jobs.lookup id = some job := by
  unfold getJobRun
  cases s.jobs.lookup id <;> simp

theorem mem_queuedJobs {job} : job ∈ s.queuedJobs ↔ (∃ id, s.jobs.lookup id = some job) ∧ job.status = .queued := by
  unfold queuedJobs
  rw [List.mem_filter, GoMap.mem_values_iff]
  simp

theorem mem_listQueuedJobs {job} :
    job ∈ s.listQueuedJobs ↔ (∃ id, s.jobs.lookup id = some job) ∧ job.status = .queued := by
  unfold listQueuedJobs
  rw [List.mem_insertionSort, mem_queuedJobs]

/-! ## The run aggregate -/

/-- The record of a run, recomputed from the statuses `l` of its jobs. -/
def refreshed (run : RunRecord) (l : List JobRunStatus) (now : Time) : RunRecord :=
  if run.status.isTerminal then run
  else if canAdvanceRun run.status (aggregateRunStatus l) && aggregateRunStatus l != run.status then
    { run with
      status := aggregateRunStatus l
      finishedAt := if (aggregateRunStatus l).isTerminal then some now else run.finishedAt }
  else run

/-- The statuses of the jobs of a run. -/
def statusesOf (s : DurableStore) (r : RunID) : List JobRunStatus := (s.jobsOf r).map (·.status)

theorem refreshRun_eq (s : DurableStore) (r : RunID) (now : Time) :
    s.refreshRun r now = s ∨ ∃ run, s.refreshRun r now = s.setRun r run := by
  unfold refreshRun
  split
  · exact .inl rfl
  · split
    · exact .inl rfl
    · dsimp only
      split
      · exact .inr ⟨_, rfl⟩
      · exact .inl rfl

section Refresh

variable (s : DurableStore) (r : RunID) (now : Time)

@[simp] theorem refreshRun_jobs : (s.refreshRun r now).jobs = s.jobs := by
  obtain h | ⟨run, h⟩ := refreshRun_eq s r now <;> rw [h]
  rfl

@[simp] theorem refreshRun_claimed : (s.refreshRun r now).claimed = s.claimed := by
  obtain h | ⟨run, h⟩ := refreshRun_eq s r now <;> rw [h]
  rfl

end Refresh

theorem refreshRun_lookup (s : DurableStore) (r r' : RunID) (now : Time) : (s.refreshRun r now).runs.lookup r' =
      if r' = r then (s.runs.lookup r).map fun run => refreshed run (s.statusesOf r) now else s.runs.lookup r' := by
  by_cases hr : r' = r
  · subst hr
    rw [if_pos rfl]
    unfold refreshRun
    cases hrun : s.runs.lookup r' with
    | none => exact hrun
    | some run =>
      simp only [Option.map_some]
      unfold refreshed statusesOf
      split
      · exact hrun
      · split
        · exact (setRun_lookup _ _ _ _).trans (if_pos rfl)
        · exact hrun
  · rw [if_neg hr]
    obtain h | ⟨run, h⟩ := refreshRun_eq s r now
    · rw [h]
    · rw [h, setRun_lookup, if_neg hr]

/-- A refresh makes an open run terminal exactly when its jobs are. -/
theorem refreshed_isTerminal (run : RunRecord) (l : List JobRunStatus) (now : Time)
    (hopen : run.status.isTerminal = false) :
    (refreshed run l now).status.isTerminal ↔ l ≠ [] ∧ ∀ st ∈ l, st.isTerminal := by
  rw [← aggregateRunStatus_isTerminal]
  unfold refreshed
  rw [if_neg (by simp [hopen])]
  split
  · rfl
  · rename_i h
    constructor
    · intro ht
      rw [hopen] at ht
      cases ht
    · intro ht
      -- an open run advances to every terminal aggregate
      have hne : aggregateRunStatus l ≠ run.status := by
        intro heq
        rw [heq, hopen] at ht
        cases ht
      exact absurd (by simp [canAdvanceRun_of_terminal hopen ht, hne]) h

theorem refreshed_finishedAt (run : RunRecord) (l : List JobRunStatus) (now : Time)
    (hfin : run.finishedAt.isSome ↔ run.status.isTerminal) :
    (refreshed run l now).finishedAt.isSome ↔ (refreshed run l now).status.isTerminal := by
  unfold refreshed
  split
  · exact hfin
  · rename_i hopen
    split
    · simp only
      by_cases hnext : (aggregateRunStatus l).isTerminal
      · simp [hnext]
      · rw [if_neg hnext, hfin]
        exact iff_of_false hopen hnext
    · exact hfin

/-! ## `ApplyObserved` -/

/-- The outcomes of `ApplyObserved`. -/
inductive ObserveOutcome (s : DurableStore) (id : JobRunID) (phase : ObservedPhase) (now : Time) :
    Outcome Unit → Prop
  | missing (absent : s.jobs.lookup id = none) : ObserveOutcome s id phase now (.error .errJobRunNotFound, s)
  | stale : ObserveOutcome s id phase now (.ok (), s)
  | refreshed {job} (found : s.jobs.lookup id = some job) (opened : job.status.isTerminal = false)
      (implied : jobStatusFromPhase phase = none) : ObserveOutcome s id phase now (.ok (), s.refreshRun job.runID now)
  | moved {job target} (found : s.jobs.lookup id = some job) (opened : job.status.isTerminal = false)
      (implied : jobStatusFromPhase phase = some target) (forward : canAdvanceJob job.status target) :
      ObserveOutcome s id phase now (.ok (), (s.setJob id (observed job target now)).refreshRun job.runID now)

theorem applyObserved_outcome (s : DurableStore) (id : JobRunID) (phase : ObservedPhase) (now : Time) :
    ObserveOutcome s id phase now (s.applyObserved id phase now) := by
  unfold applyObserved
  cases hjob : s.jobs.lookup id with
  | none => exact .missing hjob
  | some job =>
    dsimp only
    split
    · exact .stale
    · rename_i hopen
      have hopen' : job.status.isTerminal = false := by simpa using hopen
      split
      · rename_i himp
        exact .refreshed hjob hopen' himp
      · rename_i target himp
        split
        · rename_i hadv
          exact .moved hjob hopen' himp hadv
        · exact .stale

/-! ## `AckDispatched`, `CancelRun` and `MarkCollected` -/

/-- The outcomes of `AckDispatched`. -/
inductive AckOutcome (s : DurableStore) (id : JobRunID) (obj : ActiveObject) (now : Time) :
    Outcome Unit → Prop
  | refused {err} : AckOutcome s id obj now (.error err, s)
  | acked {job} (found : s.jobs.lookup id = some job) (waiting : job.status = .queued ∨ job.status = .dispatched) :
      AckOutcome s id obj now (.ok (), s.ackJob job id obj now)

theorem observed_lookup (s : DurableStore) (id : JobRunID) {job target now} (i : JobRunID) :
    ((s.setJob id (observed job target now)).refreshRun job.runID now).jobs.lookup i =
      if i = id then some (observed job target now) else s.jobs.lookup i := by
  rw [refreshRun_jobs, setJob_lookup]

theorem ackDispatched_outcome (s : DurableStore) (id : JobRunID) (obj : ActiveObject) (now : Time) :
    AckOutcome s id obj now (s.ackDispatched id obj now) := by
  unfold ackDispatched
  cases hjob : s.jobs.lookup id with
  | none => exact .refused
  | some job =>
    dsimp only
    split
    · rename_i hstatus
      split
      · exact .refused
      · exact .acked hjob (.inr hstatus)
    · rename_i hstatus
      exact .acked hjob (.inl hstatus)
    · exact .refused

theorem ackJob_lookup (s : DurableStore) (job : JobRunRecord) (id i : JobRunID) (obj : ActiveObject) (now : Time) :
    (s.ackJob job id obj now).jobs.lookup i = if i = id then some { job with
      status := .dispatched
      activeName := obj.name
      activeUID := obj.uid
      dispatchedAt := some now } else s.jobs.lookup i :=
  setJob_lookup s id _ i

theorem cancelRun_eq (s : DurableStore) (r : RunID) (now : Time) : (s.cancelRun r now).2 = s ∨
    ∃ run, s.runs.lookup r = some run ∧ (s.cancelRun r now).2 =
      (cancelJobs now s (s.jobIDs r)).setRun r { run with status := .cancelled, finishedAt := some now } := by
  unfold cancelRun
  cases hrun : s.runs.lookup r with
  | none => exact .inl rfl
  | some run =>
    dsimp only
    split
    · split <;> exact .inl rfl
    · exact .inr ⟨run, rfl, rfl⟩

theorem markCollected_eq (s : DurableStore) (id : JobRunID) (now : Time) : (s.markCollected id now).2 = s ∨
    ∃ job, s.jobs.lookup id = some job ∧
      (s.markCollected id now).2 = s.setJob id { job with activeCollectedAt := some now } := by
  unfold markCollected
  cases hjob : s.jobs.lookup id with
  | none => exact .inl rfl
  | some job =>
    dsimp only
    split
    · exact .inr ⟨job, rfl, rfl⟩
    · exact .inl rfl

end Forgelet.DurableStore
