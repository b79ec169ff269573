import Forgelet.Postgres.Store

/-!
# Proofs: what a statement does to the tables

Every statement is a move of each of the two tables. Rows change by an `UPDATE` only, and `jobUpdate` and
`runUpdate` say which one a transaction runs next.
-/

namespace Forgelet.Postgres

open ReadCommitted

/-- The `UPDATE` of `job_runs` that a transaction runs next, if it is one. -/
def jobUpdate (tx : Tx) : Option (JobRunID × (JobRow → JobRow)) :=
  match tx.point, tx.op with
  | .updateJob job, .ackDispatched id obj now => some (id, setAck job obj now)
  | .updateJob job, .applyObserved id _ _ => some (id, setObserved job)
  | .cancelJobs (job :: _), .cancelRun _ now =>
    match transitionJob job.status .cancelled with
    | .error _ => none
    | .ok next => some (job.id, setCancelled next now)
  | _, _ => none

/-- The `UPDATE` of `workflow_runs` that a transaction runs next, if it is one. -/
def runUpdate (tx : Tx) : Option (RunID × (RunRecord → RunRecord)) :=
  match tx.point, tx.op with
  | .updateRun runID next finished, .applyObserved _ _ _ => some (runID, setRun next finished)
  | .updateCancelled, .cancelRun id now => some (id, setRun .cancelled (some now))
  | _, _ => none

/-- A statement is a move of both tables, and the operation of the transaction stays. -/
structure Moves (JobKeeps : JobRow → JobRow → Prop) (RunKeeps : RunRecord → RunRecord → Prop) (db : Db)
    (tx : Tx) (out : Db × Tx) : Prop where
  jobs : Move JobKeeps db.jobRuns tx.jobs out.1.jobRuns out.2.jobs
  runs : Move RunKeeps db.workflowRuns tx.runs out.1.workflowRuns out.2.runs
  op : out.2.op = tx.op

section

variable {JobKeeps : JobRow → JobRow → Prop} {RunKeeps : RunRecord → RunRecord → Prop} {db : Db} {tx : Tx}

/-- A statement that only reads. -/
theorem moves_point (p : Point) : Moves JobKeeps RunKeeps db tx (db, { tx with point := p }) :=
  ⟨.stay, .stay, rfl⟩

theorem moves_commit : Moves JobKeeps RunKeeps db tx (commit db tx) := ⟨.commit, .commit, rfl⟩

theorem moves_rollback (err : Err) : Moves JobKeeps RunKeeps db tx (rollback db tx err) :=
  ⟨.release, .release, rfl⟩

theorem ackDispatched_moves (id : JobRunID) (obj : ActiveObject) :
    Moves JobKeeps RunKeeps db tx (ackDispatched db tx id obj) := by
  unfold ackDispatched
  split
  · exact moves_rollback _
  · dsimp only
    split
    · split_ifs
      · exact moves_rollback _
      · exact moves_point _
    · split
      · exact moves_rollback _
      · exact moves_point _
    · exact moves_rollback _

theorem applyObserved_moves (id : JobRunID) (phase : ObservedPhase) (now : Time) :
    Moves JobKeeps RunKeeps db tx (applyObserved db tx id phase now) := by
  unfold applyObserved
  split
  · exact moves_rollback _
  · dsimp only
    split_ifs
    · exact moves_point _
    · split
      · exact moves_point _
      · split_ifs
        · exact moves_point _
        · exact moves_point _

theorem cancelRun_moves (id : RunID) : Moves JobKeeps RunKeeps db tx (cancelRun db tx id) := by
  unfold cancelRun
  split
  · exact moves_rollback _
  · split_ifs
    · exact moves_point _
    · exact moves_rollback _
    · exact moves_point _

theorem selectRunID_moves (id : JobRunID) : Moves JobKeeps RunKeeps db tx (selectRunID db tx id) := by
  unfold selectRunID
  split
  · exact moves_rollback _
  · exact moves_point _

variable {out : Db × Tx}

theorem execUpdateJob_moves {id} {set : JobRow → JobRow} {next}
    (hkeeps : ∀ row, (db.jobRuns.visible tx.jobs).lookup id = some row → JobKeeps row (set row))
    (h : execUpdateJob db tx id set next = some out) : Moves JobKeeps RunKeeps db tx out := by
  unfold execUpdateJob at h
  split at h
  · cases h
    exact moves_point _
  · rename_i row hrow
    split_ifs at h with hfree
    cases h
    exact ⟨.update hfree hrow (hkeeps row hrow), .stay, rfl⟩

theorem execUpdateRun_moves {id} {set : RunRecord → RunRecord} {next}
    (hkeeps : ∀ row, (db.workflowRuns.visible tx.runs).lookup id = some row → RunKeeps row (set row))
    (h : execUpdateRun db tx id set next = some out) : Moves JobKeeps RunKeeps db tx out := by
  unfold execUpdateRun at h
  split at h
  · cases h
    exact moves_point _
  · rename_i row hrow
    split_ifs at h with hfree
    cases h
    exact ⟨.stay, .update hfree hrow (hkeeps row hrow), rfl⟩

theorem lockRun_moves {runID next now} (h : lockRun db tx runID next now = some out) :
    Moves JobKeeps RunKeeps db tx out := by
  unfold lockRun at h
  split at h
  · cases h
    exact moves_rollback _
  · split at h
    · rename_i hfree
      split at h
      · cases h
        exact ⟨.stay, .lock hfree, rfl⟩
      · cases h
        exact ⟨.stay, .lock hfree, rfl⟩
    · cases h

theorem lockJob_moves {runID id todo jobs} (h : lockJob db tx runID id todo jobs = some out) :
    Moves JobKeeps RunKeeps db tx out := by
  unfold lockJob at h
  split at h
  · cases h
    exact moves_point _
  · split at h
    · rename_i hfree
      cases h
      exact ⟨.lock hfree, .stay, rfl⟩
    · cases h

/-- The next statement is a move of both tables, if its `UPDATE` keeps the row. -/
theorem exec_moves
    (hjob : ∀ id set row, jobUpdate tx = some (id, set) →
      (db.jobRuns.visible tx.jobs).lookup id = some row → JobKeeps row (set row))
    (hrun : ∀ id set row, runUpdate tx = some (id, set) →
      (db.workflowRuns.visible tx.runs).lookup id = some row → RunKeeps row (set row))
    (h : exec db tx = some out) : Moves JobKeeps RunKeeps db tx out := by
  unfold exec at h
  split at h
  · cases h
    exact ackDispatched_moves _ _
  · cases h
    exact applyObserved_moves _ _ _
  · cases h
    exact cancelRun_moves _
  · rename_i hp ho
    exact execUpdateJob_moves (fun row => hjob _ _ row (by simp only [jobUpdate, hp, ho])) h
  · rename_i hp ho
    exact execUpdateJob_moves (fun row => hjob _ _ row (by simp only [jobUpdate, hp, ho])) h
  · cases h
    exact selectRunID_moves _
  · cases h
    exact moves_point _
  · exact lockRun_moves h
  · rename_i hp ho
    exact execUpdateRun_moves (fun row => hrun _ _ row (by simp only [runUpdate, hp, ho])) h
  · cases h
    exact moves_point _
  · cases h
    exact moves_point _
  · exact lockJob_moves h
  · cases h
    exact moves_point _
  · rename_i hp ho
    split at h
    · cases h
      exact moves_point _
    · rename_i hnext
      exact execUpdateJob_moves (fun row => hjob _ _ row (by simp only [jobUpdate, hp, ho, hnext])) h
  · rename_i hp ho
    exact execUpdateRun_moves (fun row => hrun _ _ row (by simp only [runUpdate, hp, ho])) h
  · cases h
    exact moves_commit
  · cases h

end

end Forgelet.Postgres
