import Forgelet.Postgres.Claims

/-!
# Proofs: a transaction that runs alone

`Rows.transact` says what the statements of a transaction do while no other one runs: from rows that nobody has
locked they run to the end, with the same result and the same rows.
-/

namespace Forgelet.Postgres

open ReadCommitted Relation

variable {id : JobRunID} {now : Time}

/-- The rows as tables that nobody uses. -/
def Rows.unlocked (t : Rows) : Db where
  jobRuns := { rows := t.jobRuns, locked := [] }
  workflowRuns := { rows := t.workflowRuns, locked := [] }

/-- The next statement of the only transaction. -/
def Alone (c c' : Db × Tx) : Prop := exec c.1 c.2 = some c'

/-- The only transaction has started from the rows `t₀` and sees the rows `t`. -/
structure Running (t₀ t : Rows) (db : Db) (tx : Tx) : Prop where
  jobRows : db.jobRuns.rows = t₀.jobRuns
  runRows : db.workflowRuns.rows = t₀.workflowRuns
  jobs : db.jobRuns.visible tx.jobs = t.jobRuns
  runs : db.workflowRuns.visible tx.runs = t.workflowRuns
  jobsLocked : db.jobRuns.locked ⊆ tx.jobs.held
  runsLocked : db.workflowRuns.locked ⊆ tx.runs.held

/-- The transaction runs to its end, with this result and these rows. -/
def RunsTo (db : Db) (tx : Tx) (result : Except Err Unit) (t : Rows) : Prop :=
  ∃ tx', ReflTransGen Alone (db, tx) (t.unlocked, tx') ∧ tx'.point = .returned result

variable {t₀ t : Rows} {db : Db} {tx : Tx}

theorem running_begin (t : Rows) (op : Op) : Running t t t.unlocked (.begin op) where
  jobRows := rfl
  runRows := rfl
  jobs := AList.empty_union
  runs := AList.empty_union
  jobsLocked := List.nil_subset _
  runsLocked := List.nil_subset _

section

variable (h : Running t₀ t db tx)
include h

theorem Running.goto (point : Point) : Running t₀ t db { tx with point := point } :=
  ⟨h.jobRows, h.runRows, h.jobs, h.runs, h.jobsLocked, h.runsLocked⟩

theorem Running.lockJob (id : JobRunID) :
    Running t₀ t { db with jobRuns := db.jobRuns.lock tx.jobs id } { tx with jobs := tx.jobs.lock id } where
  jobRows := (Table.lock_rows ..).trans h.jobRows
  runRows := h.runRows
  jobs := (Table.visible_lock ..).trans h.jobs
  runs := h.runs
  jobsLocked := Table.locked_lock_subset h.jobsLocked id
  runsLocked := h.runsLocked

theorem Running.lockRun (id : RunID) :
    Running t₀ t { db with workflowRuns := db.workflowRuns.lock tx.runs id } { tx with runs := tx.runs.lock id } where
  jobRows := h.jobRows
  runRows := (Table.lock_rows ..).trans h.runRows
  jobs := h.jobs
  runs := (Table.visible_lock ..).trans h.runs
  jobsLocked := h.jobsLocked
  runsLocked := Table.locked_lock_subset h.runsLocked id

theorem Running.freeJob (id : JobRunID) : db.jobRuns.Free tx.jobs id :=
  or_iff_not_imp_right.mpr fun hlocked => h.jobsLocked (not_not.mp hlocked)

theorem Running.freeRun (id : RunID) : db.workflowRuns.Free tx.runs id :=
  or_iff_not_imp_right.mpr fun hlocked => h.runsLocked (not_not.mp hlocked)

theorem Running.updateJob (id : JobRunID) (set : JobRow → JobRow) (next : Point) :
    ∃ db' jobs, execUpdateJob db tx id set next = some (db', ⟨tx.op, next, jobs, tx.runs⟩) ∧
      Running t₀ (t.updateJob id set) db' ⟨tx.op, next, jobs, tx.runs⟩ := by
  unfold execUpdateJob Rows.updateJob
  rw [h.jobs]
  cases hrow : t.jobRuns.lookup id with
  | none => exact ⟨_, _, rfl, h.goto next⟩
  | some row =>
    dsimp only
    rw [if_pos (h.freeJob id)]
    refine ⟨_, _, rfl, (Table.lock_rows ..).trans h.jobRows, h.runRows, ?_, h.runs,
      Table.locked_lock_subset h.jobsLocked id, h.runsLocked⟩
    rw [Table.visible_lock_write, h.jobs]

theorem Running.updateRun (id : RunID) (set : RunRecord → RunRecord) (next : Point) :
    ∃ db' runs, execUpdateRun db tx id set next = some (db', ⟨tx.op, next, tx.jobs, runs⟩) ∧
      Running t₀ (t.updateRun id set) db' ⟨tx.op, next, tx.jobs, runs⟩ := by
  unfold execUpdateRun Rows.updateRun
  rw [h.runs]
  cases hrow : t.workflowRuns.lookup id with
  | none => exact ⟨_, _, rfl, h.goto next⟩
  | some row =>
    dsimp only
    rw [if_pos (h.freeRun id)]
    refine ⟨_, _, rfl, h.jobRows, (Table.lock_rows ..).trans h.runRows, h.jobs, ?_, h.jobsLocked,
      Table.locked_lock_subset h.runsLocked id⟩
    rw [Table.visible_lock_write, h.runs]

end

theorem RunsTo.head {db' tx' result} (hexec : exec db tx = some (db', tx')) (h : RunsTo db' tx' result t) :
    RunsTo db tx result t := by
  obtain ⟨tx'', hreach, hpoint⟩ := h
  exact ⟨tx'', .head hexec hreach, hpoint⟩

theorem Running.rollback (h : Running t₀ t db tx) (err : Err) :
    RunsTo (rollback db tx err).1 (rollback db tx err).2 (.error err) t₀ := by
  refine ⟨(Postgres.rollback db tx err).2, ?_, rfl⟩
  have hdb : (Postgres.rollback db tx err).1 = t₀.unlocked := by
    unfold Postgres.rollback Rows.unlocked Table.release
    rw [Table.filter_locked_eq_nil h.jobsLocked, Table.filter_locked_eq_nil h.runsLocked, h.jobRows, h.runRows]
  rw [hdb]

variable {op : Op} {jobs : Access JobRunID JobRow} {runs : Access RunID RunRecord}

theorem Running.commit (h : Running t₀ t db ⟨op, .commit, jobs, runs⟩) :
    RunsTo db ⟨op, .commit, jobs, runs⟩ (.ok ()) t := by
  refine ⟨(Postgres.commit db ⟨op, .commit, jobs, runs⟩).2, .single (congrArg some (Prod.ext ?_ rfl)), rfl⟩
  unfold Postgres.commit Rows.unlocked Table.commit
  rw [Table.filter_locked_eq_nil h.jobsLocked, Table.filter_locked_eq_nil h.runsLocked, ← h.jobs, ← h.runs]
  rfl

theorem Running.ackDispatched {obj} (h : Running t t db ⟨.ackDispatched id obj now, .first, jobs, runs⟩) :
    RunsTo db ⟨.ackDispatched id obj now, .first, jobs, runs⟩ (t.ackDispatched id obj now).1
      (t.ackDispatched id obj now).2 := by
  have hupdate : ∀ job, RunsTo db ⟨.ackDispatched id obj now, .updateJob job, jobs, runs⟩ (.ok ())
      (t.updateJob id (setAck job obj now)) := by
    intro job
    obtain ⟨db', jobs', hexec, h'⟩ := (h.goto (.updateJob job)).updateJob id (setAck job obj now) .commit
    exact .head hexec h'.commit
  refine .head rfl ?_
  unfold Rows.ackDispatched
  rw [h.jobs]
  cases hrow : t.jobRuns.lookup id with
  | none => exact h.rollback _
  | some row =>
    dsimp only
    cases hstatus : row.status with
    | dispatched =>
      split_ifs with hname
      · exact h.rollback _
      · exact hupdate _
    | queued =>
      cases hnext : transitionJob .queued .dispatched with
      | error err => exact h.rollback _
      | ok next => exact hupdate _
    | running | succeeded | failed | cancelled | skipped => exact h.rollback _

variable {phase : ObservedPhase}

theorem Running.updateRunStatus {runID next finished}
    (h : Running t₀ t db ⟨.applyObserved id phase now, .updateRun runID next finished, jobs, runs⟩) :
    RunsTo db ⟨.applyObserved id phase now, .updateRun runID next finished, jobs, runs⟩ (.ok ())
      (t.updateRun runID (setRun next finished)) := by
  obtain ⟨db', runs', hexec, h'⟩ := h.updateRun runID (setRun next finished) .commit
  exact .head hexec h'.commit

/-- `refreshRun` at the end of ApplyObserved. An error rolls back. -/
theorem Running.refreshRun (h : Running t₀ t db ⟨.applyObserved id phase now, .selectRunID, jobs, runs⟩) :
    match t.refreshRun id now with
    | .error err => RunsTo db ⟨.applyObserved id phase now, .selectRunID, jobs, runs⟩ (.error err) t₀
    | .ok t' => RunsTo db ⟨.applyObserved id phase now, .selectRunID, jobs, runs⟩ (.ok ()) t' := by
  have hexec : exec db ⟨.applyObserved id phase now, .selectRunID, jobs, runs⟩ =
      some (selectRunID db ⟨.applyObserved id phase now, .selectRunID, jobs, runs⟩ id) := rfl
  unfold Rows.refreshRun
  unfold selectRunID at hexec
  rw [h.jobs] at hexec
  cases hrow : t.jobRuns.lookup id with
  | none =>
    rw [hrow] at hexec
    exact .head hexec (h.rollback _)
  | some row =>
    rw [hrow] at hexec
    dsimp only
    generalize hnext : aggregateRunStatus ((t.jobsOf row.runID).map (·.status)) = next
    have hstatuses : exec db ⟨.applyObserved id phase now, .selectStatuses row.runID, jobs, runs⟩ =
        some (db, ⟨.applyObserved id phase now, .lockRun row.runID next, jobs, runs⟩) := by
      rw [← hnext, Rows.jobsOf, ← h.jobs]
      rfl
    have hlock : exec db ⟨.applyObserved id phase now, .lockRun row.runID next, jobs, runs⟩ =
        Postgres.lockRun db ⟨.applyObserved id phase now, .lockRun row.runID next, jobs, runs⟩ row.runID next now :=
      rfl
    unfold Postgres.lockRun at hlock
    rw [h.runs] at hlock
    cases hrun : t.workflowRuns.lookup row.runID with
    | none =>
      rw [hrun] at hlock
      exact .head hexec (RunsTo.head hstatuses (RunsTo.head hlock ((h.goto _).rollback _)))
    | some run =>
      rw [hrun] at hlock
      dsimp only at hlock ⊢
      rw [if_pos (h.freeRun row.runID)] at hlock
      by_cases hstays : canAdvanceRun run.status next = false ∨ next = run.status
      · rw [if_pos hstays] at hlock ⊢
        exact .head hexec (RunsTo.head hstatuses (RunsTo.head hlock ((h.lockRun row.runID).goto .commit).commit))
      · rw [if_neg hstays] at hlock ⊢
        exact .head hexec (RunsTo.head hstatuses (RunsTo.head hlock ((h.lockRun row.runID).goto _).updateRunStatus))

theorem Running.applyObserved (h : Running t t db ⟨.applyObserved id phase now, .first, jobs, runs⟩) :
    RunsTo db ⟨.applyObserved id phase now, .first, jobs, runs⟩ (t.applyObserved id phase now).1
      (t.applyObserved id phase now).2 := by
  refine .head rfl ?_
  unfold Rows.applyObserved
  rw [h.jobs]
  cases hrow : t.jobRuns.lookup id with
  | none => exact h.rollback _
  | some row =>
    dsimp only
    -- what follows from the rows after the projection onto the job
    have hrefresh : ∀ {t₁ db' jobs'}, Running t t₁ db' ⟨.applyObserved id phase now, .selectRunID, jobs', runs⟩ →
        RunsTo db' ⟨.applyObserved id phase now, .selectRunID, jobs', runs⟩ (match t₁.refreshRun id now with
          | .error err => (Except.error err, t)
          | .ok t => (Except.ok (), t)).1 (match t₁.refreshRun id now with
          | .error err => (Except.error err, t)
          | .ok t => (Except.ok (), t)).2 := by
      intro t₁ db' jobs' h'
      have := h'.refreshRun
      cases hr : t₁.refreshRun id now with
      | error | ok => rw [hr] at this; exact this
    have hskip := hrefresh (h.goto .selectRunID)
    unfold Rows.observeJob
    split_ifs with hterminal
    · exact hskip
    · cases hphase : jobStatusFromPhase phase with
      | none => exact hskip
      | some target =>
        dsimp only
        split_ifs with hadvance
        · have hstart := h.goto (.updateJob (observe row.toJobRunRecord target now))
          obtain ⟨db', jobs', hupdate, h'⟩ :=
            hstart.updateJob id (setObserved (observe row.toJobRunRecord target now)) .selectRunID
          exact .head hupdate (hrefresh h')
        · exact hskip

theorem Running.cancelJobs {id todo} (h : Running t₀ t db ⟨.cancelRun id now, .cancelJobs todo, jobs, runs⟩) :
    RunsTo db ⟨.cancelRun id now, .cancelJobs todo, jobs, runs⟩ (.ok ())
      ((t.cancelJobs now todo).updateRun id (setRun .cancelled (some now))) := by
  induction todo generalizing t db jobs with
  | nil =>
    obtain ⟨db', runs', hexec, h'⟩ := (h.goto .updateCancelled).updateRun id (setRun .cancelled (some now)) .commit
    exact .head rfl (RunsTo.head hexec h'.commit)
  | cons job rest ih =>
    unfold Rows.cancelJobs
    cases hnext : transitionJob job.status .cancelled with
    | error err =>
      exact .head (by simp only [exec, hnext]) (ih (h.goto _))
    | ok next =>
      obtain ⟨db', jobs', hupdate, h'⟩ := h.updateJob job.id (setCancelled next now) (.cancelJobs rest)
      exact .head (by simp only [exec, hnext]; exact hupdate) (ih h')

theorem Running.lockJobs {id rows result t' todo loaded}
    (h : Running t₀ t db ⟨.cancelRun id now, .lockJobs todo loaded, jobs, runs⟩)
    (hall : List.Forall₂ (fun key row => t.jobRuns.lookup key = some row ∧ row.runID = id) todo rows)
    (hcancel : ∀ {db' jobs'},
      Running t₀ t db' ⟨.cancelRun id now, .cancelJobs (loaded ++ rows.map (·.toJobRunRecord)), jobs', runs⟩ →
      RunsTo db' ⟨.cancelRun id now, .cancelJobs (loaded ++ rows.map (·.toJobRunRecord)), jobs', runs⟩ result t') :
    RunsTo db ⟨.cancelRun id now, .lockJobs todo loaded, jobs, runs⟩ result t' := by
  induction hall generalizing db jobs loaded with
  | nil =>
    rw [List.map_nil, List.append_nil] at hcancel
    exact .head rfl (hcancel (h.goto (.cancelJobs loaded)))
  | @cons key row todo rows hrow hall ih =>
    have hexec : exec db ⟨.cancelRun id now, .lockJobs (key :: todo) loaded, jobs, runs⟩ =
        Postgres.lockJob db ⟨.cancelRun id now, .lockJobs (key :: todo) loaded, jobs, runs⟩ id key todo loaded := rfl
    unfold Postgres.lockJob at hexec
    rw [h.jobs, hrow.1] at hexec
    dsimp only at hexec
    rw [if_pos (h.freeJob key), if_pos hrow.2] at hexec
    refine .head hexec (ih ((h.lockJob key).goto _) ?_)
    rw [List.append_assoc]
    exact hcancel

theorem forall₂_jobsOf (t : Rows) (id : RunID) :
    List.Forall₂ (fun key row => t.jobRuns.lookup key = some row ∧ row.runID = id)
      ((t.jobRuns.entries.filter fun e => e.2.runID = id).map (·.1)) (t.jobsOf id) := by
  have hmap : t.jobsOf id = (t.jobRuns.entries.filter fun e => e.2.runID = id).map (·.2) := by
    unfold Rows.jobsOf
    rw [List.filter_map]
    rfl
  rw [hmap, List.forall₂_map_left_iff, List.forall₂_map_right_iff, List.forall₂_same]
  intro e he
  rw [List.mem_filter] at he
  exact ⟨AList.mem_lookup_iff.mpr he.1, of_decide_eq_true he.2⟩

theorem Running.cancelRun {id} (h : Running t t db ⟨.cancelRun id now, .first, jobs, runs⟩) :
    RunsTo db ⟨.cancelRun id now, .first, jobs, runs⟩ (t.cancelRun id now).1 (t.cancelRun id now).2 := by
  refine .head rfl ?_
  unfold Rows.cancelRun
  rw [h.runs]
  cases hrun : t.workflowRuns.lookup id with
  | none => exact h.rollback _
  | some run =>
    dsimp only
    split_ifs with hterminal hcancelled
    · exact (h.goto .commit).commit
    · exact h.rollback _
    · have hselect : exec db ⟨.cancelRun id now, .selectJobs, jobs, runs⟩ = some (db, ⟨.cancelRun id now,
          .lockJobs ((t.jobRuns.entries.filter fun e => e.2.runID = id).map (·.1)) [], jobs, runs⟩) := by
        rw [← h.jobs]
        rfl
      exact .head hselect ((h.goto _).lockJobs (forall₂_jobsOf t id) fun h' => h'.cancelJobs)

/-- The statements of a transaction that runs alone do what `transact` says. -/
theorem transact_alone (t : Rows) (op : Op) : RunsTo t.unlocked (.begin op) (t.transact op).1 (t.transact op).2 := by
  cases op with
  | ackDispatched id obj now => exact (running_begin t _).ackDispatched
  | applyObserved id phase now => exact (running_begin t _).applyObserved
  | cancelRun id now => exact (running_begin t _).cancelRun

end Forgelet.Postgres
