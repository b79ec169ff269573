import Forgelet.Postgres.Proofs.StatusProofs

/-!
# Proofs: the aggregate of a run

An ApplyObserved transaction that ends a job makes the run terminal if it sees all jobs terminal, and does not see what
others have not committed. If the last open jobs are ended by transactions that have all read before the others commit,
none of them makes the run terminal.
-/

namespace Forgelet.Postgres

open ReadCommitted

variable {db : Db} {tx : Tx} {id : JobRunID} {now : Time} {out : Db × Tx}

/-- The beginning of an `ApplyObserved`. -/
def BeginsObserved (tx : Tx) : Prop := ∃ id phase now, tx = .begin (.applyObserved id phase now)

/-- Transactions of ApplyObserved do not move a job to another run. -/
def SameRun (row row' : JobRow) : Prop := row'.runID = row.runID

/-- The transaction is past its read of the statuses, and has not ended. -/
def Point.pastRead : Point → Bool
  | .lockRun .. | .updateRun .. | .commit => true
  | _ => false

/-! ## What an ApplyObserved transaction knows -/

/-- What an `ApplyObserved` in flight holds and has written. -/
structure ObservedInv (db : Db) (tx : Tx) : Prop where
  jobs : Sound SameRun db.jobRuns tx.jobs
  runs : Sound RunKept db.workflowRuns tx.runs
  writesOwn : ∃ id phase now, tx.op = .applyObserved id phase now ∧
    (∀ k v, tx.jobs.writes.lookup k = some v → k = id) ∧
    ∀ runID, tx.point = .selectStatuses runID →
      ∃ row, db.jobRuns.rows.lookup id = some row ∧ row.runID = runID
  refreshes : ∀ runID next finished, tx.point = .updateRun runID next finished →
    runID ∈ tx.runs.held ∧ ∃ run, (db.workflowRuns.visible tx.runs).lookup runID = some run ∧
      canAdvanceRun run.status next

theorem SameRun.refl (row : JobRow) : SameRun row row := rfl

theorem SameRun.trans {u v w} (h : SameRun u v) (h' : SameRun v w) : SameRun u w := Eq.trans h' h

/-- Nothing is committed. -/
structure SameRows (db db' : Db) : Prop where
  jobs : db'.jobRuns.rows = db.jobRuns.rows
  runs : db'.workflowRuns.rows = db.workflowRuns.rows

/-- One statement of an `ApplyObserved`. -/
inductive ObservedStep (db : Db) (tx : Tx) (id : JobRunID) : Db × Tx → Prop
  /-- before the read of the statuses -/
  | early {out : Db × Tx} (rows : SameRows db out.1) (before : tx.point.pastRead = false)
      (after : out.2.point.pastRead = false)
      (writes : ∀ k v, out.2.jobs.writes.lookup k = some v → tx.jobs.writes.lookup k = some v ∨ k = id)
      (reads : ∀ runID, out.2.point = .selectStatuses runID →
        ∃ row, (db.jobRuns.visible tx.jobs).lookup id = some row ∧ row.runID = runID) :
      ObservedStep db tx id out
  /-- the read of the statuses -/
  | read (runID : RunID) (point : tx.point = .selectStatuses runID) :
      ObservedStep db tx id
        (db, { tx with point := .lockRun runID (aggregateRunStatus (statusesOf db tx runID)) })
  /-- the lock of the run -/
  | lockRun {runID : RunID} {next : WorkflowRunStatus} {run : RunRecord} {p : Point}
      (point : tx.point = .lockRun runID next)
      (sees : (db.workflowRuns.visible tx.runs).lookup runID = some run)
      (decides : (p = .commit ∧ (canAdvanceRun run.status next = false ∨ next = run.status)) ∨
        ∃ finished, p = .updateRun runID next finished ∧ canAdvanceRun run.status next) :
      ObservedStep db tx id
        ({ db with workflowRuns := db.workflowRuns.lock tx.runs runID },
          { tx with point := p, runs := tx.runs.lock runID })
  /-- the `UPDATE` of the run -/
  | updateRun {runID : RunID} {next : WorkflowRunStatus} {finished : Option Time} {run : RunRecord}
      (point : tx.point = .updateRun runID next finished)
      (sees : (db.workflowRuns.visible tx.runs).lookup runID = some run) :
      ObservedStep db tx id
        ({ db with workflowRuns := db.workflowRuns.lock tx.runs runID },
          { tx with point := .commit, runs := (tx.runs.lock runID).write runID (setRun next finished run) })
  | commit (point : tx.point = .commit) : ObservedStep db tx id (commit db tx)
  | rollback (err : Err) : ObservedStep db tx id (rollback db tx err)

variable {phase : ObservedPhase} {db' : Db} {tx' : Tx}

theorem applyObserved_step (hp : tx.point = .first) : ObservedStep db tx id (applyObserved db tx id phase now) := by
  have hpoint : ∀ p : Point, p.pastRead = false → (∀ runID, p ≠ .selectStatuses runID) →
      ObservedStep db tx id (db, { tx with point := p }) := fun p hpast hne =>
    .early ⟨rfl, rfl⟩ (by rw [hp]; rfl) hpast (fun _ _ hv => .inl hv) fun runID hr => absurd hr (hne runID)
  unfold applyObserved
  split
  · exact .rollback _
  · dsimp only
    split_ifs
    · exact hpoint _ rfl (by simp)
    · split
      · exact hpoint _ rfl (by simp)
      · split_ifs
        · exact hpoint _ rfl (by simp)
        · exact hpoint _ rfl (by simp)

theorem execUpdateJob_step {job} (hp : tx.point = .updateJob job)
    (h : execUpdateJob db tx id (setObserved job) .selectRunID = some out) : ObservedStep db tx id out := by
  unfold execUpdateJob at h
  split at h
  · cases h
    exact .early ⟨rfl, rfl⟩ (by rw [hp]; rfl) rfl (fun _ _ hv => .inl hv) (by simp)
  · split_ifs at h
    cases h
    refine .early ⟨Table.lock_rows .., rfl⟩ (by rw [hp]; rfl) rfl (fun k v hv => ?_) (by simp)
    dsimp only [Access.write] at hv
    rw [GoMap.lookup_insert_ite, Access.lock_writes] at hv
    split_ifs at hv with hk
    · exact .inr hk
    · exact .inl hv

theorem selectRunID_step (hp : tx.point = .selectRunID) : ObservedStep db tx id (selectRunID db tx id) := by
  unfold selectRunID
  split
  · exact .rollback _
  · rename_i row hrow
    refine .early ⟨rfl, rfl⟩ (by rw [hp]; rfl) rfl (fun _ _ hv => .inl hv) fun runID hr => ?_
    obtain rfl := Point.selectStatuses.inj hr
    exact ⟨row, hrow, rfl⟩

theorem lockRun_step {runID next} (hp : tx.point = .lockRun runID next) (h : lockRun db tx runID next now = some out) :
    ObservedStep db tx id out := by
  unfold lockRun at h
  split at h
  · cases h
    exact .rollback _
  · rename_i run hrun
    split at h
    · split at h
      · rename_i hstay
        cases h
        exact .lockRun hp hrun (.inl ⟨rfl, hstay⟩)
      · rename_i hadvance
        rw [not_or, Bool.not_eq_false] at hadvance
        cases h
        exact .lockRun hp hrun (.inr ⟨_, rfl, hadvance.1⟩)
    · cases h

theorem exec_observedStep (hinv : ObservedInv db tx) (hop : tx.op = .applyObserved id phase now)
    (h : exec db tx = some out) : ObservedStep db tx id out := by
  unfold exec at h
  split at h
  case h_2 hp ho =>
    obtain ⟨rfl, rfl, rfl⟩ := Op.applyObserved.inj (hop.symm.trans ho)
    cases h
    exact applyObserved_step hp
  case h_5 hp ho =>
    obtain ⟨rfl, rfl, rfl⟩ := Op.applyObserved.inj (hop.symm.trans ho)
    exact execUpdateJob_step hp h
  case h_6 hp ho =>
    obtain ⟨rfl, rfl, rfl⟩ := Op.applyObserved.inj (hop.symm.trans ho)
    cases h
    exact selectRunID_step hp
  case h_7 hp ho =>
    cases h
    exact .read _ hp
  case h_8 hp ho => exact lockRun_step hp h
  case h_9 runID next finished _ _ _ hp ho =>
    obtain ⟨-, run, hrun, -⟩ := hinv.refreshes runID next finished hp
    unfold execUpdateRun at h
    rw [hrun] at h
    split_ifs at h
    cases h
    exact .updateRun hp hrun
  case h_16 hp =>
    cases h
    exact .commit hp
  case h_17 => cases h
  -- the other statements are those of AckDispatched and CancelRun
  all_goals
    rename_i ho
    rw [hop] at ho
    cases ho

/-- Statements of ApplyObserved keep jobs in their runs and terminal runs as they are. -/
theorem TxStep.observedMoves (h : TxStep db tx db' tx') (hinv : ObservedInv db tx) :
    Moves SameRun RunKept db tx (db', tx') := by
  obtain ⟨id, phase, now, hop, -⟩ := hinv.writesOwn
  cases h with
  | exec h =>
    refine exec_moves (fun _ set row hupdate _ => ?_) (fun runID set run hupdate hrun => ?_) h
    · unfold jobUpdate at hupdate
      split at hupdate
      · obtain ⟨-, rfl⟩ := Prod.mk.inj (Option.some.inj hupdate)
        rfl
      · obtain ⟨-, rfl⟩ := Prod.mk.inj (Option.some.inj hupdate)
        rfl
      · split at hupdate
        · cases hupdate
        · obtain ⟨-, rfl⟩ := Prod.mk.inj (Option.some.inj hupdate)
          rfl
      · cases hupdate
    · unfold runUpdate at hupdate
      split at hupdate
      · rename_i next finished _ _ _ hp ho
        cases hupdate
        obtain ⟨-, run', hrun', hadvance⟩ := hinv.refreshes _ next finished hp
        obtain rfl := Option.mem_unique hrun hrun'
        exact fun hterm => canAdvanceRun_sticky hterm hadvance
      · rename_i ho
        rw [hop] at ho
        cases ho
      · cases hupdate
  | fail err h => exact moves_rollback err

theorem ObservedStep.knows (h : ObservedStep db tx id out) (hsound : Sound SameRun db.jobRuns tx.jobs)
    (hown : ∀ k v, tx.jobs.writes.lookup k = some v → k = id) (hop : out.2.op = .applyObserved id phase now) :
    (∃ id phase now, out.2.op = .applyObserved id phase now ∧ (∀ k v, out.2.jobs.writes.lookup k = some v → k = id) ∧
      ∀ runID, out.2.point = .selectStatuses runID →
        ∃ row, out.1.jobRuns.rows.lookup id = some row ∧ row.runID = runID) ∧
    ∀ runID next finished, out.2.point = .updateRun runID next finished → runID ∈ out.2.runs.held ∧
        ∃ run, (out.1.workflowRuns.visible out.2.runs).lookup runID = some run ∧
          canAdvanceRun run.status next := by
  have hnothing : ∀ k v, (Access.nothing : Access JobRunID JobRow).writes.lookup k = some v → k = id := by
    intro k v hv
    simp [Access.nothing] at hv
  cases h with
  | early rows before after writes reads =>
    refine ⟨⟨id, phase, now, hop, fun k v hv => ?_, fun runID hp => ?_⟩, fun runID next finished hp => ?_⟩
    · exact (writes k v hv).elim (hown k v) fun hk => hk
    · obtain ⟨row, hrow, rfl⟩ := reads runID hp
      obtain ⟨row₀, hrow₀, hsame⟩ := hsound.visible SameRun.refl hrow
      exact ⟨row₀, by rw [rows.jobs]; exact hrow₀, Eq.symm hsame⟩
    · rw [hp] at after
      cases after
  | read runID point => exact ⟨⟨id, phase, now, hop, hown, by simp⟩, by simp⟩
  | @lockRun runID next run p point sees decides =>
    refine ⟨⟨id, phase, now, hop, hown, fun runID' hp => ?_⟩, fun runID' next' finished' hp => ?_⟩
    · rcases decides with ⟨rfl, -⟩ | ⟨finished, rfl, -⟩ <;> cases hp
    · rcases decides with ⟨rfl, -⟩ | ⟨finished, rfl, hadvance⟩
      · cases hp
      · obtain ⟨rfl, rfl, -⟩ := Point.updateRun.inj hp
        refine ⟨(Access.mem_held_lock ..).mpr (.inl rfl), run, ?_, hadvance⟩
        rw [Table.visible_lock]
        exact sees
  | updateRun point sees => exact ⟨⟨id, phase, now, hop, hown, by simp⟩, by simp⟩
  | commit | rollback =>
    exact ⟨⟨id, phase, now, hop, hnothing, fun _ hp => by cases hp⟩, fun _ _ _ hp => by cases hp⟩

theorem observedInv_step (hinv : ObservedInv db tx) (h : TxStep db tx db' tx') : ObservedInv db' tx' := by
  have hmoves := h.observedMoves hinv
  obtain ⟨id, phase, now, hop, hown, -⟩ := hinv.writesOwn
  have hstep : ObservedStep db tx id (db', tx') := by
    cases h with
    | exec h => exact exec_observedStep hinv hop h
    | fail err h => exact .rollback err
  obtain ⟨hwrites, hrefreshes⟩ := hstep.knows hinv.jobs hown (hmoves.op.trans hop)
  exact ⟨hmoves.jobs.sound hinv.jobs SameRun.refl SameRun.trans,
    hmoves.runs.sound hinv.runs RunKept.refl RunKept.trans, hwrites, hrefreshes⟩

theorem observedInv_other {other} (hinv : ObservedInv db tx) (hother : ObservedInv db other) (hapart : Apart tx other)
    (h : TxStep db tx db' tx') : ObservedInv db' other := by
  have hmoves := h.observedMoves hinv
  refine ⟨hmoves.jobs.sound_other hinv.jobs hother.jobs hapart.1,
    hmoves.runs.sound_other hinv.runs hother.runs hapart.2, ?_, fun runID next finished hp => ?_⟩
  · obtain ⟨id, phase, now, hop, hown, hreads⟩ := hother.writesOwn
    refine ⟨id, phase, now, hop, hown, fun runID hp => ?_⟩
    obtain ⟨row, hrow, rfl⟩ := hreads runID hp
    exact Both.after (hmoves.jobs.rowsKept hinv.jobs SameRun.refl id) hrow
  · obtain ⟨hheld, run, hrun, hadvance⟩ := hother.refreshes runID next finished hp
    refine ⟨hheld, run, ?_, hadvance⟩
    rw [hmoves.runs.visible_of_held hinv.runs hapart.2 hheld]
    exact hrun

theorem observed_proof : Interleaving.Proof BeginsObserved TxStep (fun _ => True) ObservedInv (fun _ => Apart) where
  spawn _ hbegins := by
    obtain ⟨id, phase, now, rfl⟩ := hbegins
    refine ⟨sound_nothing, sound_nothing, ⟨id, phase, now, rfl, fun k v hv => ?_, ?_⟩, ?_⟩
    · simp [Tx.begin, Access.nothing] at hv
    · simp [Tx.begin]
    · simp [Tx.begin]
  spawn_pair _ hbegins _ := by
    obtain ⟨id, phase, now, rfl⟩ := hbegins
    exact apart_begin ⟨_, rfl⟩
  shared _ _ _ := trivial
  act _ hinv hstep := observedInv_step hinv hstep
  act_pair _ hinv hother hapart _ hstep := by
    have hmoves := hstep.observedMoves hinv
    have hnew : Apart _ _ := ⟨hmoves.jobs.apart hother.jobs hapart.1, hmoves.runs.apart hother.runs hapart.2⟩
    exact ⟨hnew, hnew.1.symm, hnew.2.symm⟩
  keep _ hinv hother hapart _ hstep := observedInv_other hinv hother hapart hstep
  keep_pair _ _ _ _ hapart _ := hapart

end Forgelet.Postgres
