import Forgelet.Postgres.Proofs.MoveProofs
import Forgelet.Run.Proofs.StatusProofs

/-!
# Proofs: the statuses of committed rows

AckDispatched and ApplyObserved decide on a row that they have not locked, and so does CancelRun for the run. Where the
check still passes on the row as their `UPDATE` finds it, every committed row moves forward only. Where it does not, a
terminal status is overwritten.
-/

namespace Forgelet.Postgres

open ReadCommitted
open Interleaving (Config Holds Proof holds_idle play reaches_of_play)

variable {db db' : Db} {tx : Tx} {id : JobRunID} {out : Db × Tx}

/-- A job row after a while: at least as far, and unchanged once terminal. -/
structure JobKept (row row' : JobRow) : Prop where
  id : row'.id = row.id
  runID : row'.runID = row.runID
  rank : jobRank row.status ≤ jobRank row'.status
  terminal : row.status.isTerminal → row'.status = row.status

/-- A run row after a while: unchanged status once it was terminal. -/
def RunKept (row row' : RunRecord) : Prop := row.status.isTerminal = true → row'.status = row.status

theorem JobKept.refl (row : JobRow) : JobKept row row := ⟨rfl, rfl, Nat.le_refl _, fun _ => rfl⟩

theorem JobKept.trans {u v w} (h : JobKept u v) (h' : JobKept v w) : JobKept u w where
  id := h'.id.trans h.id
  runID := h'.runID.trans h.runID
  rank := Nat.le_trans h.rank h'.rank
  terminal hu := by
    have hv := h.terminal hu
    rw [← hv] at hu
    exact (h'.terminal hu).trans hv

theorem RunKept.refl (row : RunRecord) : RunKept row row := fun _ => rfl

theorem RunKept.trans {u v w} (h : RunKept u v) (h' : RunKept v w) : RunKept u w := by
  intro hu
  have hv := h hu
  rw [← hv] at hu
  exact (h' hu).trans hv

/-- The check made before the `UPDATE` passes on the row that it finds. -/
def stillPasses (db : Db) (tx : Tx) : Bool :=
  match tx.point, tx.op with
  | .updateJob _, .ackDispatched id _ _ =>
    match (db.jobRuns.visible tx.jobs).lookup id with
    | none => true
    | some row => row.status == .queued || row.status == .dispatched
  | .updateJob job, .applyObserved id _ _ =>
    match (db.jobRuns.visible tx.jobs).lookup id with
    | none => true
    | some row => !row.status.isTerminal && canAdvanceJob row.status job.status
  | .updateCancelled, .cancelRun id _ =>
    match (db.workflowRuns.visible tx.runs).lookup id with
    | none => true
    | some run => !run.status.isTerminal
  | _, _ => true

/-- A statement whose check still passes, or the end of a failed transaction. -/
inductive CheckedStep (db : Db) (tx : Tx) : Db → Tx → Prop
  | exec {db' tx'} (passes : stillPasses db tx) (h : exec db tx = some (db', tx')) : CheckedStep db tx db' tx'
  | fail (err : Err) (h : ∀ r, tx.point ≠ .returned r) : CheckedStep db tx (rollback db tx err).1 (rollback db tx err).2

/-- The rows of `job_runs` are filed under their ids. -/
def Keyed (db : Db) : Prop := ∀ id row, db.jobRuns.rows.lookup id = some row → row.id = id

/-- The jobs that CancelRun has locked are as it read them, or cancelled. -/
def Loaded (db : Db) (tx : Tx) (jobs : List JobRunRecord) : Prop :=
  ∀ job ∈ jobs, job.id ∈ tx.jobs.held ∧
    ∀ row, (db.jobRuns.visible tx.jobs).lookup job.id = some row →
      row.status = job.status ∨ row.status = .cancelled

/-- What a transaction has read is still so. -/
structure Knows (db : Db) (tx : Tx) : Prop where
  acks : ∀ {id obj now job}, tx.op = .ackDispatched id obj now → tx.point = .updateJob job →
    job.status = .dispatched
  refreshes : ∀ {runID next finished}, tx.point = .updateRun runID next finished →
    runID ∈ tx.runs.held ∧ ∀ run, (db.workflowRuns.visible tx.runs).lookup runID = some run →
      canAdvanceRun run.status next
  loads : ∀ {todo jobs}, tx.point = .lockJobs todo jobs → Loaded db tx jobs
  cancels : ∀ {jobs}, tx.point = .cancelJobs jobs → Loaded db tx jobs

/-- What is true of a transaction in flight. -/
structure TxInv (db : Db) (tx : Tx) : Prop where
  jobs : Sound JobKept db.jobRuns tx.jobs
  runs : Sound RunKept db.workflowRuns tx.runs
  knows : Knows db tx

variable {jobs : List JobRunRecord} {now : Time}

theorem Loaded.congr (h : Loaded db tx jobs) (hjobs : ∀ id ∈ tx.jobs.held,
      (db'.jobRuns.visible tx.jobs).lookup id = (db.jobRuns.visible tx.jobs).lookup id) : Loaded db' tx jobs := by
  intro job hjob
  refine ⟨(h job hjob).1, fun row hrow => (h job hjob).2 row ?_⟩
  rwa [← hjobs job.id (h job hjob).1]

theorem Knows.congr (h : Knows db tx)
    (hjobs : ∀ id ∈ tx.jobs.held, (db'.jobRuns.visible tx.jobs).lookup id = (db.jobRuns.visible tx.jobs).lookup id)
    (hruns : ∀ id ∈ tx.runs.held, (db'.workflowRuns.visible tx.runs).lookup id =
      (db.workflowRuns.visible tx.runs).lookup id)
    : Knows db' tx where
  acks := h.acks
  refreshes hp := by
    refine ⟨(h.refreshes hp).1, fun run hrun => (h.refreshes hp).2 run ?_⟩
    rwa [← hruns _ (h.refreshes hp).1]
  loads hp := (h.loads hp).congr hjobs
  cancels hp := (h.cancels hp).congr hjobs

/-- The points at which a transaction relies on nothing it has read. -/
def Point.quiet : Point → Bool
  | .updateJob _ | .updateRun .. | .lockJobs .. | .cancelJobs _ => false
  | _ => true

theorem knows_quiet (h : tx.point.quiet) : Knows db tx where
  acks _ hp := by rw [hp] at h; cases h
  refreshes hp := by rw [hp] at h; cases h
  loads hp := by rw [hp] at h; cases h
  cancels hp := by rw [hp] at h; cases h

theorem knows_loads {todo} (hp : tx.point = .lockJobs todo jobs) (h : Loaded db tx jobs) : Knows db tx where
  acks _ hp' := by rw [hp] at hp'; cases hp'
  refreshes hp' := by rw [hp] at hp'; cases hp'
  loads hp' := by rw [hp] at hp'; cases hp'; exact h
  cancels hp' := by rw [hp] at hp'; cases hp'

theorem knows_cancels (hp : tx.point = .cancelJobs jobs) (h : Loaded db tx jobs) : Knows db tx where
  acks _ hp' := by rw [hp] at hp'; cases hp'
  refreshes hp' := by rw [hp] at hp'; cases hp'
  loads hp' := by rw [hp] at hp'; cases hp'
  cancels hp' := by rw [hp] at hp'; cases hp'; exact h

/-- The `UPDATE` of a job row moves it forward. -/
theorem jobUpdate_kept (hknows : Knows db tx) (hpasses : stillPasses db tx) {set : JobRow → JobRow} {row}
    (hupdate : jobUpdate tx = some (id, set)) (hrow : (db.jobRuns.visible tx.jobs).lookup id = some row) :
    JobKept row (set row) := by
  unfold jobUpdate at hupdate
  split at hupdate
  · -- AckDispatched: the row is queued or dispatched
    rename_i job id' obj now hp ho
    cases hupdate
    have hjob : job.status = .dispatched := hknows.acks ho hp
    simp only [stillPasses, hp, ho, hrow, Bool.or_eq_true, beq_iff_eq] at hpasses
    refine ⟨rfl, rfl, ?_, fun hterm => ?_⟩
    · rcases hpasses with hs | hs <;> simp [setAck, hjob, hs, jobRank]
    · rcases hpasses with hs | hs <;> simp [hs, JobRunStatus.isTerminal] at hterm
  · -- ApplyObserved: the row is not terminal, and may advance to the status
    rename_i job id' phase now hp ho
    cases hupdate
    simp only [stillPasses, hp, ho, hrow, Bool.and_eq_true, Bool.not_eq_true'] at hpasses
    obtain ⟨hopen, hadvance⟩ := hpasses
    refine ⟨rfl, rfl, jobRank_le_of_canAdvanceJob hadvance, fun hterm => ?_⟩
    rw [hopen] at hterm
    cases hterm
  · -- CancelRun: the row is as it was locked, and so it is not terminal, or it is cancelled already
    rename_i job rest runID now hp ho
    cases htrans : transitionJob job.status .cancelled with
    | error err => rw [htrans] at hupdate; cases hupdate
    | ok next =>
      rw [htrans] at hupdate
      cases hupdate
      obtain ⟨rfl, hcan⟩ := transitionJob_eq_ok htrans
      have hs := ((hknows.cancels hp) job (.head _)).2 row hrow
      have hopen : job.status.isTerminal = false := by
        by_contra hterm
        rw [Bool.not_eq_false] at hterm
        simp [canTransitionJob, hterm] at hcan
      refine ⟨rfl, rfl, ?_, fun hterm => ?_⟩
      · show jobRank row.status ≤ 3
        cases row.status <;> simp [jobRank]
      · rcases hs with hs | hs
        · rw [hs, hopen] at hterm; cases hterm
        · exact hs.symm
  · cases hupdate

/-- The `UPDATE` of a run row does not overwrite a terminal status. -/
theorem runUpdate_kept (hknows : Knows db tx) (hpasses : stillPasses db tx) {id} {set : RunRecord → RunRecord} {run}
    (hupdate : runUpdate tx = some (id, set)) (hrun : (db.workflowRuns.visible tx.runs).lookup id = some run) :
    RunKept run (set run) := by
  unfold runUpdate at hupdate
  split at hupdate
  · rename_i runID next finished _ _ _ hp ho
    cases hupdate
    exact fun hterm => canAdvanceRun_sticky hterm ((hknows.refreshes hp).2 run hrun)
  · rename_i runID now hp ho
    cases hupdate
    simp only [stillPasses, hp, ho, hrun, Bool.not_eq_true'] at hpasses
    intro hterm
    rw [hpasses] at hterm
    cases hterm
  · cases hupdate

theorem ackDispatched_knows {obj} : Knows (ackDispatched db tx id obj).1 (ackDispatched db tx id obj).2 := by
  have hupdate : ∀ job : JobRunRecord, job.status = .dispatched → Knows db { tx with point := .updateJob job } := by
    intro job hjob
    refine ⟨fun _ hp => ?_, fun hp => (by cases hp), fun hp => (by cases hp), fun hp => (by cases hp)⟩
    obtain rfl := Point.updateJob.inj hp
    exact hjob
  unfold ackDispatched
  split
  · exact knows_quiet rfl
  · dsimp only
    split
    · rename_i hstatus
      split_ifs
      · exact knows_quiet rfl
      · exact hupdate _ hstatus
    · split
      · exact knows_quiet rfl
      · rename_i next hnext
        exact hupdate _ (transitionJob_eq_ok hnext).1
    · exact knows_quiet rfl

theorem applyObserved_knows {phase} (hop : tx.op = .applyObserved id phase now) :
    Knows (applyObserved db tx id phase now).1 (applyObserved db tx id phase now).2 := by
  unfold applyObserved
  split
  · exact knows_quiet rfl
  · dsimp only
    split_ifs
    · exact knows_quiet rfl
    · split
      · exact knows_quiet rfl
      · split_ifs
        · refine ⟨fun ho => ?_, fun hp => (by cases hp), fun hp => (by cases hp), fun hp => (by cases hp)⟩
          rw [hop] at ho
          cases ho
        · exact knows_quiet rfl

theorem cancelRun_knows {id} : Knows (cancelRun db tx id).1 (cancelRun db tx id).2 := by
  unfold cancelRun
  split
  · exact knows_quiet rfl
  · split_ifs <;> exact knows_quiet rfl

theorem selectRunID_knows : Knows (selectRunID db tx id).1 (selectRunID db tx id).2 := by
  unfold selectRunID
  split <;> exact knows_quiet rfl

theorem execUpdateJob_knows_quiet {set : JobRow → JobRow} {next} (hnext : next.quiet)
    (h : execUpdateJob db tx id set next = some out) : Knows out.1 out.2 := by
  unfold execUpdateJob at h
  split at h
  · cases h
    exact knows_quiet hnext
  · split_ifs at h
    cases h
    exact knows_quiet hnext

theorem execUpdateRun_knows_quiet {id} {set : RunRecord → RunRecord} {next} (hnext : next.quiet)
    (h : execUpdateRun db tx id set next = some out) : Knows out.1 out.2 := by
  unfold execUpdateRun at h
  split at h
  · cases h
    exact knows_quiet hnext
  · split_ifs at h
    cases h
    exact knows_quiet hnext

theorem lockRun_knows {runID next} (h : lockRun db tx runID next now = some out) : Knows out.1 out.2 := by
  unfold lockRun at h
  split at h
  · cases h
    exact knows_quiet rfl
  · rename_i run hrun
    split at h
    · split at h
      · cases h
        exact knows_quiet rfl
      · rename_i hadvance
        rw [not_or, Bool.not_eq_false] at hadvance
        cases h
        refine ⟨fun _ hp => (by cases hp), fun hp => ?_, fun hp => (by cases hp), fun hp => (by cases hp)⟩
        obtain ⟨rfl, rfl, -⟩ := Point.updateRun.inj hp
        refine ⟨(Access.mem_held_lock ..).mpr (.inl rfl), fun run' hrun' => ?_⟩
        rw [Table.visible_lock, hrun, Option.some_inj] at hrun'
        exact hrun' ▸ hadvance.1
    · cases h

theorem lockJob_knows {runID todo} (hkeyed : Keyed db) (hsound : Sound JobKept db.jobRuns tx.jobs)
    (hloaded : Loaded db tx jobs) (h : lockJob db tx runID id todo jobs = some out) : Knows out.1 out.2 := by
  unfold lockJob at h
  split at h
  · cases h
    exact knows_loads rfl hloaded
  · rename_i row hrow
    split at h
    · cases h
      refine knows_loads rfl ?_
      -- the row is filed under its id, so the record that is returned names the row that is locked
      obtain ⟨c, hc, hkept⟩ := hsound.visible JobKept.refl hrow
      have hid : row.id = id := hkept.id.trans (hkeyed id c hc)
      have hold : ∀ job ∈ jobs, job.id ∈ (tx.jobs.lock id).held ∧
          ∀ row, ((db.jobRuns.lock tx.jobs id).visible (tx.jobs.lock id)).lookup job.id = some row →
            row.status = job.status ∨ row.status = .cancelled := by
        intro job hjob
        rw [Table.visible_lock]
        exact ⟨(Access.mem_held_lock ..).mpr (.inr (hloaded job hjob).1), (hloaded job hjob).2⟩
      intro job hjob
      split_ifs at hjob
      · rcases List.mem_append.mp hjob with hj | hj
        · exact hold job hj
        · rw [List.mem_singleton] at hj
          subst hj
          refine ⟨(Access.mem_held_lock ..).mpr (.inl hid), fun row' hrow' => .inl ?_⟩
          rw [Table.visible_lock, hid, hrow, Option.some_inj] at hrow'
          rw [← hrow']
      · exact hold job hjob
    · cases h

/-- A job that CancelRun updates is cancelled, and the other rows stay. -/
theorem cancelJob_knows {job rest next} (hnext : next = .cancelled) (hloaded : Loaded db tx (job :: rest))
    (h : execUpdateJob db tx job.id (setCancelled next now) (.cancelJobs rest) = some out) : Knows out.1 out.2 := by
  have hrest : ∀ job' ∈ rest, job'.id ∈ tx.jobs.held ∧ ∀ row, (db.jobRuns.visible tx.jobs).lookup job'.id = some row →
        row.status = job'.status ∨ row.status = .cancelled :=
    fun job' hjob' => hloaded job' (.tail _ hjob')
  unfold execUpdateJob at h
  split at h
  · cases h
    exact knows_cancels rfl hrest
  · split_ifs at h
    cases h
    refine knows_cancels rfl fun job' hjob' => ?_
    refine ⟨(Access.mem_held_lock ..).mpr (.inr (hrest job' hjob').1), fun row hrow => ?_⟩
    rw [Table.visible_write, Table.visible_lock] at hrow
    split_ifs at hrow
    · rw [← Option.some.inj hrow]
      exact .inr hnext
    · exact (hrest job' hjob').2 row hrow

theorem exec_knows (hkeyed : Keyed db) (hinv : TxInv db tx) (h : exec db tx = some out) : Knows out.1 out.2 := by
  unfold exec at h
  split at h
  · cases h
    exact ackDispatched_knows
  · rename_i hp ho
    cases h
    exact applyObserved_knows ho
  · cases h
    exact cancelRun_knows
  · exact execUpdateJob_knows_quiet rfl h
  · exact execUpdateJob_knows_quiet rfl h
  · cases h
    exact selectRunID_knows
  · cases h
    exact knows_quiet rfl
  · exact lockRun_knows h
  · exact execUpdateRun_knows_quiet rfl h
  · cases h
    exact knows_loads rfl fun job hjob => absurd hjob List.not_mem_nil
  · rename_i hp ho
    cases h
    exact knows_cancels rfl (hinv.knows.loads hp)
  · rename_i hp ho
    exact lockJob_knows hkeyed hinv.jobs (hinv.knows.loads hp) h
  · cases h
    exact knows_quiet rfl
  · rename_i job rest runID now hp ho
    have hloaded := hinv.knows.cancels hp
    split at h
    · cases h
      exact knows_cancels rfl fun job' hjob' => hloaded job' (.tail _ hjob')
    · rename_i next hnext
      exact cancelJob_knows (transitionJob_eq_ok hnext).1 hloaded h
  · exact execUpdateRun_knows_quiet rfl h
  · cases h
    exact knows_quiet rfl
  · cases h

theorem CheckedStep.moves {tx'} (h : CheckedStep db tx db' tx') (hinv : TxInv db tx) :
    Moves JobKept RunKept db tx (db', tx') := by
  cases h with
  | exec passes h =>
    exact exec_moves (fun _ _ _ hupdate hrow => jobUpdate_kept hinv.knows passes hupdate hrow)
      (fun _ _ _ hupdate hrun => runUpdate_kept hinv.knows passes hupdate hrun) h
  | fail err h => exact moves_rollback err

/-- No row is locked by both. -/
def Apart (tx tx' : Tx) : Prop := tx.jobs.Apart tx'.jobs ∧ tx.runs.Apart tx'.runs

theorem apart_begin {tx'} (h : Begins tx) : Apart tx tx' ∧ Apart tx' tx := by
  obtain ⟨op, rfl⟩ := h
  have hnone : Apart (Tx.begin op) tx' :=
    ⟨fun k hk => absurd hk List.not_mem_nil, fun k hk => absurd hk List.not_mem_nil⟩
  exact ⟨hnone, hnone.1.symm, hnone.2.symm⟩

theorem keyed_of_rowsKept (hkeyed : Keyed db) (h : RowsKept JobKept db.jobRuns db'.jobRuns) : Keyed db' := by
  intro id row' hrow'
  obtain ⟨row, hrow, hkept⟩ := Both.before (h id) hrow'
  exact hkept.id.trans (hkeyed id row hrow)

theorem checked_proof : Proof Begins CheckedStep Keyed TxInv (fun _ => Apart) where
  spawn _ hbegins := by
    obtain ⟨op, rfl⟩ := hbegins
    exact ⟨sound_nothing, sound_nothing, knows_quiet rfl⟩
  spawn_pair _ hbegins _ := apart_begin hbegins
  shared hkeyed hinv hstep :=
    keyed_of_rowsKept hkeyed ((hstep.moves hinv).jobs.rowsKept hinv.jobs JobKept.refl)
  act hkeyed hinv hstep := by
    have hmoves := hstep.moves hinv
    refine ⟨hmoves.jobs.sound hinv.jobs JobKept.refl JobKept.trans,
      hmoves.runs.sound hinv.runs RunKept.refl RunKept.trans, ?_⟩
    cases hstep with
    | exec passes h => exact exec_knows hkeyed hinv h
    | fail err h => exact knows_quiet rfl
  act_pair _ hinv hother hapart _ hstep := by
    have hmoves := hstep.moves hinv
    have hnew : Apart _ _ := ⟨hmoves.jobs.apart hother.jobs hapart.1, hmoves.runs.apart hother.runs hapart.2⟩
    exact ⟨hnew, hnew.1.symm, hnew.2.symm⟩
  keep _ hinv hother hapart _ hstep := by
    have hmoves := hstep.moves hinv
    refine ⟨hmoves.jobs.sound_other hinv.jobs hother.jobs hapart.1,
      hmoves.runs.sound_other hinv.runs hother.runs hapart.2, ?_⟩
    exact hother.knows.congr (fun _ hid => hmoves.jobs.visible_of_held hinv.jobs hapart.1 hid)
      (fun _ hid => hmoves.runs.visible_of_held hinv.runs hapart.2 hid)
  keep_pair _ _ _ _ hapart _ := hapart

theorem rowsKept_reaches {c c'} (hc : Holds Keyed TxInv (fun _ => Apart) c)
    (h : Interleaving.Reaches Begins CheckedStep c c') : RowsKept JobKept c.shared.jobRuns c'.shared.jobRuns ∧
      RowsKept RunKept c.shared.workflowRuns c'.shared.workflowRuns := by
  induction h with
  | refl => exact ⟨.refl JobKept.refl _, .refl RunKept.refl _⟩
  | tail hreach hturn ih =>
    have hholds := checked_proof.reaches hc hreach
    cases hturn with
    | spawn started => exact ih
    | act proc stepped =>
      have hinv := hholds.proc proc
      have hmoves := stepped.moves hinv
      exact ⟨ih.1.trans JobKept.trans (hmoves.jobs.rowsKept hinv.jobs JobKept.refl),
        ih.2.trans RunKept.trans (hmoves.runs.rowsKept hinv.runs RunKept.refl)⟩

/-- In every interleaving in which each `UPDATE` finds a row that still passes the check made before, committed
statuses move forward: a job row does not fall in rank, and job and run rows keep a terminal status. -/
theorem statuses_forward {db : Db} (hkeyed : Keyed db) {c c' : Interleaving.Config Db Tx}
    (hc : Interleaving.Reaches Begins CheckedStep ⟨db, []⟩ c) (hc' : Interleaving.Reaches Begins CheckedStep c c') :
    (∀ id row, c.shared.jobRuns.rows.lookup id = some row →
      ∃ row', c'.shared.jobRuns.rows.lookup id = some row' ∧ jobRank row.status ≤ jobRank row'.status ∧
        (row.status.isTerminal → row'.status = row.status)) ∧
      ∀ id run, c.shared.workflowRuns.rows.lookup id = some run →
        ∃ run', c'.shared.workflowRuns.rows.lookup id = some run' ∧
          (run.status.isTerminal → run'.status = run.status) := by
  have hholds := checked_proof.reaches (holds_idle hkeyed) hc
  obtain ⟨hjobs, hruns⟩ := rowsKept_reaches hholds hc'
  refine ⟨fun id row hrow => ?_, fun id run hrun => ?_⟩
  · obtain ⟨row', hrow', hkept⟩ := Both.after (hjobs id) hrow
    exact ⟨row', hrow', hkept.rank, hkept.terminal⟩
  · exact Both.after (hruns id) hrun

/-- A job row of the run `r`. -/
def jobRow (id : JobRunID) (status : JobRunStatus) : JobRow where
  id := id
  runID := "r"
  jobKey := id
  runnerClass := "linux"
  dependsOn := []
  matrix := none
  planDigest := ""
  condition := ""
  status := status
  attempt := 1
  activeName := ""
  activeUID := ""
  createdAt := 0
  dispatchedAt := none
  startedAt := none
  finishedAt := none
  activeCollectedAt := none
  claimedAt := none

/-- A database with the run `r` and jobs of it. -/
def dbOf (status : WorkflowRunStatus) (jobs : List (JobRunID × JobRunStatus)) : Db where
  jobRuns := { rows := jobs.foldr (fun j rows => rows.insert j.1 (jobRow j.1 j.2)) ∅, locked := [] }
  workflowRuns :=
    { rows := (∅ : GoMap RunID RunRecord).insert "r"
        { id := "r"
          event := { provider := "github", name := "push", deliveryID := "d", sha := "", ref := "",
                     actor := "", repository := { provider := "github", owner := "o", name := "n" } }
          delivery := { provider := "github", deliveryID := "d" }
          status := status
          createdAt := 0
          finishedAt := none }
      locked := [] }

/-- AckDispatched writes `dispatched` over `cancelled`, and CancelRun `cancelled` over `succeeded`. -/
theorem statuses_overwritten : (∃ c c', Reaches ⟨dbOf .queued [("a", .queued)], []⟩ c ∧ Reaches c c' ∧
      (c.shared.jobRuns.rows.lookup "a").map (·.status) = some .cancelled ∧
      (c'.shared.jobRuns.rows.lookup "a").map (·.status) = some .dispatched) ∧
    ∃ c c', Reaches ⟨dbOf .running [("a", .running)], []⟩ c ∧ Reaches c c' ∧
      (c.shared.workflowRuns.rows.lookup "r").map (·.status) = some .succeeded ∧
      (c'.shared.workflowRuns.rows.lookup "r").map (·.status) = some .cancelled := by
  refine ⟨⟨_, _, .head (.spawn ⟨.ackDispatched "a" ⟨"jobrun-a", "u"⟩ 1, rfl⟩) (.head (.spawn ⟨.cancelRun "r" 2, rfl⟩)
      (reaches_of_play TxStep.exec [0, 1, 1, 1, 1, 1, 1, 1, 1] rfl)),
      reaches_of_play TxStep.exec [0, 0] rfl, rfl, rfl⟩, ?_⟩
  exact ⟨_, _, .head (.spawn ⟨.cancelRun "r" 1, rfl⟩) (.head (.spawn ⟨.applyObserved "a" .succeeded 2, rfl⟩)
      (reaches_of_play TxStep.exec [0, 1, 1, 1, 1, 1, 1, 1] rfl)),
    reaches_of_play TxStep.exec [0, 0, 0, 0, 0, 0, 0] rfl, rfl, rfl⟩

theorem keyed_dbOf_single (status : WorkflowRunStatus) (id : JobRunID) (job : JobRunStatus) :
    Keyed (dbOf status [(id, job)]) := by
  intro id' row hrow
  simp only [dbOf, List.foldr_cons, List.foldr_nil, GoMap.lookup_insert_ite, AList.lookup_empty] at hrow
  split_ifs at hrow with heq
  rw [← Option.some.inj hrow, heq]
  rfl

/-- AckDispatched, and then CancelRun: the job is dispatched, and cancelled later. -/
theorem statuses_forward_ack_cancel :
    ∃ c c' row, Interleaving.Reaches Begins CheckedStep ⟨dbOf .queued [("a", .queued)], []⟩ c ∧
      Interleaving.Reaches Begins CheckedStep c c' ∧
      c.shared.jobRuns.rows.lookup "a" = some row ∧ row.status = .dispatched ∧
      (c'.shared.jobRuns.rows.lookup "a").map (·.status) = some .cancelled ∧
      ∃ row', c'.shared.jobRuns.rows.lookup "a" = some row' ∧ jobRank row.status ≤ jobRank row'.status ∧
        (row.status.isTerminal → row'.status = row.status) := by
  have hplay : ∀ (schedule : List Nat) {c c' : Config Db Tx},
      play (fun db tx => if stillPasses db tx then exec db tx else none) schedule c = some c' →
        Interleaving.Reaches Begins CheckedStep c c' := by
    intro schedule c c' h
    refine reaches_of_play (fun hexec => ?_) schedule h
    split_ifs at hexec with hpasses
    exact .exec hpasses hexec
  have hreach : Interleaving.Reaches Begins CheckedStep ⟨dbOf .queued [("a", .queued)], []⟩ _ :=
    .head (.spawn ⟨.ackDispatched "a" ⟨"jobrun-a", "u"⟩ 1, rfl⟩)
      (.head (.spawn ⟨.cancelRun "r" 2, rfl⟩) (hplay [0, 0, 0] rfl))
  refine ⟨_, _, _, hreach, hplay [1, 1, 1, 1, 1, 1, 1, 1] rfl, rfl, rfl, rfl, ?_⟩
  exact (statuses_forward (keyed_dbOf_single .queued "a" .queued) hreach (hplay [1, 1, 1, 1, 1, 1, 1, 1] rfl)).1 "a" _
    rfl

end Forgelet.Postgres
