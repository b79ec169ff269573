import Forgelet.Postgres.Proofs.RefreshProofs

/-!
# Proofs: no aggregate is lost

If all open jobs of a run are being ended by transactions that are past their read of the statuses, one of these is
about to make the run terminal, as long as each that reads an open job reads one that none of the others is ending.
-/

namespace Forgelet.Postgres

open ReadCommitted Interleaving

variable {db db' : Db} {id : JobRunID} {runID : RunID}

section

variable (r : RunID)

/-- The transaction has ended a job of the run that is open for the others. -/
structure Ends (db : Db) (tx : Tx) (id : JobRunID) : Prop where
  written : ∃ v, tx.jobs.writes.lookup id = some v ∧ v.status.isTerminal
  stillOpen : ∃ row, db.jobRuns.rows.lookup id = some row ∧ row.runID = r ∧ row.status.isTerminal = false

/-- The transaction ends the job, and is past its read of the statuses. -/
def Closes (db : Db) (tx : Tx) (id : JobRunID) : Prop := tx.point.pastRead = true ∧ Ends r db tx id

/-- Some transaction is about to end the job. -/
def Closing (c : Config Db Tx) (id : JobRunID) : Prop :=
  ∃ (i : Nat) (tx : Tx), c.procs[i]? = some tx ∧ Closes r c.shared tx id

/-- The transaction makes the run terminal. -/
def Settles (tx : Tx) : Prop :=
  (∃ next, tx.point = .lockRun r next ∧ next.isTerminal) ∨
    (∃ next finished, tx.point = .updateRun r next finished ∧ next.isTerminal) ∨
    (tx.point = .commit ∧ ∃ run, tx.runs.writes.lookup r = some run ∧ run.status.isTerminal)

/-- The run has jobs, and each of them is terminal or being closed. -/
def AllCovered (c : Config Db Tx) : Prop :=
  (∃ id row, c.shared.jobRuns.rows.lookup id = some row ∧ row.runID = r) ∧
    ∀ id row, c.shared.jobRuns.rows.lookup id = some row → row.runID = r →
      row.status.isTerminal ∨ Closing r c id

/-- The run has jobs, and all of them are terminal. -/
def JobsDone (db : Db) : Prop :=
  (∃ id row, db.jobRuns.rows.lookup id = some row ∧ row.runID = r) ∧
    ∀ id row, db.jobRuns.rows.lookup id = some row → row.runID = r → row.status.isTerminal

/-- The run is terminal. -/
def RunDone (db : Db) : Prop :=
  ∃ run, db.workflowRuns.rows.lookup r = some run ∧ run.status.isTerminal

/-- Once all jobs are covered, the run is terminal, or a transaction is about to make it so. -/
def Lossless (c : Config Db Tx) : Prop :=
  AllCovered r c → RunDone r c.shared ∨
    ∃ (i : Nat) (tx : Tx) (id : JobRunID), c.procs[i]? = some tx ∧ Closes r c.shared tx id ∧ Settles r tx

/-- A transaction about to read the statuses sees them all terminal, or an open one that none which has read will end.
-/
def ReadsInTime (c : Config Db Tx) (tx : Tx) : Prop :=
  tx.point = .selectStatuses r → (∃ id, Ends r c.shared tx id) →
    (∀ s ∈ statusesOf c.shared tx r, s.isTerminal) ∨
      ∃ id row, (c.shared.jobRuns.visible tx.jobs).lookup id = some row ∧ row.runID = r ∧
        row.status.isTerminal = false ∧ ¬ Closing r c id

/-- One turn of ApplyObserved transactions that all read in time. -/
abbrev TimelyTurn : Config Db Tx → Config Db Tx → Prop := GuardedTurn BeginsObserved TxStep (ReadsInTime r)

variable {r} {c c' : Config Db Tx} {i : Nat} {tx tx' : Tx}

/-! ## Statements that change no row -/

theorem Ends.of_sameRows (hrows : SameRows db db') (h : Ends r db tx id) : Ends r db' tx id :=
  ⟨h.written, by rw [hrows.jobs]; exact h.stillOpen⟩

theorem SameRows.symm (h : SameRows db db') : SameRows db' db := ⟨h.jobs.symm, h.runs.symm⟩

theorem RunDone.of_sameRows (hrows : SameRows db db') (h : RunDone r db) : RunDone r db' := by
  unfold RunDone
  rw [hrows.runs]
  exact h

/-- A transaction closes only jobs whose rows it has locked. -/
theorem Ends.held (h : Ends r db tx id) (hinv : ObservedInv db tx) : id ∈ tx.jobs.held := by
  obtain ⟨v, hv, -⟩ := h.written
  exact hinv.jobs.held id v hv

theorem not_ends_nothing (h : tx.jobs = .nothing) : ¬ Ends r db tx id := by
  rintro ⟨⟨v, hv, -⟩, -⟩
  rw [h] at hv
  simp [Access.nothing] at hv

/-- An action that changes no row and closes no job loses no aggregate, if a transaction about to make the run
terminal still is or need not be. -/
theorem lossless_of_sameRows (h : Lossless r c) (hproc : c.procs[i]? = some tx) (hrows : SameRows c.shared db')
    (hback : ∀ id, Closes r c.shared tx' id → Closes r c.shared tx id)
    (hforth : ∀ id, Closes r c.shared tx id → Settles r tx → RunDone r c.shared ∨
      (Closes r c.shared tx' id ∧ Settles r tx') ∨ ¬ Closing r ⟨db', c.procs.set i tx'⟩ id) :
    Lossless r ⟨db', c.procs.set i tx'⟩ := by
  rintro ⟨⟨id₀, row₀, hrow₀, hrun₀⟩, hall⟩
  have hjobs : db'.jobRuns.rows = c.shared.jobRuns.rows := hrows.jobs
  have hcovered : AllCovered r c := by
    refine ⟨⟨id₀, row₀, hjobs ▸ hrow₀, hrun₀⟩, fun id row hrow hrun => ?_⟩
    rcases hall id row (by rw [hjobs]; exact hrow) hrun with hterm | ⟨j, q, hq, hpast, hends⟩
    · exact .inl hterm
    · have hends' : Ends r c.shared q id := hends.of_sameRows hrows.symm
      rcases getElem?_set_cases hq with ⟨-, rfl⟩ | ⟨-, hold⟩
      · exact .inr ⟨i, tx, hproc, hback id ⟨hpast, hends'⟩⟩
      · exact .inr ⟨j, q, hold, hpast, hends'⟩
  rcases h hcovered with hdone | ⟨j, q, id, hq, hcloses, hsettles⟩
  · exact .inl (hdone.of_sameRows hrows)
  · by_cases hj : j = i
    · subst hj
      obtain rfl := Option.mem_unique hproc hq
      rcases hforth id hcloses hsettles with hdone | ⟨hcloses', hsettles'⟩ | hgone
      · exact .inl (hdone.of_sameRows hrows)
      · refine .inr ⟨j, tx', id, ?_, ⟨hcloses'.1, hcloses'.2.of_sameRows hrows⟩, hsettles'⟩
        obtain ⟨hlt, -⟩ := List.getElem?_eq_some_iff.mp hproc
        exact List.getElem?_set_self hlt
      · -- the job is open and nobody closes it any more
        obtain ⟨row, hrow, hrun, hopen⟩ := hcloses.2.stillOpen
        rcases hall id row (by rw [hjobs]; exact hrow) hrun with hterm | hclosing
        · rw [hopen] at hterm; cases hterm
        · exact absurd hclosing hgone
    · exact .inr ⟨j, q, id, (List.getElem?_set_ne (Ne.symm hj)).trans hq,
        ⟨hcloses.1, hcloses.2.of_sameRows hrows⟩, hsettles⟩

/-! ## The statements -/

/-- Every transaction is where its locks say, and no two hold a row. -/
abbrev ObservedHolds (c : Config Db Tx) : Prop := Holds (fun _ => True) ObservedInv (fun _ => Apart) c

theorem lossless_spawn (h : Lossless r c) (hstart : BeginsObserved tx) : Lossless r ⟨c.shared, c.procs ++ [tx]⟩ := by
  obtain ⟨id₀, phase, now, rfl⟩ := hstart
  rintro ⟨hne, hall⟩
  have hcovered : AllCovered r c := by
    refine ⟨hne, fun id row hrow hrun => (hall id row hrow hrun).imp_right ?_⟩
    rintro ⟨j, q, hq, hcloses⟩
    rcases getElem?_concat_cases hq with ⟨-, rfl⟩ | ⟨-, hold⟩
    · exact absurd hcloses.2 (not_ends_nothing rfl)
    · exact ⟨j, q, hold, hcloses⟩
  refine (h hcovered).imp_right ?_
  rintro ⟨j, q, id, hq, hcloses, hsettles⟩
  obtain ⟨hlt, -⟩ := List.getElem?_eq_some_iff.mp hq
  exact ⟨j, q, id, (List.getElem?_append_left hlt).trans hq, hcloses, hsettles⟩

/-- A transaction that ends without a commit gives up the job it closed. -/
theorem lossless_rollback (hc : ObservedHolds c) (h : Lossless r c) (hproc : c.procs[i]? = some tx) (err : Err) :
    Lossless r ⟨(rollback c.shared tx err).1, c.procs.set i (rollback c.shared tx err).2⟩ := by
  have hrows : SameRows c.shared (rollback c.shared tx err).1 := ⟨rfl, rfl⟩
  refine lossless_of_sameRows h hproc hrows (fun id hcloses => ?_) fun id hcloses _ => .inr (.inr ?_)
  · exact absurd hcloses.2 (not_ends_nothing rfl)
  · rintro ⟨j, q, hq, -, hends⟩
    rcases getElem?_set_cases hq with ⟨-, rfl⟩ | ⟨hne, hold⟩
    · exact not_ends_nothing rfl hends
    · have hheld := hcloses.2.held (hc.proc hproc)
      have hheld' := (hends.of_sameRows hrows.symm).held (hc.proc hold)
      exact (hc.pair hne.symm hproc hold).1 id hheld hheld'

theorem mem_statusesOf {s} :
    s ∈ statusesOf db tx runID ↔ ∃ id row, (db.jobRuns.visible tx.jobs).lookup id = some row ∧
      row.runID = runID ∧ row.status = s := by
  unfold statusesOf
  simp only [List.mem_map, List.mem_filter, decide_eq_true_eq]
  constructor
  · rintro ⟨row, ⟨hrow, hrun⟩, rfl⟩
    obtain ⟨id, hid⟩ := ((db.jobRuns.visible tx.jobs).mem_values_iff row).mp (List.mem_map.mpr hrow)
    exact ⟨id, row, hid, hrun, rfl⟩
  · rintro ⟨id, row, hrow, hrun, rfl⟩
    have hmem := ((db.jobRuns.visible tx.jobs).mem_values_iff row).mpr ⟨id, hrow⟩
    exact ⟨row, ⟨List.mem_map.mp hmem, hrun⟩, rfl⟩

theorem Ends.visible (h : Ends r db tx id) (hinv : ObservedInv db tx) :
    ∃ v, (db.jobRuns.visible tx.jobs).lookup id = some v ∧ v.runID = r ∧ v.status.isTerminal := by
  obtain ⟨v, hv, hterm⟩ := h.written
  obtain ⟨row, hrow, hrun, -⟩ := h.stillOpen
  obtain ⟨row', hrow', hsame⟩ := hinv.jobs.keeps id v hv
  obtain rfl := Option.mem_unique hrow hrow'
  refine ⟨v, ?_, Eq.trans hsame hrun, hterm⟩
  rw [Table.visible_lookup, hv, Option.some_or]

/-- A transaction that reads in time will make the run terminal, or leaves a job uncovered. -/
theorem lossless_read (hc : ObservedHolds c) (h : Lossless r c) (hproc : c.procs[i]? = some tx)
    (hpoint : tx.point = .selectStatuses runID) (htimely : ReadsInTime r c tx) : Lossless r ⟨c.shared, c.procs.set i
      { tx with point := .lockRun runID (aggregateRunStatus (statusesOf c.shared tx runID)) }⟩ := by
  have hinv := hc.proc hproc
  obtain ⟨own, phase, now, hop, hown, hreads⟩ := hinv.writesOwn
  have hends : ∀ id, Ends r c.shared { tx with
      point := .lockRun runID (aggregateRunStatus (statusesOf c.shared tx runID)) } id →
      Ends r c.shared tx id := fun id he => ⟨he.written, he.stillOpen⟩
  by_cases hnone : ∀ id, ¬ Ends r c.shared tx id
  · -- it ends no job: nothing is covered that was not before
    refine lossless_of_sameRows h hproc ⟨rfl, rfl⟩ (fun id hcl => absurd (hends id hcl.2) (hnone id)) ?_
    exact fun id hcl => absurd hcl.2 (hnone id)
  obtain ⟨id, hid⟩ := not_forall_not.mp hnone
  have hidown : id = own := by
    obtain ⟨v, hv, -⟩ := hid.written
    exact hown id v hv
  have hrun : runID = r := by
    obtain ⟨row, hrow, hrowRun⟩ := hreads runID hpoint
    obtain ⟨row', hrow', hrowRun', -⟩ := hid.stillOpen
    rw [hidown] at hrow'
    rw [← hrowRun, Option.mem_unique hrow hrow', hrowRun']
  subst hrun
  intro hcovered
  rcases htimely hpoint ⟨id, hid⟩ with hall | ⟨id', row, hrow, hrowRun, hopen, hnobody⟩
  · refine .inr ⟨i, { tx with point := .lockRun runID (aggregateRunStatus (statusesOf c.shared tx runID)) },
      id, ?_, ⟨rfl, hid.written, hid.stillOpen⟩, .inl ⟨_, rfl, ?_⟩⟩
    · obtain ⟨hlt, -⟩ := List.getElem?_eq_some_iff.mp hproc
      exact List.getElem?_set_self hlt
    · rw [aggregateRunStatus_isTerminal]
      refine ⟨?_, hall⟩
      obtain ⟨v, hv, hvRun, -⟩ := hid.visible hinv
      exact List.ne_nil_of_mem (mem_statusesOf.mpr ⟨id, v, hv, hvRun, rfl⟩)
  · -- the open job it sees is not its own, and so it is a committed row that nobody closes
    have hnotOwn : tx.jobs.writes.lookup id' = none := by
      cases hw : tx.jobs.writes.lookup id' with
      | none => rfl
      | some v =>
        obtain ⟨w, hw', hterm⟩ := hid.written
        have hsame : id' = id := (hown id' v hw).trans hidown.symm
        rw [Table.visible_lookup, hsame, hw', Option.some_or, Option.some_inj] at hrow
        rw [← hrow, hterm] at hopen
        cases hopen
    rw [Table.visible_lookup, hnotOwn, Option.none_or] at hrow
    rcases hcovered.2 id' row hrow hrowRun with hterm | ⟨j, q, hq, hpast, he⟩
    · rw [hopen] at hterm; cases hterm
    · rcases getElem?_set_cases hq with ⟨-, rfl⟩ | ⟨-, hold⟩
      · obtain ⟨v, hv, -⟩ := he.written
        rw [hnotOwn] at hv
        cases hv
      · exact absurd ⟨j, q, hold, hpast, he⟩ hnobody

/-- A transaction that was about to make the run terminal finds it so, or still is. -/
theorem lossless_lockRun {next run p} (h : Lossless r c) (hproc : c.procs[i]? = some tx)
    (hpoint : tx.point = .lockRun runID next) (hsees : (c.shared.workflowRuns.visible tx.runs).lookup runID = some run)
    (hdecides : (p = .commit ∧ (canAdvanceRun run.status next = false ∨ next = run.status)) ∨
      ∃ finished, p = .updateRun runID next finished ∧ canAdvanceRun run.status next) :
    Lossless r ⟨{ c.shared with workflowRuns := c.shared.workflowRuns.lock tx.runs runID },
      c.procs.set i { tx with point := p, runs := tx.runs.lock runID }⟩ := by
  have hpast : p.pastRead := by
    rcases hdecides with ⟨rfl, -⟩ | ⟨finished, rfl, -⟩ <;> rfl
  have hpast' : tx.point.pastRead := by rw [hpoint]; rfl
  refine lossless_of_sameRows h hproc ⟨rfl, Table.lock_rows ..⟩
    (fun id hcl => ⟨hpast', hcl.2.written, hcl.2.stillOpen⟩) fun id hcl hsettles => ?_
  have hcl' : Closes r c.shared { tx with point := p, runs := tx.runs.lock runID } id :=
    ⟨hpast, hcl.2.written, hcl.2.stillOpen⟩
  -- the aggregate it computed is terminal
  obtain ⟨rfl, hterm⟩ : runID = r ∧ next.isTerminal := by simpa [Settles, hpoint] using hsettles
  rcases hdecides with ⟨rfl, hstay⟩ | ⟨finished, rfl, -⟩
  · have hrunTerm : run.status.isTerminal := by
      by_contra hopen
      rw [Bool.not_eq_true] at hopen
      rcases hstay with hno | heq
      · rw [canAdvanceRun_of_terminal hopen hterm] at hno
        cases hno
      · rw [← heq, hterm] at hopen
        cases hopen
    rw [Table.visible_lookup] at hsees
    rcases Option.or_eq_some_iff.mp hsees with hw | ⟨-, hrow⟩
    · refine .inr (.inl ⟨hcl', .inr (.inr ⟨rfl, run, ?_, hrunTerm⟩)⟩)
      rw [Access.lock_writes]
      exact hw
    · exact .inl ⟨run, hrow, hrunTerm⟩
  · exact .inr (.inl ⟨hcl', .inr (.inl ⟨next, finished, rfl, hterm⟩)⟩)

theorem lossless_updateRun {next finished run} (h : Lossless r c) (hproc : c.procs[i]? = some tx)
    (hpoint : tx.point = .updateRun runID next finished) :
    Lossless r ⟨{ c.shared with workflowRuns := c.shared.workflowRuns.lock tx.runs runID },
      c.procs.set i { tx with
        point := .commit
        runs := (tx.runs.lock runID).write runID (setRun next finished run) }⟩ := by
  have hpast : tx.point.pastRead := by rw [hpoint]; rfl
  refine lossless_of_sameRows h hproc ⟨rfl, Table.lock_rows ..⟩
    (fun id hcl => ⟨hpast, hcl.2.written, hcl.2.stillOpen⟩) fun id hcl hsettles => .inr (.inl ?_)
  obtain ⟨rfl, hterm⟩ : runID = r ∧ next.isTerminal := by simpa [Settles, hpoint] using hsettles
  exact ⟨⟨rfl, hcl.2.written, hcl.2.stillOpen⟩, .inr (.inr ⟨rfl, _, AList.lookup_insert _, hterm⟩)⟩

theorem commit_jobRuns (db : Db) (tx : Tx) (id : JobRunID) : (commit db tx).1.jobRuns.rows.lookup id =
    (tx.jobs.writes.lookup id).or (db.jobRuns.rows.lookup id) := Table.commit_lookup ..

theorem commit_workflowRuns (db : Db) (tx : Tx) (id : RunID) : (commit db tx).1.workflowRuns.rows.lookup id =
    (tx.runs.writes.lookup id).or (db.workflowRuns.rows.lookup id) := Table.commit_lookup ..

section

variable (hc : ObservedHolds c) (hproc : c.procs[i]? = some tx)
include hc hproc

/-- The commit leaves a row as it is that another transaction has locked. -/
theorem commit_lookup_held {j q} (hj : j ≠ i)
    (hq : c.procs[j]? = some q) (hid : id ∈ q.jobs.held) : tx.jobs.writes.lookup id = none ∧
      (commit c.shared tx).1.jobRuns.rows.lookup id = c.shared.jobRuns.rows.lookup id := by
  have hw : tx.jobs.writes.lookup id = none := by
    by_contra hsome
    obtain ⟨v, hv⟩ := Option.ne_none_iff_exists'.mp hsome
    have hheld := (hc.proc hproc).jobs.held id v hv
    exact (hc.pair hj.symm hproc hq).1 id hheld hid
  exact ⟨hw, by rw [commit_jobRuns, hw, Option.none_or]⟩

theorem closing_of_commit
    (h : Closing r ⟨(commit c.shared tx).1, c.procs.set i (commit c.shared tx).2⟩ id) :
    tx.jobs.writes.lookup id = none ∧ Closing r c id := by
  obtain ⟨j, q, hq, hpast, hends⟩ := h
  rcases getElem?_set_cases hq with ⟨-, rfl⟩ | ⟨hne, hold⟩
  · exact absurd hends (not_ends_nothing rfl)
  · obtain ⟨v, hv, hterm⟩ := hends.written
    have hheld := (hc.proc hold).jobs.held id v hv
    obtain ⟨hw, hsame⟩ := commit_lookup_held hc hproc hne hold hheld
    refine ⟨hw, j, q, hold, hpast, ⟨v, hv, hterm⟩, ?_⟩
    rw [← hsame]
    exact hends.stillOpen

/-- What is covered after the commit was covered before. -/
theorem allCovered_of_commit (hpoint : tx.point = .commit)
    (h : AllCovered r ⟨(commit c.shared tx).1, c.procs.set i (commit c.shared tx).2⟩) : AllCovered r c := by
  obtain ⟨⟨id₀, row₀, hrow₀, hrun₀⟩, hall⟩ := h
  have hinv := hc.proc hproc
  refine ⟨?_, fun id row hrow hrun => ?_⟩
  · rw [commit_jobRuns] at hrow₀
    rcases Option.or_eq_some_iff.mp hrow₀ with hw | ⟨-, hrow⟩
    · obtain ⟨row, hrow, hsame⟩ := hinv.jobs.keeps id₀ row₀ hw
      exact ⟨id₀, row, hrow, (Eq.symm hsame).trans hrun₀⟩
    · exact ⟨id₀, row₀, hrow, hrun₀⟩
  · have hrow' : (commit c.shared tx).1.jobRuns.rows.lookup id =
        (tx.jobs.writes.lookup id).or (some row) := by rw [commit_jobRuns, hrow]
    cases hw : tx.jobs.writes.lookup id with
    | none =>
      rw [hw, Option.none_or] at hrow'
      exact (hall id row hrow' hrun).imp_right fun hcl => (closing_of_commit hc hproc hcl).2
    | some v =>
      rw [hw, Option.some_or] at hrow'
      obtain ⟨row₁, hrow₁, hsame⟩ := hinv.jobs.keeps id v hw
      obtain rfl := Option.mem_unique hrow hrow₁
      rcases hall id v hrow' (Eq.trans hsame hrun) with hterm | hcl
      · by_cases hopen : row.status.isTerminal
        · exact .inl hopen
        · rw [Bool.not_eq_true] at hopen
          exact .inr ⟨i, tx, hproc, by rw [hpoint]; rfl, ⟨v, hw, hterm⟩, row, hrow, hrun, hopen⟩
      · have hnone := (closing_of_commit hc hproc hcl).1
        rw [hw] at hnone
        cases hnone

end

theorem RunDone.commit (h : RunDone r c.shared) (hinv : ObservedInv c.shared tx) :
    RunDone r (commit c.shared tx).1 := by
  obtain ⟨run, hrun, hterm⟩ := h
  cases hw : tx.runs.writes.lookup r with
  | none =>
    refine ⟨run, ?_, hterm⟩
    rw [commit_workflowRuns, hw, Option.none_or]
    exact hrun
  | some run' =>
    obtain ⟨run₁, hrun₁, hkept⟩ := hinv.runs.keeps r run' hw
    obtain rfl := Option.mem_unique hrun hrun₁
    refine ⟨run', ?_, by rw [hkept hterm]; exact hterm⟩
    rw [commit_workflowRuns, hw, Option.some_or]

/-- What the transaction closed is terminal now, and the run if it was about to be. -/
theorem lossless_commit (hc : ObservedHolds c) (h : Lossless r c) (hproc : c.procs[i]? = some tx)
    (hpoint : tx.point = .commit) : Lossless r ⟨(commit c.shared tx).1, c.procs.set i (commit c.shared tx).2⟩ := by
  intro hall
  rcases h (allCovered_of_commit hc hproc hpoint hall) with hdone | ⟨j, q, id, hq, hcloses, hsettles⟩
  · exact .inl (hdone.commit (hc.proc hproc))
  · by_cases hj : j = i
    · subst hj
      obtain rfl := Option.mem_unique hproc hq
      obtain ⟨run, hrun, hterm⟩ : ∃ run, tx.runs.writes.lookup r = some run ∧ run.status.isTerminal := by
        simpa [Settles, hpoint] using hsettles
      refine .inl ⟨run, ?_, hterm⟩
      rw [commit_workflowRuns, hrun, Option.some_or]
    · refine .inr ⟨j, q, id, (List.getElem?_set_ne (Ne.symm hj)).trans hq, ⟨hcloses.1, hcloses.2.written, ?_⟩, hsettles⟩
      have hheld := hcloses.2.held (hc.proc hq)
      rw [(commit_lookup_held hc hproc hj hq hheld).2]
      exact hcloses.2.stillOpen

/-! ## Interleavings -/

theorem lossless_turn (hc : ObservedHolds c) (h : Lossless r c) (hturn : TimelyTurn r c c') : Lossless r c' := by
  cases hturn with
  | spawn started => exact lossless_spawn h started
  | @act i tx tx' db' proc timely stepped =>
    have hinv := hc.proc proc
    obtain ⟨id, phase, now, hop, -⟩ := hinv.writesOwn
    cases stepped with
    | fail err hrunning => exact lossless_rollback hc h proc err
    | exec hexec =>
      have hstep := exec_observedStep hinv hop hexec
      cases hstep with
      | early rows before after _ _ =>
        -- neither before nor after does the transaction close a job
        refine lossless_of_sameRows h proc rows (fun id hcl => ?_) fun id hcl => ?_
        · exact absurd hcl.1 (by rw [after]; exact Bool.false_ne_true)
        · exact absurd hcl.1 (by rw [before]; exact Bool.false_ne_true)
      | read runID point => exact lossless_read hc h proc point timely
      | lockRun point sees decides => exact lossless_lockRun h proc point sees decides
      | updateRun point sees => exact lossless_updateRun h proc point
      | commit point => exact lossless_commit hc h proc point
      | rollback err => exact lossless_rollback hc h proc err

/-- In every interleaving of ApplyObserved transactions, failed ones included, in which those that end a job read in
time, a run whose jobs are all terminal is terminal. -/
theorem run_terminal_of_jobs_terminal {db : Db} (hstart : JobsDone r db → RunDone r db) {c : Config Db Tx}
    (hreach : Relation.ReflTransGen (TimelyTurn r) ⟨db, []⟩ c) (hjobs : JobsDone r c.shared) : RunDone r c.shared := by
  have hinv : ObservedHolds c ∧ Lossless r c := by
    clear hjobs
    induction hreach with
    | refl =>
      refine ⟨holds_idle trivial, fun ⟨hne, hall⟩ => .inl (hstart ⟨hne, fun id row hrow hrun => ?_⟩)⟩
      rcases hall id row hrow hrun with hterm | ⟨j, q, hq, -⟩
      · exact hterm
      · cases hq
    | tail _ hturn ih => exact ⟨observed_proof.turn ih.1 hturn.turn, lossless_turn ih.1 ih.2 hturn⟩
  rcases hinv.2 ⟨hjobs.1, fun id row hrow hrun => .inl (hjobs.2 id row hrow hrun)⟩ with
    hdone | ⟨j, q, id, hq, hcloses, -⟩
  · exact hdone
  · obtain ⟨row, hrow, hrun, hopen⟩ := hcloses.2.stillOpen
    rw [hjobs.2 id row hrow hrun] at hopen
    cases hopen

end

/-- Two transactions end the two jobs of a run, each reads the other's as running, and the run stays so. -/
theorem aggregate_lost : ∃ c, Interleaving.Reaches BeginsObserved TxStep
        ⟨dbOf .running [("a", .running), ("b", .running)], []⟩ c ∧
      c.procs.map (·.point) = [.returned (.ok ()), .returned (.ok ())] ∧
      c.shared.jobRuns.rows.entries.map (fun e => (e.1, e.2.runID, e.2.status)) =
        [("b", "r", .succeeded), ("a", "r", .succeeded)] ∧
      (c.shared.workflowRuns.rows.lookup "r").map (·.status) = some .running :=
  ⟨_, .head (.spawn ⟨"a", .succeeded, 1, rfl⟩) (.head (.spawn ⟨"b", .succeeded, 2, rfl⟩)
    (reaches_of_play TxStep.exec [0, 0, 1, 1, 0, 0, 1, 1, 0, 0, 1, 1] rfl)), rfl, rfl, rfl⟩

/-- The statuses are read when all are terminal, or one is open and nobody has read them yet. -/
def ReadsFirstOrLast (c : Config Db Tx) (tx : Tx) : Prop :=
  tx.point = .selectStatuses "r" → (∀ s ∈ statusesOf c.shared tx "r", s.isTerminal) ∨
    ((∀ q ∈ c.procs, q.point.pastRead = false) ∧ ∃ s ∈ statusesOf c.shared tx "r", s.isTerminal = false)

instance (c : Config Db Tx) (tx : Tx) : Decidable (ReadsFirstOrLast c tx) := inferInstanceAs (Decidable (_ → _))

theorem ReadsFirstOrLast.inTime {c tx} (h : ReadsFirstOrLast c tx) : ReadsInTime "r" c tx := by
  intro hpoint _
  refine (h hpoint).imp_right fun ⟨hnone, s, hs, hopen⟩ => ?_
  obtain ⟨id, row, hrow, hrun, rfl⟩ := mem_statusesOf.mp hs
  refine ⟨id, row, hrow, hrun, hopen, fun ⟨i, q, hq, hclosing, _⟩ => ?_⟩
  rw [hnone q (List.mem_of_getElem? hq)] at hclosing
  cases hclosing

/-- Two transactions end the two jobs of a run at the same time. The first reads the statuses while the second has not
committed, and changes nothing; the second reads them afterwards, and makes the run terminal. -/
theorem run_terminal_of_jobs_terminal_overlap :
    ∃ c, Relation.ReflTransGen (TimelyTurn "r") ⟨dbOf .running [("a", .running), ("b", .running)], []⟩ c ∧
      c.shared.jobRuns.rows.entries.map (fun e => (e.1, e.2.status)) = [("b", .succeeded), ("a", .succeeded)] ∧
      RunDone "r" c.shared := by
  obtain ⟨c, hreach, hentries, hjob⟩ : ∃ c,
      GuardedReaches BeginsObserved TxStep ReadsFirstOrLast
        ⟨dbOf .running [("a", .running), ("b", .running)], []⟩ c ∧
      c.shared.jobRuns.rows.entries.map (fun e => (e.1, e.2.status)) = [("b", .succeeded), ("a", .succeeded)] ∧
      ∃ row, c.shared.jobRuns.rows.lookup "a" = some row ∧ row.runID = "r" :=
    ⟨_, .head (.spawn ⟨"a", .succeeded, 1, rfl⟩) (.head (.spawn ⟨"b", .succeeded, 2, rfl⟩)
      (guardedReaches_of_playGuarded TxStep.exec [0, 0, 1, 1, 0, 0, 0, 0, 1, 1, 1, 1, 1] rfl)), rfl, _, rfl, rfl⟩
  have htimely := hreach.mono fun _ _ => ReadsFirstOrLast.inTime
  refine ⟨c, htimely, hentries, run_terminal_of_jobs_terminal ?_ htimely ⟨⟨"a", hjob⟩, fun id row hrow _ => ?_⟩⟩
  · exact fun hdone => absurd (hdone.2 "a" _ rfl rfl) (by decide)
  · have hmem := (GoMap.mem_entries_iff _ ⟨id, row⟩).mpr hrow
    have hstatus : (id, row.status) ∈ [("b", JobRunStatus.succeeded), ("a", JobRunStatus.succeeded)] := by
      rw [← hentries]
      exact List.mem_map_of_mem hmem
    simp only [List.mem_cons, Prod.mk.injEq, List.not_mem_nil, or_false] at hstatus
    rcases hstatus with ⟨-, hstatus⟩ | ⟨-, hstatus⟩ <;> rw [hstatus] <;> rfl

end Forgelet.Postgres
