import Forgelet.Postgres.Creation

/-!
# Proofs: one row per attempt

If the seeds have distinct job keys and RerequestJob makes its check alone, `job_runs` has at most one row for each
attempt. The proof accounts for the attempts that a transaction has reserved: those of the run it is creating, and the
next one of a job that it has found missing. Nobody else has reserved them, there is no row for them, and the
transaction writes no others.
-/

namespace Forgelet.Postgres.Creation

open ReadCommitted Interleaving

variable {ids : IDSource} {s s' : Db} {p p' q : Tx}

variable {run : RunRecord} {row : JobRow} {orig : JobRunRecord} {newID : JobRunID}

/-- A run, a job key and an attempt. -/
abbrev Attempt := RunID × String × Nat

/-- The attempt that a row is. -/
def attemptOf (row : JobRow) : Attempt := (row.runID, row.jobKey, row.attempt)

attribute [simp] Tx.creating Tx.creatingNext Tx.checking

/-- The transaction will write the attempt. -/
def Reserves (tx : Tx) (a : Attempt) : Prop :=
  (∃ run ∈ tx.creating, run.id = a.1) ∨
    ∃ orig ∈ tx.creatingNext, (orig.runID, orig.jobKey, orig.attempt + 1) = a

theorem not_reserves (hrun : p.creating = none) (hnext : p.creatingNext = none) (a : Attempt) : ¬Reserves p a := by
  rintro (⟨run, h, -⟩ | ⟨orig, h, -⟩)
  · rw [hrun] at h
    cases h
  · rw [hnext] at h
    cases h

theorem reserves_congr (hrun : p'.creating = p.creating) (hnext : p'.creatingNext = p.creatingNext) (a : Attempt) :
    Reserves p' a ↔ Reserves p a := by
  unfold Reserves
  rw [hrun, hnext]

/-! ## What a statement does to the jobs -/

/-- The points at which nothing is said about the local variables. -/
def Plain : Point → Prop
  | .insertRun _ | .insertJobs _ _ | .findNext _ | .insertNext _ _ => False
  | _ => True

/-- The effect of a statement on `job_runs`, its writes and what is reserved. -/
inductive Effect (ids : IDSource) (s : Db) (p : Tx) : Db → Tx → Prop
  | ended {s' : Db} {result : Except Err Reply} (rows : s'.jobRuns.rows = s.jobRuns.rows)
      (minted : s.minted ≤ s'.minted) : Effect ids s p s' (p.ended result)
  | committed {s' : Db} {result : Except Err Reply} (rows : s'.jobRuns.rows = p.jobs.writes ∪ s.jobRuns.rows)
      (minted : s'.minted = s.minted) : Effect ids s p s' (p.ended result)
  | moved {s' : Db} {p' : Tx} (rows : s'.jobRuns.rows = s.jobRuns.rows) (minted : s'.minted = s.minted)
      (writes : p'.jobs.writes = p.jobs.writes) (run : p'.creating = p.creating)
      (next : p'.creatingNext = p.creatingNext) (plain : Plain p'.point) : Effect ids s p s' p'
  | selected {id : JobRunID} {row : JobRow} (point : p.point = .first)
      (sees : (s.jobRuns.visible p.jobs).lookup id = some row) :
      Effect ids s p s { p with point := .findNext row.toJobRunRecord }
  | reservedRun {run : RunRecord} (point : p.point = .first) (id : run.id = ids.mint s.minted) :
      Effect ids s p (mint s) { p with point := .insertRun run }
  | reservedNext {newID : JobRunID} {orig : JobRunRecord} (point : p.point = .findNext orig)
      (missing : ∀ id row, (s.jobRuns.visible p.jobs).lookup id = some row → ¬IsNext orig row) :
      Effect ids s p (mint s) { p with point := .insertNext newID orig }
  | insertedRun {s' : Db} {p' : Tx} {run : RunRecord} {seed : RunSeed} {now : Time}
      (point : p.point = .insertRun run) (point' : p'.point = .insertJobs run seed.jobs)
      (op : p'.op = .createRun seed now) (rows : s'.jobRuns.rows = s.jobRuns.rows)
      (minted : s'.minted = s.minted) (writes : p'.jobs.writes = p.jobs.writes) : Effect ids s p s' p'
  | insertedJob {s' : Db} {p' : Tx} {run : RunRecord} {intent : JobIntent} {rest : List JobIntent} {row : JobRow}
      (point : p.point = .insertJobs run (intent :: rest)) (point' : p'.point = .insertJobs run rest)
      (op : p'.op = p.op) (attempt : attemptOf row = (run.id, intent.jobKey, 1))
      (rows : s'.jobRuns.rows = s.jobRuns.rows) (minted : s'.minted = s.minted + 1)
      (writes : p'.jobs.writes = p.jobs.writes.insert row.id row) : Effect ids s p s' p'
  | insertedNext {s' : Db} {p' : Tx} {newID : JobRunID} {orig : JobRunRecord} {row : JobRow}
      (point : p.point = .insertNext newID orig) (point' : p'.point = .lockRun newID orig)
      (attempt : attemptOf row = (orig.runID, orig.jobKey, orig.attempt + 1))
      (rows : s'.jobRuns.rows = s.jobRuns.rows) (minted : s'.minted = s.minted)
      (writes : p'.jobs.writes = p.jobs.writes.insert row.id row) : Effect ids s p s' p'

theorem effect_rollback (result : Except Err Reply) :
    Effect ids s p (rollback s p result).1 (rollback s p result).2 := .ended rfl le_rfl

theorem effect_commit (reply : Reply) : Effect ids s p (commit s p reply).1 (commit s p reply).2 :=
  .committed rfl rfl

theorem selectDelivery_effect (seed : RunSeed) (now : Time) (point : p.point = .first) :
    Effect ids s p (selectDelivery ids s p seed now).1 (selectDelivery ids s p seed now).2 := by
  unfold selectDelivery
  split
  · exact effect_rollback _
  · split
    · exact .moved rfl rfl rfl (by simp [point]) (by simp [point]) trivial
    · split_ifs
      · exact effect_rollback _
      · exact .reservedRun point rfl

theorem getRun_effect {id} (point : p.point = .getRun id) : Effect ids s p (getRun s p id).1 (getRun s p id).2 := by
  unfold getRun
  split
  · exact effect_rollback _
  · exact .moved rfl rfl rfl (by simp [point]) (by simp [point]) trivial

theorem insertRun_effect {seed now} (point : p.point = .insertRun run) (op : p.op = .createRun seed now)
    (h : insertRun s p run (.insertJobs run seed.jobs) = some (s', p')) : Effect ids s p s' p' := by
  unfold insertRun at h
  dsimp only at h
  split_ifs at h
  · cases h
    exact effect_rollback _
  · cases h
    exact effect_rollback _
  · cases h
    exact .insertedRun point rfl op rfl rfl rfl

/-- The rows and the writes after the `INSERT` of a job. -/
theorem insertJob_cases {what next} (h : insertJob s p row what next = some (s', p')) :
    (∃ err, (s', p') = rollback s p (.error err)) ∨
      s'.jobRuns.rows = s.jobRuns.rows ∧ s'.minted = s.minted ∧ p'.op = p.op ∧ p'.point = next ∧
        p'.jobs.writes = p.jobs.writes.insert row.id row := by
  unfold insertJob at h
  split_ifs at h
  · exact .inl ⟨_, (Option.some.inj h).symm⟩
  · exact .inl ⟨_, (Option.some.inj h).symm⟩
  · cases h
    refine .inr ⟨Table.lock_rows .., rfl, rfl, rfl, ?_⟩
    show (p.jobs.lock row.id).writes.insert row.id row = _
    rw [Access.lock_writes]

theorem bindDelivery_effect {key} (point : p.point = .bindDelivery run) (h : bindDelivery s p run key = some (s', p')) :
    Effect ids s p s' p' := by
  have hrun : Tx.creating p = some run := by simp [point]
  have hnext : Tx.creatingNext p = none := by simp [point]
  unfold bindDelivery at h
  split at h
  · cases h
    exact .moved rfl rfl rfl hrun.symm hnext.symm trivial
  · split_ifs at h <;> cases h <;> exact .moved rfl rfl rfl hrun.symm hnext.symm trivial

theorem selectJob_effect (id : JobRunID) (point : p.point = .first) :
    Effect ids s p (selectJob s p id).1 (selectJob s p id).2 := by
  unfold selectJob
  cases hrow : (s.jobRuns.visible p.jobs).lookup id with
  | none => exact effect_rollback _
  | some row => exact .selected point hrow

theorem findNext_effect (point : p.point = .findNext orig) :
    Effect ids s p (findNext ids s p orig).1 (findNext ids s p orig).2 := by
  unfold findNext
  cases hfind : ((s.jobRuns.visible p.jobs).entries.map (·.2)).find? fun row => IsNext orig row with
  | some row => exact effect_rollback _
  | none =>
    refine .reservedNext point fun id row hrow hnext => ?_
    have hmem := (GoMap.mem_values_iff _ row).mpr ⟨id, hrow⟩
    exact List.find?_eq_none.mp hfind row hmem (decide_eq_true hnext)

theorem insertNext_effect {now} (point : p.point = .insertNext newID orig)
    (h : insertJob s p (nextJob newID orig now) "postgres: insert rerequest: " (.lockRun newID orig) = some (s', p')) :
    Effect ids s p s' p' := by
  rcases insertJob_cases h with ⟨err, heq⟩ | ⟨hrows, hminted, -, hpoint, hwrites⟩
  · cases heq
    exact effect_rollback _
  · exact .insertedNext point hpoint rfl hrows hminted hwrites

theorem lockRun_effect (point : p.point = .lockRun newID orig) (h : lockRun s p newID orig = some (s', p')) :
    Effect ids s p s' p' := by
  have hrun : p.creating = none := by simp [point]
  have hnext : p.creatingNext = some orig := by simp [point]
  unfold lockRun at h
  split at h
  · cases h
    exact .moved rfl rfl rfl hrun.symm hnext.symm trivial
  · split_ifs at h <;> cases h <;> exact .moved rfl rfl rfl hrun.symm hnext.symm trivial

theorem reopenRun_effect (point : p.point = .reopenRun newID orig) (h : reopenRun s p newID orig = some (s', p')) :
    Effect ids s p s' p' := by
  have hrun : p.creating = none := by simp [point]
  have hnext : p.creatingNext = some orig := by simp [point]
  unfold reopenRun at h
  split at h
  · cases h
    exact .moved rfl rfl rfl hrun.symm hnext.symm trivial
  · split_ifs at h
    cases h
    exact .moved rfl rfl rfl hrun.symm hnext.symm trivial

theorem exec_effect (h : exec ids s p = some (s', p')) : Effect ids s p s' p' := by
  have hstep : ∀ {out : Db × Tx}, Effect ids s p out.1 out.2 → some out = some (s', p') → Effect ids s p s' p' := by
    intro out hout heq
    cases heq
    exact hout
  unfold exec at h
  split at h
  next point op => exact hstep (selectDelivery_effect _ _ point) h
  next point op => exact hstep (getRun_effect point) h
  next point op => exact insertRun_effect point op h
  next point op =>
    cases h
    exact .moved rfl rfl rfl (by simp [point]) (by simp [point]) trivial
  next point op =>
    rcases insertJob_cases h with ⟨err, heq⟩ | ⟨hrows, hminted, hop, hpoint, hwrites⟩
    · cases heq
      exact .ended rfl (Nat.le_succ _)
    · exact .insertedJob point hpoint hop rfl hrows hminted hwrites
  next point op => exact bindDelivery_effect point h
  next point op => exact hstep (effect_commit _) h
  next point op => exact hstep (selectJob_effect _ point) h
  next point op => exact hstep (findNext_effect point) h
  next point op => exact insertNext_effect point h
  next point op => exact lockRun_effect point h
  next point op => exact reopenRun_effect point h
  next point op => exact hstep (effect_commit _) h
  next => cases h

theorem step_effect (h : TxStep ids s p s' p') : Effect ids s p s' p' := by
  cases h with
  | exec h => exact exec_effect h
  | fail err h => exact effect_rollback _

theorem Effect.minted_le (h : Effect ids s p s' p') : s.minted ≤ s'.minted := by
  cases h with
  | ended rows minted => exact minted
  | committed rows minted | moved rows minted | insertedRun _ _ _ rows minted | insertedNext _ _ _ rows minted =>
    exact minted.ge
  | selected => exact le_rfl
  | reservedRun | reservedNext => exact Nat.le_succ _
  | insertedJob _ _ _ _ rows minted => exact minted ▸ Nat.le_succ _

/-- A row after a statement was there before, or is committed by the transaction. -/
theorem Effect.rows (h : Effect ids s p s' p') {id} (hrow : s'.jobRuns.rows.lookup id = some row) :
    s.jobRuns.rows.lookup id = some row ∨ p.jobs.writes.lookup id = some row := by
  have hsame : s'.jobRuns.rows = s.jobRuns.rows → s.jobRuns.rows.lookup id = some row :=
    fun heq => heq ▸ hrow
  cases h with
  | committed rows =>
    rw [rows, GoMap.lookup_union_or] at hrow
    exact (Option.or_eq_some_iff.mp hrow).symm.imp_left And.right
  | ended rows | moved rows | insertedRun _ _ _ rows | insertedJob _ _ _ _ rows | insertedNext _ _ _ rows =>
    exact .inl (hsame rows)
  | selected | reservedRun | reservedNext => exact .inl hrow

/-! ## The account of the reserved attempts -/

theorem Minted.mono {n n' id} (h : Minted ids n id) (hle : n ≤ n') : Minted ids n' id := by
  obtain ⟨m, hm, heq⟩ := h
  exact ⟨m, lt_of_lt_of_le hm hle, heq⟩

theorem not_minted_mint (n : Nat) : ¬Minted ids n (ids.mint n) := by
  rintro ⟨m, hm, heq⟩
  exact absurd (ids.mint_injective heq) (Nat.ne_of_lt hm)

/-- What a transaction has written at each point. -/
def Placed (ids : IDSource) (s : Db) (p : Tx) : Prop :=
  match p.point with
  | .insertRun _ | .insertNext _ _ => ∀ id, p.jobs.writes.lookup id = none
  | .insertJobs _ todo => ∃ seed now done, p.op = .createRun seed now ∧ seed.jobs = done ++ todo ∧
      ∀ id row, p.jobs.writes.lookup id = some row → row.jobKey ∈ done.map (·.jobKey)
  | .findNext orig => Minted ids s.minted orig.runID
  | _ => True

/-- The rows that are there: one per attempt, of runs whose ids were minted. -/
structure Recorded (ids : IDSource) (s : Db) : Prop where
  unique : ∀ id id' row row', s.jobRuns.rows.lookup id = some row → s.jobRuns.rows.lookup id' = some row' →
    attemptOf row = attemptOf row' → id = id'
  minted : ∀ id row, s.jobRuns.rows.lookup id = some row → Minted ids s.minted row.runID

/-- No one else has the attempts that a transaction will write. -/
structure Reserved (ids : IDSource) (s : Db) (p : Tx) : Prop where
  free : ∀ a, Reserves p a → ∀ id row, s.jobRuns.rows.lookup id = some row → attemptOf row ≠ a
  minted : ∀ a, Reserves p a → Minted ids s.minted a.1
  written : ∀ id row, p.jobs.writes.lookup id = some row → Reserves p (attemptOf row)
  distinct : ∀ id id' row row', p.jobs.writes.lookup id = some row → p.jobs.writes.lookup id' = some row' →
    attemptOf row = attemptOf row' → id = id'
  placed : Placed ids s p

/-- The transactions have reserved nothing in common, and none checks a job whose run the other creates. -/
structure Apart (p q : Tx) : Prop where
  reserved : ∀ a, Reserves p a → ¬Reserves q a
  checked : ∀ orig ∈ p.checking, ∀ run ∈ q.creating, run.id ≠ orig.runID

theorem Reserved.placed_at (h : Reserved ids s p) {point} (hpoint : p.point = point) :
    Placed ids s { p with point := point } := by
  subst hpoint
  exact h.placed

theorem reserved_unwritten (hwrites : ∀ id, p.jobs.writes.lookup id = none)
    (hfree : ∀ a, Reserves p a → ∀ id row, s.jobRuns.rows.lookup id = some row → attemptOf row ≠ a)
    (hminted : ∀ a, Reserves p a → Minted ids s.minted a.1) (hplaced : Placed ids s p) : Reserved ids s p where
  free := hfree
  minted := hminted
  written id row h := by rw [hwrites id] at h; cases h
  distinct id _ row _ h := by rw [hwrites id] at h; cases h
  placed := hplaced

theorem reserved_nothing (hrun : p.creating = none) (hnext : p.creatingNext = none)
    (hwrites : ∀ id, p.jobs.writes.lookup id = none) (hplaced : Placed ids s p) : Reserved ids s p :=
  reserved_unwritten hwrites (fun a ha => absurd ha (not_reserves hrun hnext a))
    (fun a ha => absurd ha (not_reserves hrun hnext a)) hplaced

theorem Reserved.unwritten (h : Reserved ids s p) (hrun : p.creating = none) (hnext : p.creatingNext = none)
    (id : JobRunID) : p.jobs.writes.lookup id = none := by
  cases hw : p.jobs.writes.lookup id with
  | none => rfl
  | some row => exact absurd (h.written id row hw) (not_reserves hrun hnext _)

theorem Reserved.unwritten_first (h : Reserved ids s p) (point : p.point = .first) (id : JobRunID) :
    p.jobs.writes.lookup id = none :=
  h.unwritten (by simp [point]) (by simp [point]) id

theorem Reserved.unwritten_findNext (h : Reserved ids s p) (point : p.point = .findNext orig) (id : JobRunID) :
    p.jobs.writes.lookup id = none :=
  h.unwritten (by simp [point]) (by simp [point]) id

theorem Recorded.step (hs : Recorded ids s) (hp : Reserved ids s p) (h : Effect ids s p s' p') : Recorded ids s' where
  unique id id' row row' hrow hrow' heq := by
    rcases h.rows hrow with hold | hwritten
    · rcases h.rows hrow' with hold' | hwritten'
      · exact hs.unique id id' row row' hold hold' heq
      · exact absurd heq (hp.free _ (hp.written id' row' hwritten') id row hold)
    · rcases h.rows hrow' with hold' | hwritten'
      · exact absurd heq.symm (hp.free _ (hp.written id row hwritten) id' row' hold')
      · exact hp.distinct id id' row row' hwritten hwritten' heq
  minted id row hrow := by
    rcases h.rows hrow with hold | hwritten
    · exact (hs.minted id row hold).mono h.minted_le
    · exact (hp.minted _ (hp.written id row hwritten)).mono h.minted_le

theorem Placed.mono (h : Placed ids s p) (hle : s.minted ≤ s'.minted) : Placed ids s' p := by
  unfold Placed at h ⊢
  split at h
  all_goals first | exact h | exact h.mono hle

/-- The steps of another transaction leave the account as it is. -/
theorem Reserved.keep (hp : Reserved ids s p) (hq : Reserved ids s q) (hapart : Apart p q) (h : Effect ids s p s' p') :
    Reserved ids s' q where
  free a ha id row hrow := by
    rcases h.rows hrow with hold | hwritten
    · exact hq.free a ha id row hold
    · intro heq
      exact hapart.reserved _ (hp.written id row hwritten) (heq.symm ▸ ha)
  minted a ha := (hq.minted a ha).mono h.minted_le
  written := hq.written
  distinct := hq.distinct
  placed := hq.placed.mono h.minted_le

theorem placed_plain (h : Plain p.point) : Placed ids s p := by
  unfold Placed
  split
  all_goals first | trivial | exact absurd h (by rename_i hpoint; rw [hpoint]; exact id)

section

variable (hp : Reserved ids s p) (rows : s'.jobRuns.rows = s.jobRuns.rows) (minted : s.minted ≤ s'.minted)
  (creates : p'.creating = p.creating) (next : p'.creatingNext = p.creatingNext) (placed : Placed ids s' p')
include hp rows minted creates next placed

/-- The transaction has the same reserved and written as before. -/
theorem Reserved.same (writes : p'.jobs.writes = p.jobs.writes) : Reserved ids s' p' where
  free a ha := rows ▸ hp.free a ((reserves_congr creates next a).mp ha)
  minted a ha := (hp.minted a ((reserves_congr creates next a).mp ha)).mono minted
  written id row h := (reserves_congr creates next _).mpr (hp.written id row (writes ▸ h))
  distinct := writes ▸ hp.distinct
  placed := placed

theorem Reserved.insert (writes : p'.jobs.writes = p.jobs.writes.insert row.id row)
    (reserves : Reserves p (attemptOf row))
    (unwritten : ∀ id row', p.jobs.writes.lookup id = some row' → attemptOf row' ≠ attemptOf row) :
    Reserved ids s' p' where
  free a ha := rows ▸ hp.free a ((reserves_congr creates next a).mp ha)
  minted a ha := (hp.minted a ((reserves_congr creates next a).mp ha)).mono minted
  written id row' h := by
    rw [reserves_congr creates next]
    rw [writes] at h
    rcases GoMap.lookup_insert_cases h with ⟨-, rfl⟩ | hold
    · exact reserves
    · exact hp.written id row' hold
  distinct id id' row₁ row₂ h₁ h₂ heq := by
    rw [writes] at h₁ h₂
    rcases GoMap.lookup_insert_cases h₁ with ⟨rfl, rfl⟩ | hold₁
    · rcases GoMap.lookup_insert_cases h₂ with ⟨rfl, -⟩ | hold₂
      · rfl
      · exact absurd heq.symm (unwritten id' row₂ hold₂)
    · rcases GoMap.lookup_insert_cases h₂ with ⟨-, rfl⟩ | hold₂
      · exact absurd heq (unwritten id row₁ hold₁)
      · exact hp.distinct id id' row₁ row₂ hold₁ hold₂ heq
  placed := placed

end

/-- The condition on a step, as it is used for each other transaction. -/
def Checked (p q : Tx) : Prop :=
  (∀ seed ∈ p.inserting, (seed.jobs.map (·.jobKey)).Nodup) ∧
    ∀ orig ∈ p.checking, ∀ orig' ∈ q.creatingNext, OtherAttempt orig orig'

theorem Reserved.key_unwritten (hp : Reserved ids s p) (hchecked : Checked p q) {intent rest}
    (point : p.point = .insertJobs run (intent :: rest)) {id} (h : p.jobs.writes.lookup id = some row) :
    row.jobKey ≠ intent.jobKey := by
  obtain ⟨seed, now, done, hop, hjobs, hkeys⟩ := hp.placed_at point
  have hinserting : p.inserting = some seed := by simp [Tx.inserting, point, show p.op = _ from hop]
  have hnodup := hchecked.1 seed hinserting
  rw [hjobs, List.map_append, List.map_cons, List.nodup_append] at hnodup
  exact hnodup.2.2 _ (hkeys id row h) _ (.head _)

/-- A new run: no row is there for it, as its id is new. -/
theorem Reserved.reserveRun (hs : Recorded ids s) (hp : Reserved ids s p) (point : p.point = .first)
    (id : run.id = ids.mint s.minted) : Reserved ids (mint s) { p with point := .insertRun run } := by
  have hreserves : ∀ {a}, Reserves { p with point := .insertRun run } a → a.1 = ids.mint s.minted := by
    rintro a (⟨run', hrun', heq⟩ | ⟨orig, horig, -⟩)
    · cases hrun'
      exact heq.symm.trans id
    · cases horig
  refine reserved_unwritten (hp.unwritten_first point) (fun a ha i row hrow heq => ?_)
    (fun a ha => ⟨s.minted, Nat.lt_succ_self _, (hreserves ha).symm⟩) (hp.unwritten_first point)
  have hrunID : row.runID = ids.mint s.minted := (congrArg Prod.fst heq).trans (hreserves ha)
  exact not_minted_mint s.minted (hrunID ▸ hs.minted i row hrow)

/-- The next attempt of a job: the check has found no row for it. -/
theorem Reserved.reserveNext (hp : Reserved ids s p) (point : p.point = .findNext orig)
    (missing : ∀ id row, (s.jobRuns.visible p.jobs).lookup id = some row → ¬IsNext orig row) :
    Reserved ids (mint s) { p with point := .insertNext newID orig } := by
  have hunwritten := hp.unwritten_findNext point
  have hreserves : ∀ {a}, Reserves { p with point := .insertNext newID orig } a →
      (orig.runID, orig.jobKey, orig.attempt + 1) = a := by
    rintro a (⟨run, hrun, -⟩ | ⟨orig', horig, heq⟩)
    · cases hrun
    · cases horig
      exact heq
  have hplaced : Minted ids s.minted orig.runID := hp.placed_at point
  refine reserved_unwritten hunwritten (fun a ha i row hrow heq => ?_) (fun a ha => ?_) hunwritten
  · have hsees : (s.jobRuns.visible p.jobs).lookup i = some row := by
      rw [Table.visible_lookup, hunwritten, Option.none_or]
      exact hrow
    have hattempt := heq.trans (hreserves ha).symm
    exact missing i row hsees ⟨congrArg Prod.fst hattempt, congrArg (·.2.1) hattempt, congrArg (·.2.2) hattempt⟩
  · rw [← hreserves ha]
    exact hplaced.mono (Nat.le_succ _)

theorem Reserved.placed_rest (hp : Reserved ids s p) {intent rest} (point : p.point = .insertJobs run (intent :: rest))
    (point' : p'.point = .insertJobs run rest) (op : p'.op = p.op) (key : row.jobKey = intent.jobKey)
    (writes : p'.jobs.writes = p.jobs.writes.insert row.id row) : Placed ids s' p' := by
  unfold Placed
  rw [point']
  obtain ⟨seed, now, done, hop, hjobs, hkeys⟩ := hp.placed_at point
  refine ⟨seed, now, done ++ [intent], op.trans hop, by rw [hjobs, List.append_assoc]; rfl, fun id row' hrow' => ?_⟩
  rw [List.map_append, List.mem_append]
  rw [writes] at hrow'
  rcases GoMap.lookup_insert_cases hrow' with ⟨-, rfl⟩ | hold
  · exact .inr (List.mem_singleton.mpr key)
  · exact .inl (hkeys id row' hold)

theorem Reserved.act (hs : Recorded ids s) (hp : Reserved ids s p) (hchecked : Checked p p) (h : Effect ids s p s' p') :
    Reserved ids s' p' := by
  cases h with
  | ended | committed => exact reserved_nothing rfl rfl (fun _ => AList.lookup_empty _) trivial
  | moved rows minted writes run next plain => exact hp.same rows minted.ge run next (placed_plain plain) writes
  | @selected id row point sees =>
    refine reserved_nothing rfl rfl (hp.unwritten_first point) ?_
    rw [Table.visible_lookup, hp.unwritten_first point, Option.none_or] at sees
    exact hs.minted id row sees
  | reservedRun point id => exact Reserved.reserveRun hs hp point id
  | reservedNext point missing => exact hp.reserveNext point missing
  | @insertedRun s' p' run seed now point point' op rows minted writes =>
    refine hp.same rows minted.ge (by simp [point, point']) (by simp [point, point']) ?_ writes
    unfold Placed
    rw [point']
    refine ⟨seed, now, [], op, rfl, fun id row hrow => ?_⟩
    rw [writes, hp.placed_at point id] at hrow
    cases hrow
  | @insertedJob s' p' run intent rest row point point' op attempt rows minted writes =>
    have hrun : p.creating = some run := by simp [point]
    refine hp.insert rows (minted ▸ Nat.le_succ _) (by simp [point, point']) (by simp [point, point'])
      (hp.placed_rest point point' op (congrArg (·.2.1) attempt) writes) writes
      (.inl ⟨run, hrun, congrArg Prod.fst attempt.symm⟩) fun id row' hrow' heq => ?_
    exact hp.key_unwritten hchecked point hrow' (congrArg (·.2.1) (heq.trans attempt))
  | @insertedNext s' p' newID orig row point point' attempt rows minted writes =>
    have hnext : p.creatingNext = some orig := by simp [point]
    refine hp.insert rows minted.ge (by simp [point, point']) (by simp [point, point'])
      (placed_plain (by rw [point']; exact trivial)) writes (.inr ⟨orig, hnext, attempt.symm⟩) fun id row' hrow' => ?_
    rw [hp.placed_at point id] at hrow'
    cases hrow'

/-- A transaction reserves what it had, or what no other has. -/
theorem Apart.reserved_step (hapart : Apart p q) (hq : Reserved ids s q) (hchecked : Checked p q)
    (h : Effect ids s p s' p') : ∀ a, Reserves p' a → ¬Reserves q a := by
  have hsame : p'.creating = p.creating → p'.creatingNext = p.creatingNext → ∀ a, Reserves p' a → ¬Reserves q a :=
    fun run next a ha => hapart.reserved a ((reserves_congr run next a).mp ha)
  cases h with
  | ended | committed | selected => exact fun a ha => absurd ha (not_reserves rfl rfl a)
  | moved rows minted writes run next plain => exact hsame run next
  | @reservedRun run point id =>
    rintro a (⟨run', hrun', heq⟩ | ⟨orig, horig, -⟩) hother
    · cases hrun'
      have hminted := hq.minted a hother
      rw [← heq, id] at hminted
      exact not_minted_mint s.minted hminted
    · cases horig
  | @reservedNext newID orig point missing =>
    have hchecking : p.checking = some orig := by simp [point]
    rintro a (⟨run, hrun, -⟩ | ⟨orig', horig, rfl⟩) hother
    · cases hrun
    · cases horig
      rcases hother with ⟨run, hrun, heq⟩ | ⟨other, hnext, heq⟩
      · exact hapart.checked orig hchecking run hrun heq
      · simp only [Prod.mk.injEq, Nat.add_right_cancel_iff] at heq
        exact hchecked.2 orig hchecking other hnext ⟨heq.1.symm, heq.2.1.symm, heq.2.2.symm⟩
  | insertedRun point point' | insertedJob point point' | insertedNext point point' =>
    exact hsame (by simp [point, point']) (by simp [point, point'])

theorem Plain.checking (h : Plain p.point) : p.checking = none := by
  unfold Tx.checking
  split
  next hpoint => rw [hpoint] at h; exact h.elim
  next => rfl

/-- A job that is selected is there, so nobody is creating its run. -/
theorem Apart.checked_step (hp : Reserved ids s p) (hq : Reserved ids s q) (h : Effect ids s p s' p') :
    ∀ orig ∈ p'.checking, ∀ run ∈ q.creating, run.id ≠ orig.runID := by
  have hnone : p'.checking = none → ∀ orig ∈ p'.checking, ∀ run ∈ q.creating, run.id ≠ orig.runID := by
    intro hnone orig horig
    rw [hnone] at horig
    cases horig
  cases h with
  | ended | committed | reservedRun | reservedNext => exact hnone rfl
  | moved rows minted writes run next plain => exact hnone plain.checking
  | @selected id row point sees =>
    intro orig horig run hrun heq
    cases horig
    rw [Table.visible_lookup, hp.unwritten_first point, Option.none_or] at sees
    exact hq.free _ (.inl ⟨run, hrun, heq⟩) id row sees rfl
  | insertedRun point point' | insertedJob point point' | insertedNext point point' =>
    exact hnone (by simp [point'])

/-- A new run is none that another transaction has found a job of. -/
theorem Apart.creating_step (hapart : Apart q p) (hq : Reserved ids s q) (h : Effect ids s p s' p') :
    ∀ orig ∈ q.checking, ∀ run ∈ p'.creating, run.id ≠ orig.runID := by
  have hsame : p'.creating = p.creating → ∀ orig ∈ q.checking, ∀ run ∈ p'.creating, run.id ≠ orig.runID :=
    fun heq => heq ▸ hapart.checked
  cases h with
  | ended | committed | selected | reservedNext => exact fun orig horig run hrun => by cases hrun
  | moved rows minted writes run next plain => exact hsame run
  | @reservedRun run point id =>
    intro orig horig run' hrun' heq
    cases hrun'
    have hpoint : q.point = .findNext orig := by
      unfold Tx.checking at horig
      split at horig
      next hpoint => cases horig; exact hpoint
      next => cases horig
    have hminted : Minted ids s.minted orig.runID := hq.placed_at hpoint
    rw [← heq, id] at hminted
    exact not_minted_mint s.minted hminted
  | insertedRun point point' | insertedJob point point' | insertedNext point point' =>
    exact hsame (by simp [point, point'])

theorem attempts_proof (ids : IDSource) :
    GuardedProof Begins (TxStep ids) (fun _ p q => Checked p q) (Recorded ids) (Reserved ids)
      (fun _ p q => Apart p q) where
  spawn _ := by
    rintro ⟨op, rfl⟩
    exact reserved_nothing rfl rfl (fun _ => AList.lookup_empty _) trivial
  spawn_pair _ := by
    rintro ⟨op, rfl⟩ hq
    exact ⟨⟨fun a ha => absurd ha (not_reserves rfl rfl a), fun orig horig => by cases horig⟩,
      ⟨fun a _ ha => absurd ha (not_reserves rfl rfl a), fun orig _ run hrun => by cases hrun⟩⟩
  shared hs hp _ hstep := hs.step hp (step_effect hstep)
  act hs hp hchecked hstep := Reserved.act hs hp hchecked (step_effect hstep)
  act_pair hs hp hq hchecked hapart hapart' hstep := by
    have heffect := step_effect hstep
    have hreserved := hapart.reserved_step hq hchecked heffect
    exact ⟨⟨hreserved, Apart.checked_step hp hq heffect⟩,
      ⟨fun a ha ha' => hreserved a ha' ha, hapart'.creating_step hq heffect⟩⟩
  keep _ hp hq _ hapart _ hstep := hp.keep hq hapart (step_effect hstep)
  keep_pair _ _ _ _ _ _ hapart _ := hapart

/-- If seeds have distinct job keys and the checks for the next attempt are made alone, CreateRun and RerequestJob
keep one row per attempt. -/
theorem one_row_per_attempt (ids : IDSource) (db : Db) (hone : OneRowPerAttempt db)
    (hminted : ∀ id row, db.jobRuns.rows.lookup id = some row → Minted ids db.minted row.runID) (c : Config Db Tx)
    (hreach : GuardedReaches Begins (TxStep ids) Separate ⟨db, []⟩ c) : OneRowPerAttempt c.shared := by
  have hstart : Recorded ids db := by
    refine ⟨fun id id' row row' hrow hrow' heq => ?_, hminted⟩
    exact hone id id' row row' hrow hrow' (congrArg Prod.fst heq) (congrArg (·.2.1) heq) (congrArg (·.2.2) heq)
  have hholds := (attempts_proof ids).reaches (fun hsep hq => ⟨hsep.1, fun orig horig => hsep.2 orig horig _ hq⟩)
    (holds_idle hstart) hreach
  intro id id' row row' hrow hrow' hrun hkey hattempt
  refine hholds.shared.unique id id' row row' hrow hrow' ?_
  unfold attemptOf
  rw [hrun, hkey, hattempt]

/-- The push that a delivery announces. -/
def pushOf (key : DeliveryKey) : Forgelet.Event where
  provider := key.provider
  name := "push"
  deliveryID := key.deliveryID
  repository := { provider := key.provider, owner := "o", name := "n" }
  ref := "refs/heads/main"
  sha := "s"
  actor := "u"

/-- A database in which only deliveries are recorded. -/
def recorded (keys : List DeliveryKey) : Db where
  deliveries :=
    { rows := keys.foldr (fun key rows =>
        rows.insert key { key := key, event := pushOf key, payload := [], receivedAt := 0, runID := none }) ∅
      locked := [] }
  workflowRuns := { rows := ∅, locked := [] }
  deliveryIDs := { rows := ∅, locked := [] }
  jobRuns := { rows := ∅, locked := [] }
  minted := 0

/-- The seed of a run with these jobs. -/
def seedOf (key : DeliveryKey) (jobKeys : List String) : RunSeed where
  delivery := key
  event := pushOf key
  jobs := jobKeys.map fun jobKey =>
    { jobKey := jobKey, runnerClass := "", dependsOn := [], matrix := none, planDigest := "", condition := "" }

/-- What the transactions returned. -/
def results (c : Config Db Tx) : List (Option (Except Err Reply)) :=
  c.procs.map fun tx =>
    match tx.point with
    | .returned result => some result
    | _ => none

/-- The attempts of all rows. -/
def attempts (db : Db) : List Attempt := db.jobRuns.rows.entries.map fun e => attemptOf e.2

/-- A run with two jobs, and two calls of RerequestJob for one of them. -/
theorem one_row_per_attempt_rerequested :
    ∃ c, GuardedReaches Begins (TxStep .unary) Separate ⟨recorded [⟨"github", "d"⟩], []⟩ c ∧
      (results c).drop 1 = [some (.ok (.attempt "iiii")), some (.ok (.attempt "iiii"))] ∧
      attempts c.shared = [("i", "a", 2), ("i", "b", 1), ("i", "a", 1)] ∧ OneRowPerAttempt c.shared := by
  have hspawn : GuardedReaches Begins (TxStep .unary) Separate ⟨recorded [⟨"github", "d"⟩], []⟩
      ⟨recorded [⟨"github", "d"⟩], [] ++ [.begin (.createRun (seedOf ⟨"github", "d"⟩ ["a", "b"]) 1),
        .begin (.rerequestJob "ii" 2), .begin (.rerequestJob "ii" 3)]⟩ :=
    guardedReaches_spawn [] _ (by simp [Begins])
  have hreach := hspawn.trans (guardedReaches_of_playGuarded TxStep.exec [0, 0, 0, 0, 0, 0, 0, 1, 1, 1, 1, 1, 2, 2] rfl)
  exact ⟨_, hreach, rfl, rfl, one_row_per_attempt .unary _ (by intro id id' row row' hrow; cases hrow)
    (by intro id row hrow; cases hrow) _ hreach⟩

/-- A seed with a key twice has two rows for one attempt, and so do two calls of RerequestJob that check first. -/
theorem attempt_created_twice : (∃ c, Interleaving.Reaches Begins (TxStep .unary) ⟨recorded [⟨"github", "d"⟩], []⟩ c ∧
      attempts c.shared = [("i", "a", 1), ("i", "a", 1)] ∧ ¬OneRowPerAttempt c.shared) ∧
    ∃ c, Interleaving.Reaches Begins (TxStep .unary) ⟨recorded [⟨"github", "d"⟩], []⟩ c ∧
      (results c).drop 1 = [some (.ok (.attempt "iii")), some (.ok (.attempt "iiii"))] ∧
      attempts c.shared = [("i", "a", 2), ("i", "a", 2), ("i", "a", 1)] ∧ ¬OneRowPerAttempt c.shared := by
  refine ⟨⟨_, (reaches_spawn [.begin (.createRun (seedOf ⟨"github", "d"⟩ ["a", "a"]) 1)] (by simp [Begins])).trans
      (reaches_of_play TxStep.exec [0, 0, 0, 0, 0, 0, 0] rfl), rfl, fun hone => ?_⟩,
    ⟨_, (reaches_spawn [.begin (.createRun (seedOf ⟨"github", "d"⟩ ["a"]) 1), .begin (.rerequestJob "ii" 2),
      .begin (.rerequestJob "ii" 3)] (by simp [Begins])).trans
      (reaches_of_play TxStep.exec [0, 0, 0, 0, 0, 0, 1, 1, 2, 2, 1, 1, 1, 2, 2, 2] rfl), rfl, rfl, fun hone => ?_⟩⟩
  · exact absurd (hone "ii" "iii" _ _ rfl rfl rfl rfl rfl) (by decide)
  · exact absurd (hone "iii" "iiii" _ _ rfl rfl rfl rfl rfl) (by decide)

end Forgelet.Postgres.Creation
