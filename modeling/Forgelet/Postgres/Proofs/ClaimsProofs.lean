import Forgelet.Postgres.Claims
import Forgelet.Postgres.Proofs.StatusProofs

/-!
# Proofs: who ends a claim

A claim that is not older than the lease is ended by its dispatcher, by AckDispatched or by CancelRun, if claims are
released in time. The invariant is about the claims that are not released: as long as such a claim is not older than
the lease it is the latest on its job, and the row shows it while the job is queued.
-/

namespace Forgelet.Postgres

open Relation
open ReadCommitted (Both)

variable {id : JobRunID} {row : JobRow} {now : Time}

/-! ## What a transaction does to a row -/

/-- What a transaction may do to a row: the claim stays, or is cleared where `clears` allows it. -/
structure RowStep (clears : JobRunID → RunID → Prop) (row row' : JobRow) : Prop where
  id : row'.id = row.id
  runID : row'.runID = row.runID
  requeued : row'.status = .queued → row.status = .queued
  claim : row'.claimedAt = row.claimedAt ∨ row'.status ≠ .queued ∧ clears row.id row.runID

/-- Nothing is cleared. -/
def KeepsClaims : JobRunID → RunID → Prop := fun _ _ => False

variable {clears : JobRunID → RunID → Prop} {t t' t'' : Rows}

theorem RowStep.refl (row : JobRow) : RowStep clears row row := ⟨rfl, rfl, fun h => h, .inl rfl⟩

theorem RowStep.trans {u v w} (h : RowStep clears u v) (h' : RowStep clears v w) : RowStep clears u w := by
  refine ⟨h'.id.trans h.id, h'.runID.trans h.runID, fun hw => h.requeued (h'.requeued hw), ?_⟩
  rcases h.claim with heq | ⟨hnot, hclears⟩
  · rcases h'.claim with heq' | ⟨hnot', hclears'⟩
    · exact .inl (heq'.trans heq)
    · rw [h.id, h.runID] at hclears'
      exact .inr ⟨hnot', hclears'⟩
  · exact .inr ⟨fun hw => hnot (h'.requeued hw), hclears⟩

namespace Rows

/-- All rows are there, and each has gone through such a step. -/
def Kept (clears : JobRunID → RunID → Prop) (t t' : Rows) : Prop :=
  ∀ id, (t.jobRuns.lookup id = none ∧ t'.jobRuns.lookup id = none) ∨
    ∃ row row', t.jobRuns.lookup id = some row ∧ t'.jobRuns.lookup id = some row' ∧ RowStep clears row row'

/-- Every row stands under its id. -/
def Keyed (t : Rows) : Prop := ∀ id row, t.jobRuns.lookup id = some row → row.id = id

theorem kept_of_jobRuns_eq (h : t'.jobRuns = t.jobRuns) : Kept clears t t' := by
  intro id
  rw [h]
  exact Both.refl RowStep.refl _

theorem Kept.refl (t : Rows) : Kept clears t t := kept_of_jobRuns_eq rfl

theorem Kept.trans (h : Kept clears t t') (h' : Kept clears t' t'') : Kept clears t t'' :=
  fun id => Both.trans RowStep.trans (h id) (h' id)

theorem Kept.before (h : Kept clears t t') {row'} (hrow' : t'.jobRuns.lookup id = some row') :
    ∃ row, t.jobRuns.lookup id = some row ∧ RowStep clears row row' := Both.before (h id) hrow'

theorem Kept.after (h : Kept clears t t') (hrow : t.jobRuns.lookup id = some row) :
    ∃ row', t'.jobRuns.lookup id = some row' ∧ RowStep clears row row' := Both.after (h id) hrow

theorem Kept.keyed (h : Kept clears t t') (hkeyed : t.Keyed) : t'.Keyed := by
  intro id row' hrow'
  obtain ⟨row, hrow, hstep⟩ := h.before hrow'
  exact hstep.id.trans (hkeyed id row hrow)

theorem updateJob_lookup (t : Rows) (id i : JobRunID) (set : JobRow → JobRow) :
    (t.updateJob id set).jobRuns.lookup i =
      if i = id then (t.jobRuns.lookup id).map set else t.jobRuns.lookup i := by
  unfold updateJob
  cases hrow : t.jobRuns.lookup id with
  | none =>
    split_ifs with heq
    · rw [heq, hrow]
      rfl
    · rfl
  | some row => exact GoMap.lookup_insert_ite ..

theorem kept_updateJob {set : JobRow → JobRow}
    (h : ∀ row, t.jobRuns.lookup id = some row → RowStep clears row (set row)) :
    Kept clears t (t.updateJob id set) := by
  intro i
  rw [updateJob_lookup]
  split_ifs with heq
  · subst heq
    cases hrow : t.jobRuns.lookup i with
    | none => exact .inl ⟨rfl, rfl⟩
    | some row => exact .inr ⟨row, set row, rfl, rfl, h row hrow⟩
  · exact Kept.refl t i

theorem updateRun_jobRuns (t : Rows) (id : RunID) (set : RunRecord → RunRecord) :
    (t.updateRun id set).jobRuns = t.jobRuns := by
  unfold updateRun
  split <;> rfl

theorem refreshRun_jobRuns (h : t.refreshRun id now = .ok t') : t'.jobRuns = t.jobRuns := by
  unfold refreshRun at h
  split at h
  · cases h
  · dsimp only at h
    split at h
    · cases h
    · split_ifs at h
      · rw [← Except.ok.inj h]
      · rw [← Except.ok.inj h]
        exact updateRun_jobRuns ..
      · rw [← Except.ok.inj h]
        exact updateRun_jobRuns ..

/-! ## The transactions -/

theorem rowStep_setSkipped (now : Time) (row : JobRow) : RowStep clears row (setSkipped now row) := by
  unfold setSkipped
  split_ifs
  · exact ⟨rfl, rfl, fun h => (by cases h), .inl rfl⟩
  · exact .refl row

/-- Some jobs are skipped, and one that is still queued is claimed, or none. -/
def LoopClaims (now : Time) (t : Rows) (ids : List JobRunID) (result : Option JobRunRecord) (t' : Rows) : Prop :=
  ∃ t₁, Kept KeepsClaims t t₁ ∧ ((result = none ∧ t' = t₁) ∨
    ∃ id ∈ ids, ∃ row, t₁.jobRuns.lookup id = some row ∧ row.status = .queued ∧
      result = some row.toJobRunRecord ∧ t' = t₁.updateJob id (setClaimed now))

theorem claimLoop_spec {ids result} (h : claimLoop now t ids = .ok (result, t')) : LoopClaims now t ids result t' := by
  induction ids generalizing t with
  | nil =>
    cases h
    exact ⟨t', .refl t', .inl ⟨rfl, rfl⟩⟩
  | cons id rest ih =>
    -- what holds for the rest of the ids holds for all of them
    have hrest : ∀ {t₀}, Kept KeepsClaims t t₀ → claimLoop now t₀ rest = .ok (result, t') →
        LoopClaims now t (id :: rest) result t' := by
      intro t₀ hkept hloop
      obtain ⟨t₁, hkept₁, hout⟩ := ih hloop
      refine ⟨t₁, hkept.trans hkept₁, hout.imp_right ?_⟩
      rintro ⟨i, hi, hclaimed⟩
      exact ⟨i, .tail _ hi, hclaimed⟩
    have hclaim : ∀ {out}, (t.jobRuns.lookup id = none → out = claimLoop now t rest) →
        (∀ row, t.jobRuns.lookup id = some row → out =
          if row.status = .queued then .ok (some row.toJobRunRecord, t.updateJob id (setClaimed now))
          else claimLoop now t rest) → out = .ok (result, t') → LoopClaims now t (id :: rest) result t' := by
      intro out hnone hsome hout
      cases hrow : t.jobRuns.lookup id with
      | none => exact hrest (.refl t) ((hnone hrow).symm.trans hout)
      | some row =>
        rw [hsome row hrow] at hout
        split_ifs at hout with hqueued
        · cases hout
          exact ⟨t, .refl t, .inr ⟨id, (.head _), row, hrow, hqueued, rfl, rfl⟩⟩
        · exact hrest (.refl t) hout
    rw [claimLoop] at h
    split at h
    · exact hrest (.refl t) h
    · split_ifs at h
      · exact hclaim (fun hnone => by rw [hnone]) (fun row hrow => by rw [hrow]) h
      · split at h
        · cases h
        · rename_i t₀ hrefresh
          have hskipped : Kept KeepsClaims t (t.updateJob id (setSkipped now)) :=
            kept_updateJob fun row _ => rowStep_setSkipped now row
          exact hrest (hskipped.trans (kept_of_jobRuns_eq (refreshRun_jobRuns hrefresh))) h
    · exact hclaim (fun hnone => by rw [hnone]) (fun row hrow => by rw [hrow]) h

theorem mem_claimSelect (hkeyed : t.Keyed) (h : id ∈ t.claimSelect now) :
    ∃ row, t.jobRuns.lookup id = some row ∧ claimable row now := by
  obtain ⟨row, hrow, rfl⟩ := List.mem_map.mp h
  rw [List.mem_insertionSort, List.mem_filter, GoMap.mem_values_iff] at hrow
  obtain ⟨⟨id, hid⟩, hclaimable⟩ := hrow
  rw [hkeyed id row hid]
  exact ⟨row, hid, hclaimable⟩

/-- Some jobs are skipped, and one may be claimed that was claimable. -/
inductive ClaimOutcome (t : Rows) (selectedAt now : Time) : Except Err JobRunRecord × Rows → Prop
  | nothing {err t'} (kept : Kept KeepsClaims t t') : ClaimOutcome t selectedAt now (.error err, t')
  | claimed {t₁ id row₀ row} (kept : Kept KeepsClaims t t₁)
      (found : t.jobRuns.lookup id = some row₀) (selected : claimable row₀ selectedAt)
      (current : t₁.jobRuns.lookup id = some row) (queued : row.status = .queued) (own : row.id = id) :
      ClaimOutcome t selectedAt now (.ok row.toJobRunRecord, t₁.updateJob id (setClaimed now))

theorem claimNextQueuedJob_outcome (hkeyed : t.Keyed) (selectedAt now : Time) :
    ClaimOutcome t selectedAt now (t.claimNextQueuedJob selectedAt now) := by
  unfold claimNextQueuedJob
  split
  · exact .nothing (.refl t)
  · rename_i hloop
    obtain ⟨t₁, hkept, ⟨-, rfl⟩ | ⟨id, -, row, -, -, heq, -⟩⟩ := claimLoop_spec hloop
    · exact .nothing hkept
    · cases heq
  · rename_i hloop
    obtain ⟨t₁, hkept, ⟨heq, -⟩ | ⟨id, hid, row, hrow, hqueued, heq, rfl⟩⟩ := claimLoop_spec hloop
    · cases heq
    · cases heq
      obtain ⟨row₀, hfound, hselected⟩ := mem_claimSelect hkeyed hid
      exact .claimed hkept hfound hselected hrow hqueued (hkept.keyed hkeyed id row hrow)

/-- What AckDispatched, ApplyObserved and CancelRun may clear. -/
def Clears : Op → JobRunID → RunID → Prop
  | .ackDispatched id _ _, i, _ => i = id
  | .applyObserved _ _ _, _, _ => False
  | .cancelRun r _, _, runID => runID = r

theorem kept_ackDispatched (hkeyed : t.Keyed) (id : JobRunID) (obj : ActiveObject) (now : Time) :
    Kept (Clears (.ackDispatched id obj now)) t (t.ackDispatched id obj now).2 := by
  have hset : ∀ job : JobRunRecord, job.status ≠ .queued → ∀ row, t.jobRuns.lookup id = some row →
      RowStep (Clears (.ackDispatched id obj now)) row (setAck job obj now row) := by
    intro job hjob row hrow
    exact ⟨rfl, rfl, fun h => absurd h hjob, .inr ⟨hjob, hkeyed id row hrow⟩⟩
  unfold ackDispatched
  split
  · exact .refl t
  · dsimp only
    split
    · rename_i hstatus
      split_ifs
      · exact .refl t
      · exact kept_updateJob (hset _ (by rw [hstatus]; decide))
    · rename_i hstatus
      split
      · exact .refl t
      · rename_i next hnext
        refine kept_updateJob (hset _ ?_)
        rw [hstatus] at hnext
        cases hnext
        exact fun h => by cases h
    · exact .refl t

theorem kept_observeJob (id : JobRunID) (phase : ObservedPhase) (now : Time) (job : JobRunRecord) :
    Kept KeepsClaims t (t.observeJob id phase now job) := by
  unfold observeJob
  split_ifs
  · exact .refl t
  · split
    · exact .refl t
    · rename_i target htarget
      split_ifs
      · refine kept_updateJob fun row _ => ⟨rfl, rfl, fun h => ?_, .inl rfl⟩
        -- no phase leads back to the queue
        have hstatus : (observe job target now).status = target := by
          cases target <;> rfl
        rw [setObserved, hstatus] at h
        subst h
        cases phase <;> cases htarget
      · exact .refl t

theorem Kept.mono {clears' : JobRunID → RunID → Prop} (h : Kept clears t t') (himp : ∀ id r, clears id r → clears' id r)
    : Kept clears' t t' := by
  intro id
  refine (h id).imp_right ?_
  rintro ⟨row, row', hrow, hrow', hstep⟩
  exact ⟨row, row', hrow, hrow', hstep.id, hstep.runID, hstep.requeued,
    hstep.claim.imp_right fun hcleared => ⟨hcleared.1, himp _ _ hcleared.2⟩⟩

theorem kept_applyObserved (id : JobRunID) (phase : ObservedPhase) (now : Time) :
    Kept KeepsClaims t (t.applyObserved id phase now).2 := by
  unfold applyObserved
  split
  · exact .refl t
  · split
    · exact .refl t
    · rename_i hrefresh
      exact (kept_observeJob id phase now _).trans (kept_of_jobRuns_eq (refreshRun_jobRuns hrefresh))

theorem kept_cancelJobs (hkeyed : t.Keyed) {r jobs}
    (hjobs : ∀ job ∈ jobs, ∀ row, t.jobRuns.lookup job.id = some row → row.runID = r) :
    Kept (Clears (.cancelRun r now)) t (t.cancelJobs now jobs) := by
  induction jobs generalizing t with
  | nil => exact .refl t
  | cons job rest ih =>
    rw [List.forall_mem_cons] at hjobs
    rw [cancelJobs]
    split
    · exact ih hkeyed hjobs.2
    · rename_i next hnext
      have hcancelled : next = .cancelled := (transitionJob_eq_ok hnext).1
      have hset : Kept (Clears (.cancelRun r now)) t (t.updateJob job.id (setCancelled next now)) := by
        refine kept_updateJob fun row hrow => ⟨rfl, rfl, fun h => ?_, .inr ⟨fun h => ?_, hjobs.1 row hrow⟩⟩
        all_goals
          rw [setCancelled, hcancelled] at h
          cases h
      refine hset.trans (ih (hset.keyed hkeyed) fun job' hjob' row' hrow' => ?_)
      obtain ⟨row, hrow, hstep⟩ := hset.before hrow'
      rw [hstep.runID]
      exact hjobs.2 job' hjob' row hrow

theorem mem_jobsOf {r} : row ∈ t.jobsOf r ↔ (∃ id, t.jobRuns.lookup id = some row) ∧ row.runID = r := by
  unfold jobsOf
  rw [List.mem_filter, GoMap.mem_values_iff, decide_eq_true_eq]

theorem kept_cancelRun (hkeyed : t.Keyed) (r : RunID) (now : Time) :
    Kept (Clears (.cancelRun r now)) t (t.cancelRun r now).2 := by
  unfold cancelRun
  split
  · exact .refl t
  · split_ifs
    · exact .refl t
    · exact .refl t
    · refine (kept_cancelJobs hkeyed fun job hjob row hrow => ?_).trans
        (kept_of_jobRuns_eq (updateRun_jobRuns ..))
      obtain ⟨row', hrow', rfl⟩ := List.mem_map.mp hjob
      obtain ⟨⟨id, hid⟩, hrun⟩ := mem_jobsOf.mp hrow'
      rw [hkeyed id row' hid] at hrow
      obtain rfl := Option.mem_unique hrow hid
      exact hrun

theorem kept_transact (hkeyed : t.Keyed) (op : Op) : Kept (Clears op) t (t.transact op).2 := by
  cases op with
  | ackDispatched id obj now => exact kept_ackDispatched hkeyed id obj now
  | applyObserved id phase now => exact (kept_applyObserved id phase now).mono fun _ _ h => h.elim
  | cancelRun r now => exact kept_cancelRun hkeyed r now

end Rows

/-! ## The account of the claims -/

/-- An unreleased claim within the lease is the latest on its job, and the row shows it. -/
structure Accounts (w : Sessions) : Prop where
  keyed : w.rows.Keyed
  latest : ∀ d id claimedAt, w.own.lookup (d, id) = some claimedAt → w.clock ≤ claimedAt + claimLease →
    w.latest.lookup id = some (d, claimedAt)
  shown : ∀ d id claimedAt row, w.own.lookup (d, id) = some claimedAt → w.clock ≤ claimedAt + claimLease →
    w.rows.jobRuns.lookup id = some row → row.status = .queued → row.claimedAt = some claimedAt

variable {w : Sessions}

variable {rows : Rows} {claimedAt : Time}

theorem accounts_start (hkeyed : rows.Keyed) (clock : Time) : Accounts (.start rows clock) :=
  ⟨hkeyed, fun _ _ _ h => (by cases h), fun _ _ _ _ h => by cases h⟩

theorem Accounts.keep (h : Accounts w) (hkept : w.rows.Kept clears rows) (hclock : w.clock ≤ now) :
    Accounts { w with rows := rows, clock := now } := by
  refine ⟨hkept.keyed h.keyed, fun d id claimedAt hown hlease => ?_, fun d id claimedAt row' hown hlease hrow' hq => ?_⟩
  · exact h.latest d id claimedAt hown (le_trans hclock hlease)
  · obtain ⟨row, hrow, hstep⟩ := hkept.before hrow'
    have hshown := h.shown d id claimedAt row hown (le_trans hclock hlease) hrow (hstep.requeued hq)
    rcases hstep.claim with hsame | ⟨hnot, -⟩
    · rw [hsame, hshown]
    · exact absurd hq hnot

theorem claimable_free (h : Rows.claimable row now) (hclaimed : row.claimedAt = some claimedAt) :
    claimedAt + claimLease < now := by
  unfold Rows.claimable at h
  rw [hclaimed, Bool.and_eq_true] at h
  exact Int.add_lt_of_lt_sub_right (of_decide_eq_true h.2)

theorem claimable_queued (h : Rows.claimable row now) : row.status = .queued := by
  unfold Rows.claimable at h
  rw [Bool.and_eq_true] at h
  exact of_decide_eq_true h.1

theorem Accounts.claim (h : Accounts w) (d : Dispatcher) {selectedAt} (hclock : w.clock ≤ selectedAt)
    (hnow : selectedAt ≤ now) : Accounts (w.after (.claim d selectedAt now)) := by
  unfold Sessions.after
  dsimp only
  have hout := Rows.claimNextQueuedJob_outcome h.keyed selectedAt now
  generalize w.rows.claimNextQueuedJob selectedAt now = out at hout
  cases hout with
  | nothing kept => exact h.keep kept (le_trans hclock hnow)
  | @claimed t₁ id row₀ row kept found selected current queued own =>
    have hkeyed := kept.keyed h.keyed
    -- nobody else has a claim on the job that is not older than the lease
    have hfree : ∀ d' claimedAt, w.own.lookup (d', id) = some claimedAt → ¬now ≤ claimedAt + claimLease := by
      intro d' claimedAt hown hlease
      have hshown := h.shown d' id claimedAt row₀ hown (le_trans hclock (le_trans hnow hlease)) found
        (claimable_queued selected)
      exact absurd (lt_of_lt_of_le (claimable_free selected hshown) (le_trans hnow hlease)) (lt_irrefl _)
    have hown : ∀ d' i claimedAt, (w.own.insert (d, row.id) now).lookup (d', i) = some claimedAt →
        now ≤ claimedAt + claimLease → (d' = d ∧ i = id ∧ claimedAt = now) ∨
          i ≠ id ∧ w.own.lookup (d', i) = some claimedAt := by
      intro d' i claimedAt hinsert hlease
      rcases GoMap.lookup_insert_cases hinsert with ⟨heq, rfl⟩ | hold
      · cases heq
        exact .inl ⟨rfl, own, rfl⟩
      · refine .inr ⟨?_, hold⟩
        rintro rfl
        exact hfree d' claimedAt hold hlease
    refine ⟨fun i r hr => ?_, fun d' i claimedAt hinsert hlease => ?_,
      fun d' i claimedAt row' hinsert hlease hrow' hq => ?_⟩
    · rw [Rows.updateJob_lookup] at hr
      split_ifs at hr with heq
      · rw [current] at hr
        cases hr
        exact own.trans heq.symm
      · exact hkeyed i r hr
    · rcases hown d' i claimedAt hinsert hlease with ⟨rfl, rfl, rfl⟩ | ⟨hne, hold⟩
      · rw [← own]
        exact AList.lookup_insert _
      · rw [GoMap.lookup_insert_ite, if_neg (by rw [own]; exact hne)]
        exact h.latest d' i claimedAt hold (le_trans hclock (le_trans hnow hlease))
    · rw [Rows.updateJob_lookup] at hrow'
      rcases hown d' i claimedAt hinsert hlease with ⟨rfl, rfl, rfl⟩ | ⟨hne, hold⟩
      · rw [if_pos rfl, current] at hrow'
        cases hrow'
        rfl
      · rw [if_neg hne] at hrow'
        obtain ⟨r, hr, hstep⟩ := kept.before hrow'
        have hshown := h.shown d' i claimedAt r hold (le_trans hclock (le_trans hnow hlease)) hr
          (hstep.requeued hq)
        rw [hstep.claim.resolve_right fun hcleared => hcleared.2, hshown]

theorem claimedAt_of_lookup (h : w.rows.jobRuns.lookup id = some row) : w.claimedAt id = row.claimedAt := by
  unfold Sessions.claimedAt
  rw [h]
  rfl

theorem releaseClaim_lookup (t : Rows) (id i : JobRunID) :
    (t.releaseClaim id).jobRuns.lookup i =
      if i = id then (t.jobRuns.lookup id).map fun row => { row with claimedAt := none }
      else t.jobRuns.lookup i :=
  t.updateJob_lookup id i _

/-- The latest claim on a job that is released is of no other dispatcher. -/
theorem Accounts.not_other (h : Accounts w) {d d'} (hclock : w.clock ≤ now) (hlease : w.InLease (.release d id now))
    (hne : d' ≠ d) (hlatest : w.latest.lookup id = some (d', claimedAt)) (hclaimed : w.claimedAt id = some claimedAt) :
    ¬now ≤ claimedAt + claimLease := by
  intro hlive
  rcases hlease with ⟨own, hown, hfresh⟩ | hnot
  · have hmine := h.latest d id own hown (le_trans hclock hfresh)
    exact hne (Prod.mk.inj (Option.mem_unique hlatest hmine)).1
  · exact hnot ⟨(d', claimedAt), hlatest, hne, hclaimed, hlive⟩

theorem Accounts.release (h : Accounts w) {d} (hclock : w.clock ≤ now) (hlease : w.InLease (.release d id now)) :
    Accounts (w.after (.release d id now)) := by
  have hown : ∀ {d' i claimedAt}, (w.own.erase (d, id)).lookup (d', i) = some claimedAt →
      (d', i) ≠ (d, id) ∧ w.own.lookup (d', i) = some claimedAt := by
    intro d' i claimedAt herase
    rw [GoMap.lookup_erase_ite] at herase
    split_ifs at herase with heq
    exact ⟨heq, herase⟩
  refine ⟨fun i row' hrow' => ?_, fun d' i claimedAt herase hlive => ?_,
    fun d' i claimedAt row' herase hlive hrow' hq => ?_⟩
  · have hrow' : (w.rows.releaseClaim id).jobRuns.lookup i = some row' := hrow'
    rw [releaseClaim_lookup] at hrow'
    split_ifs at hrow' with heq
    · obtain ⟨row, hrow, rfl⟩ := Option.map_eq_some_iff.mp hrow'
      exact (h.keyed id row hrow).trans heq.symm
    · exact h.keyed i row' hrow'
  · exact h.latest d' i claimedAt (hown herase).2 (le_trans hclock hlive)
  · obtain ⟨hne, hold⟩ := hown herase
    have hlive : now ≤ claimedAt + claimLease := hlive
    have hrow' : (w.rows.releaseClaim id).jobRuns.lookup i = some row' := hrow'
    rw [releaseClaim_lookup] at hrow'
    split_ifs at hrow' with heq
    · subst heq
      obtain ⟨row, hrow, rfl⟩ := Option.map_eq_some_iff.mp hrow'
      have hshown := h.shown d' i claimedAt row hold (le_trans hclock hlive) hrow hq
      have hother : d' ≠ d := fun hsame => hne (by rw [hsame])
      exact absurd hlive (h.not_other hclock hlease hother
        (h.latest d' i claimedAt hold (le_trans hclock hlive)) ((claimedAt_of_lookup hrow).trans hshown))
    · exact h.shown d' i claimedAt row' hold (le_trans hclock hlive) hrow' hq

theorem Accounts.after (h : Accounts w) {e} (hforward : w.Forward e) (hlease : w.InLease e) : Accounts (w.after e) := by
  cases e with
  | claim d selectedAt now => exact h.claim d hforward.1 hforward.2
  | release d id now => exact h.release hforward.1 hlease
  | transact op => exact h.keep (Rows.kept_transact h.keyed op) hforward.1

theorem accounts_reaches (hkeyed : rows.Keyed) {clock} (h : Sessions.Reaches Sessions.InLease (.start rows clock) w) :
    Accounts w := by
  induction h with
  | refl => exact accounts_start hkeyed clock
  | tail _ hstep ih =>
    obtain ⟨e, hforward, hlease, rfl⟩ := hstep
    exact ih.after hforward hlease

/-! ## Claims that are not older than the lease -/

theorem claim_stays (hkeyed : w.rows.Keyed) {selectedAt} (hrow : w.rows.jobRuns.lookup id = some row)
    (hclaimed : row.claimedAt = some claimedAt) (hlive : selectedAt ≤ claimedAt + claimLease) (d : Dispatcher) :
    (w.after (.claim d selectedAt now)).claimedAt id = some claimedAt ∧
      (w.after (.claim d selectedAt now)).latest.lookup id = w.latest.lookup id := by
  unfold Sessions.after
  dsimp only
  have hout := Rows.claimNextQueuedJob_outcome hkeyed selectedAt now
  generalize w.rows.claimNextQueuedJob selectedAt now = out at hout
  have hkept : ∀ {t₁ : Rows}, w.rows.Kept KeepsClaims t₁ →
      ∃ row', t₁.jobRuns.lookup id = some row' ∧ row'.claimedAt = some claimedAt := by
    intro t₁ kept
    obtain ⟨row', hrow', hstep⟩ := kept.after hrow
    exact ⟨row', hrow', (hstep.claim.resolve_right fun hcleared => hcleared.2).trans hclaimed⟩
  cases hout with
  | nothing kept =>
    obtain ⟨row', hrow', hclaimed'⟩ := hkept kept
    exact ⟨(claimedAt_of_lookup hrow').trans hclaimed', rfl⟩
  | @claimed t₁ i row₀ row₁ kept found selected current queued own =>
    obtain ⟨row', hrow', hclaimed'⟩ := hkept kept
    have hne : id ≠ i := by
      rintro rfl
      obtain rfl := Option.mem_unique hrow found
      exact absurd (lt_of_lt_of_le (claimable_free selected hclaimed) hlive) (lt_irrefl _)
    refine ⟨(claimedAt_of_lookup ?_).trans hclaimed', ?_⟩
    · exact (Rows.updateJob_lookup ..).trans ((if_neg hne).trans hrow')
    · rw [GoMap.lookup_insert_ite, if_neg (by rw [own]; exact hne)]

/-- With transactions one after the other, a clock that does not go back and claims released in time, or with no other
holder of the job, a claim not older than the lease is ended only by its dispatcher's ReleaseClaim, by AckDispatched
of the job or by CancelRun of its run. -/
theorem claim_ended_by_holder (t : Rows) (hkeyed : t.Keyed) (clock : Time) (w : Sessions)
    (hreach : Sessions.Reaches Sessions.InLease (.start t clock) w) (e : Event) (hforward : w.Forward e)
    (hlease : w.InLease e) (id : JobRunID) (d : Dispatcher) (claimedAt : Time) (row : JobRow)
    (hlatest : w.latest.lookup id = some (d, claimedAt)) (hrow : w.rows.jobRuns.lookup id = some row)
    (hheld : row.claimedAt = some claimedAt) (hlive : e.time ≤ claimedAt + claimLease) :
    ((w.after e).claimedAt id = some claimedAt ∧ (w.after e).latest.lookup id = some (d, claimedAt)) ∨
      MayClear d id row e := by
  have haccounts := accounts_reaches hkeyed hreach
  cases e with
  | claim d' selectedAt now =>
    obtain ⟨hclaimed, hsame⟩ := claim_stays haccounts.keyed hrow hheld hlive d'
    exact .inl ⟨hclaimed, hsame.trans hlatest⟩
  | release d' id' now =>
    by_cases hid : id = id'
    · subst hid
      by_cases hd : d = d'
      · exact .inr ⟨hd.symm, rfl⟩
      · exact absurd hlive (haccounts.not_other hforward.1 hlease hd hlatest
          ((claimedAt_of_lookup hrow).trans hheld))
    · refine .inl ⟨(claimedAt_of_lookup ?_).trans hheld, hlatest⟩
      exact (releaseClaim_lookup ..).trans ((if_neg hid).trans hrow)
  | transact op =>
    obtain ⟨row', hrow', hstep⟩ := (Rows.kept_transact haccounts.keyed op).after hrow
    rcases hstep.claim with hsame | ⟨-, hclears⟩
    · exact .inl ⟨(claimedAt_of_lookup hrow').trans (hsame.trans hheld), hlatest⟩
    · right
      rw [haccounts.keyed id row hrow] at hclears
      cases op with
      | ackDispatched id' obj now => exact hclears.symm
      | applyObserved id' phase now => exact hclears.elim
      | cancelRun r now => exact hclears.symm

/-- One queued job. -/
def queuedRows : Rows where
  jobRuns := (dbOf .queued [("a", .queued)]).jobRuns.rows
  workflowRuns := (dbOf .queued [("a", .queued)]).workflowRuns.rows

/-- The first dispatcher claims and acknowledges, the second has nothing to claim. -/
theorem claim_ended_by_holder_ack :
    Sessions.Reaches Sessions.InLease (.start queuedRows 0) ((Sessions.start queuedRows 0).after (.claim 1 0 1)) ∧
    (let w := (Sessions.start queuedRows 0).after (.claim 1 0 1)
     ((w.after (.claim 2 2 3)).claimedAt "a" = some 1 ∧
        (w.after (.claim 2 2 3)).latest.lookup "a" = some (1, 1)) ∧
      MayClear 1 "a" ((w.rows.jobRuns.lookup "a").get rfl)
        (.transact (.ackDispatched "a" ⟨"jobrun-a", "u"⟩ 4))) := by
  have hkeyed : queuedRows.Keyed := keyed_dbOf_single .queued "a" .queued
  have hreach : Sessions.Reaches Sessions.InLease (.start queuedRows 0)
      ((Sessions.start queuedRows 0).after (.claim 1 0 1)) :=
    .single ⟨.claim 1 0 1, by decide, trivial, rfl⟩
  have hafter := fun e hforward hlease hlive => claim_ended_by_holder queuedRows hkeyed 0 _ hreach e hforward
    hlease "a" 1 1 _ rfl rfl rfl hlive
  refine ⟨hreach, (hafter (.claim 2 2 3) (by decide) trivial (by decide)).resolve_right id, ?_⟩
  refine (hafter (.transact (.ackDispatched "a" ⟨"jobrun-a", "u"⟩ 4)) (by decide) trivial (by decide)).resolve_left
    fun h => ?_
  exact absurd h.1 (by decide +kernel)

/-- A slow dispatcher releases the claim of a second one, and a third one claims the job. -/
theorem claim_released_late :
    ∃ w, Sessions.Reaches (fun _ _ => True) (.start queuedRows 0) w ∧
      w.latest.lookup "a" = some (2, claimLease + 1) ∧ w.claimedAt "a" = some (claimLease + 1) ∧
      w.Forward (.release 1 "a" (claimLease + 2)) ∧
      (∀ row, ¬MayClear 2 "a" row (.release 1 "a" (claimLease + 2))) ∧
      (w.after (.release 1 "a" (claimLease + 2))).claimedAt "a" = none ∧
      ((w.after (.release 1 "a" (claimLease + 2))).after (.claim 3 (claimLease + 3) (claimLease + 3))).latest.lookup
        "a" = some (3, claimLease + 3) := by
  refine ⟨((Sessions.start queuedRows 0).after (.claim 1 0 0)).after (.claim 2 (claimLease + 1) (claimLease + 1)),
    .tail (.single ⟨.claim 1 0 0, by decide, trivial, rfl⟩)
      ⟨.claim 2 (claimLease + 1) (claimLease + 1), by decide +kernel, trivial, rfl⟩,
    by decide +kernel, by decide +kernel, by decide +kernel, fun row h => ?_, by decide +kernel, by decide +kernel⟩
  exact absurd h.1 (by decide)

end Forgelet.Postgres
