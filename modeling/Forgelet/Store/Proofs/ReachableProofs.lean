import Forgelet.Store.Proofs.InvariantProofs

/-!
# Proofs: `RerequestJob`, and every reachable store

With `RerequestJob` all operations keep the invariants, so they hold in every reachable store.
-/

namespace Forgelet.DurableStore

open Relation

variable {W : Wiring} {s s' : DurableStore}

/-! ## `RerequestJob` -/

/-- The outcomes of `RerequestJob`. -/
inductive RerequestOutcome (W : Wiring) (s : DurableStore) (id : JobRunID) (now : Time) :
    Outcome JobRunID → Prop
  | missing (absent : s.jobs.lookup id = none) : RerequestOutcome W s id now (.error .errJobRunNotFound, s)
  | existing {orig j} (found : s.jobs.lookup id = some orig) (listed : j ∈ s.jobsOf orig.runID)
      (key : j.jobKey = orig.jobKey) (next : j.attempt = orig.attempt + 1) : RerequestOutcome W s id now (.ok j.id, s)
  | orphan {orig} (found : s.jobs.lookup id = some orig) (unstored : s.byJobKey.lookup orig.runID = none) :
      RerequestOutcome W s id now (.error .nilMapPanic, s.appended W orig now)
  | attempt {orig keyIndex} (found : s.jobs.lookup id = some orig)
      (last : ∀ j ∈ s.jobsOf orig.runID, j.jobKey = orig.jobKey → j.attempt ≠ orig.attempt + 1)
      (stored : s.byJobKey.lookup orig.runID = some keyIndex) :
      RerequestOutcome W s id now (.ok (W.ids.mint s.minted), s.reattempted W orig keyIndex now)

theorem rerequestJob_outcome (W : Wiring) (s : DurableStore) (id : JobRunID) (now : Time) :
    RerequestOutcome W s id now (s.rerequestJob W id now) := by
  unfold rerequestJob
  cases horig : s.jobs.lookup id with
  | none => exact .missing horig
  | some orig =>
    dsimp only
    split
    · rename_i j hfind
      have hprop := List.find?_some hfind
      simp only [decide_eq_true_eq] at hprop
      exact .existing horig (List.mem_of_find?_eq_some hfind) hprop.1 hprop.2
    · rename_i hfind
      have hlast : ∀ j ∈ s.jobsOf orig.runID, j.jobKey = orig.jobKey → j.attempt ≠ orig.attempt + 1 := by
        intro j hj hkey hatt
        have := List.find?_eq_none.mp hfind j hj
        simp only [decide_eq_true_eq] at this
        exact this ⟨hkey, hatt⟩
      split
      · rename_i hidx
        exact .orphan horig hidx
      · rename_i keyIndex hidx
        exact .attempt horig hlast hidx

theorem appended_jobIDs (orig : JobRunRecord) (now : Time) (r : RunID) : (s.appended W orig now).jobIDs r =
      if r = orig.runID then s.jobIDs orig.runID ++ [W.ids.mint s.minted] else s.jobIDs r := by
  show ((s.runJobs.insert _ _).lookup r).getD [] = _
  rw [GoMap.lookup_insert_ite]
  split_ifs <;> rfl

theorem appended_lookup (orig : JobRunRecord) (now : Time) (i : JobRunID) : (s.appended W orig now).jobs.lookup i =
      if i = W.ids.mint s.minted then some (nextAttempt (W.ids.mint s.minted) orig now)
      else s.jobs.lookup i :=
  GoMap.lookup_insert_ite _ _ _ _

theorem mint_not_listed (hi : Inv W s) (r : RunID) : W.ids.mint s.minted ∉ s.jobIDs r := by
  intro hmem
  obtain ⟨j, hj, -⟩ := hi.listing.listed hmem
  rw [fresh_of_minted hi.minted _ (le_refl _)] at hj
  cases hj

variable {id i : JobRunID} {j : JobRunRecord}

theorem orphaned_appended (hi : Inv W s) {orig} (horig : s.jobs.lookup id = some orig)
    (hnone : s.byJobKey.lookup orig.runID = none) (now : Time) : Orphaned W s (s.appended W orig now) := by
  have hnot : ¬s.Stored orig.runID := by
    rw [← hi.indexing.stored_iff, hnone]
    simp
  have hfresh := fresh_of_minted hi.minted s.minted (le_refl _)
  refine ⟨rfl, rfl, rfl, Nat.le_succ _, ?_, ?_, ?_⟩
  · intro i j hj
    rw [appended_lookup, if_neg]
    · exact hj
    · intro heq
      rw [heq, hfresh] at hj
      cases hj
  · intro i j hj
    rw [appended_lookup] at hj
    split_ifs at hj with heq
    · cases hj
      obtain ⟨n, hn, hrun⟩ := hi.minted.job_run_minted horig
      exact .inr ⟨hnot, heq.symm, ⟨s.minted, Nat.lt_succ_self _, heq⟩, ⟨n, Nat.lt_succ_of_lt hn, hrun⟩, rfl, rfl⟩
    · exact .inl hj
  · intro r
    rw [appended_jobIDs]
    split_ifs with heq
    · subst heq
      refine .inr ⟨hnot, W.ids.mint s.minted, mint_not_listed hi _, rfl, ?_⟩
      exact ⟨nextAttempt (W.ids.mint s.minted) orig now, by rw [appended_lookup, if_pos rfl], rfl⟩
    · exact .inl rfl

/-- A run after `RerequestJob` gave it a new attempt. -/
def reopened (run : RunRecord) : RunRecord :=
  if run.status.isTerminal then { run with status := .queued, finishedAt := none } else run

theorem reopened_asCreated (run : RunRecord) : (reopened run).asCreated = run.asCreated := by
  unfold reopened
  split <;> rfl

section Reattempted

variable {orig : JobRunRecord} {keyIndex : GoMap String JobRunID} {now : Time}

theorem rewritten_reopenRun (s : DurableStore) (r : RunID) : Rewritten s (s.reopenRun r) := by
  unfold reopenRun
  split
  · rename_i run hrun
    split_ifs
    · exact rewritten_setRun hrun rfl
    · exact .refl s
  · exact .refl s

/-- But for its own run, the next attempt is all that is new. -/
theorem rewritten_reattempted (W : Wiring) (s : DurableStore) (orig : JobRunRecord) (keyIndex : GoMap String JobRunID)
    (now : Time) : Rewritten { s.appended W orig now with
      byJobKey := s.byJobKey.insert orig.runID (keyIndex.insert orig.jobKey (W.ids.mint s.minted)) }
    (s.reattempted W orig keyIndex now) := rewritten_reopenRun _ _

theorem reopenRun_eq (s : DurableStore) (r : RunID) : ∃ runs, s.reopenRun r = { s with runs := runs } ∧
      ∀ r', runs.lookup r' = if r' = r then (s.runs.lookup r).map reopened else s.runs.lookup r' := by
  unfold reopenRun reopened
  cases hr : s.runs.lookup r with
  | none =>
    refine ⟨s.runs, rfl, fun r' => ?_⟩
    split_ifs with heq
    · rw [heq, hr]
      rfl
    · rfl
  | some run =>
    dsimp only
    rw [Option.map_some]
    split
    · exact ⟨_, rfl, fun r' => GoMap.lookup_insert_ite _ _ _ _⟩
    · refine ⟨s.runs, rfl, fun r' => ?_⟩
      split_ifs with heq
      · rw [heq, hr]
      · rfl

theorem reattempted_eq (W : Wiring) (s : DurableStore) (orig : JobRunRecord) (keyIndex : GoMap String JobRunID)
    (now : Time) : ∃ runs, s.reattempted W orig keyIndex now =
        { s.appended W orig now with
          runs := runs
          byJobKey := s.byJobKey.insert orig.runID (keyIndex.insert orig.jobKey (W.ids.mint s.minted)) } ∧
      ∀ r, runs.lookup r = if r = orig.runID then (s.runs.lookup orig.runID).map reopened else s.runs.lookup r := by
  obtain ⟨runs, heq, hlook⟩ := reopenRun_eq
    ({ s.appended W orig now with
      byJobKey := s.byJobKey.insert orig.runID
        (keyIndex.insert orig.jobKey (W.ids.mint s.minted)) } : DurableStore) orig.runID
  exact ⟨runs, heq, hlook⟩

theorem reattempted_lookup (i : JobRunID) : (s.reattempted W orig keyIndex now).jobs.lookup i =
      if i = W.ids.mint s.minted then some (nextAttempt (W.ids.mint s.minted) orig now) else s.jobs.lookup i := by
  obtain ⟨runs, heq, -⟩ := reattempted_eq W s orig keyIndex now
  rw [heq]
  exact appended_lookup orig now i

theorem reattempted_jobIDs (r : RunID) : (s.reattempted W orig keyIndex now).jobIDs r =
      if r = orig.runID then s.jobIDs orig.runID ++ [W.ids.mint s.minted] else s.jobIDs r := by
  obtain ⟨runs, heq, -⟩ := reattempted_eq W s orig keyIndex now
  rw [heq]
  exact appended_jobIDs orig now r

theorem reattempted_run (r : RunID) : (s.reattempted W orig keyIndex now).runs.lookup r =
      if r = orig.runID then (s.runs.lookup orig.runID).map reopened else s.runs.lookup r := by
  obtain ⟨runs, heq, hlook⟩ := reattempted_eq W s orig keyIndex now
  rw [heq]
  exact hlook r

theorem reattempted_indexed (hidx : s.byJobKey.lookup orig.runID = some keyIndex) (r : RunID) (key : String) :
    (s.reattempted W orig keyIndex now).indexed r key =
      if r = orig.runID ∧ key = orig.jobKey then some (W.ids.mint s.minted) else s.indexed r key := by
  obtain ⟨runs, heq, -⟩ := reattempted_eq W s orig keyIndex now
  rw [heq]
  unfold indexed
  rw [GoMap.lookup_insert_ite]
  by_cases hr : r = orig.runID
  · rw [if_pos hr, Option.bind_some, GoMap.lookup_insert_ite, hr, hidx]
    simp only [true_and, Option.bind_some]
  · rw [if_neg hr, if_neg fun h => hr h.1]

theorem reattempted_minted : (s.reattempted W orig keyIndex now).minted = s.minted + 1 :=
  (rewritten_reattempted ..).minted

theorem reattempted_stored (r : RunID) : (s.reattempted W orig keyIndex now).Stored r ↔ s.Stored r :=
  ⟨(rewritten_reattempted ..).stored, (rewritten_reattempted ..).symm.stored⟩

theorem reattempted_job (hj : (s.reattempted W orig keyIndex now).jobs.lookup i = some j) :
    (i = W.ids.mint s.minted ∧ j = nextAttempt (W.ids.mint s.minted) orig now) ∨ s.jobs.lookup i = some j := by
  rw [reattempted_lookup] at hj
  split_ifs at hj with heq
  · exact .inl ⟨heq, (Option.some.inj hj).symm⟩
  · exact .inr hj

theorem reattempted_kept (hi : Inv W s) (hj : s.jobs.lookup i = some j) :
    (s.reattempted W orig keyIndex now).jobs.lookup i = some j := by
  rw [reattempted_lookup, if_neg]
  · exact hj
  · intro heq
    rw [heq, fresh_of_minted hi.minted _ (le_refl _)] at hj
    cases hj

theorem reattempted_new : (s.reattempted W orig keyIndex now).jobs.lookup (W.ids.mint s.minted) =
      some (nextAttempt (W.ids.mint s.minted) orig now) := by
  rw [reattempted_lookup, if_pos rfl]

theorem minted_reattempted (hi : Inv W s) (horig : s.jobs.lookup id = some orig) :
    Minted W (s.reattempted W orig keyIndex now) := by
  have hgrow : ∀ {x}, (∃ n < s.minted, x = W.ids.mint n) → ∃ n < s.minted + 1, x = W.ids.mint n := by
    rintro x ⟨n, hn, rfl⟩
    exact ⟨n, Nat.lt_succ_of_lt hn, rfl⟩
  refine ⟨?_, ?_, ?_, ?_, ?_⟩
  · intro i j hj
    rcases reattempted_job hj with ⟨rfl, rfl⟩ | hold
    · rfl
    · exact hi.minted.job_id hold
  · intro i j hj
    rw [reattempted_minted]
    rcases reattempted_job hj with ⟨rfl, rfl⟩ | hold
    · exact ⟨s.minted, Nat.lt_succ_self _, rfl⟩
    · exact hgrow (hi.minted.job_minted hold)
  · intro i j hj
    rw [reattempted_minted]
    rcases reattempted_job hj with ⟨rfl, rfl⟩ | hold
    · have hrun := hi.minted.job_run_minted horig
      exact hgrow hrun
    · exact hgrow (hi.minted.job_run_minted hold)
  · intro r run hr
    obtain ⟨run₀, hrun₀, heq⟩ := (rewritten_reattempted ..).run hr
    exact (RunRecord.of_asCreated_eq heq).1.trans (hi.minted.run_id hrun₀)
  · intro r hr
    rw [reattempted_minted]
    exact hgrow (hi.minted.run_minted ((reattempted_stored r).mp hr))

theorem listing_reattempted (hi : Inv W s) : Listing (s.reattempted W orig keyIndex now) := by
  refine ⟨?_, ?_, ?_, ?_⟩
  · intro r i hmem
    rw [reattempted_jobIDs] at hmem
    have hold : ∀ {r}, i ∈ s.jobIDs r →
        ∃ j, (s.reattempted W orig keyIndex now).jobs.lookup i = some j ∧ j.runID = r := by
      intro r hmem
      obtain ⟨j, hj, hr⟩ := hi.listing.listed hmem
      exact ⟨j, reattempted_kept hi hj, hr⟩
    split_ifs at hmem with heq
    · rcases List.mem_append.mp hmem with hmem | hlast
      · exact heq ▸ hold hmem
      · rw [List.mem_singleton.mp hlast]
        exact ⟨_, reattempted_new, heq.symm⟩
    · exact hold hmem
  · intro r
    rw [reattempted_jobIDs]
    split_ifs
    · rw [← List.concat_eq_append]
      exact (hi.listing.nodup _).concat (mint_not_listed hi _)
    · exact hi.listing.nodup r
  · intro r i j hr hj hrun
    rw [reattempted_jobIDs]
    have hr' := (reattempted_stored r).mp hr
    rcases reattempted_job hj with ⟨rfl, rfl⟩ | hold
    · have heq : r = orig.runID := hrun.symm
      rw [if_pos heq]
      exact List.mem_append_right _ (.head _)
    · have hmem := hi.listing.complete hr' hold hrun
      split_ifs with heq
      · exact List.mem_append_left _ (heq ▸ hmem)
      · exact hmem
  · intro r hr
    rw [reattempted_jobIDs]
    split_ifs
    · exact List.append_ne_nil_of_right_ne_nil _ nofun
    · exact hi.listing.nonempty ((reattempted_stored r).mp hr)

theorem attempt_le_of_last (hi : Inv W s)
    (hlast : ∀ j ∈ s.jobsOf orig.runID, j.jobKey = orig.jobKey → j.attempt ≠ orig.attempt + 1)
    (hst : s.Stored orig.runID) (hj : s.jobs.lookup i = some j) (hrun : j.runID = orig.runID)
    (hkey : j.jobKey = orig.jobKey) : j.attempt ≤ orig.attempt := by
  by_contra hlt
  -- attempts have no gap, so one of them would be the next attempt
  obtain ⟨i', j', hj', hrun', hkey', hatt⟩ :=
    hi.indexing.attempt_closed (orig.attempt + 1) (hrun ▸ hst) hj (by omega) (by omega)
  have hmem : j' ∈ s.jobsOf orig.runID :=
    (hi.listing.mem_jobsOf_iff hst).mpr ⟨i', hj', hrun'.trans hrun⟩
  exact hlast j' hmem (hkey'.trans hkey) hatt

/-- The next attempt of a job is numbered if it is the first with its number. -/
theorem NumberedOn.next {P P' : RunID → Prop} (hn : NumberedOn P s) (hP : ∀ r, P' r → P r) (hrun : P orig.runID)
    (found : s.jobs.lookup id = some orig) (hnot : ∀ i, ¬s.AttemptOf orig.runID orig.jobKey (orig.attempt + 1) i) {new}
    (unused : s.jobs.lookup new = none)
    (jobs : ∀ i, s'.jobs.lookup i = if i = new then some (nextAttempt new orig now) else s.jobs.lookup i) :
    NumberedOn P' s' := by
  have hsplit : ∀ {r key a id}, s'.AttemptOf r key a id →
      (id = new ∧ r = orig.runID ∧ key = orig.jobKey ∧ a = orig.attempt + 1) ∨ s.AttemptOf r key a id := by
    rintro r key a id ⟨job, hjob, rfl, rfl, rfl⟩
    rw [jobs] at hjob
    split_ifs at hjob with heq
    · cases hjob
      exact .inl ⟨heq, rfl, rfl, rfl⟩
    · exact .inr (attemptOf_lookup hjob)
  have hclosed : ∀ {r key a id b}, P r → s.AttemptOf r key a id → 1 ≤ b → b ≤ a → ∃ id', s'.AttemptOf r key b id' := by
    intro r key a id b hr h hb hba
    obtain ⟨id', job, hjob, hnum⟩ := hn.closed b hr h hb hba
    refine ⟨id', job, ?_, hnum⟩
    rw [jobs, if_neg]
    · exact hjob
    · rintro rfl
      rw [unused] at hjob
      cases hjob
  refine ⟨?_, ?_⟩
  · intro r key a id id' hr h h'
    rcases hsplit h with ⟨hid, rfl, rfl, rfl⟩ | hold
    · rcases hsplit h' with ⟨hid', -⟩ | hnext
      · rw [hid, hid']
      · exact absurd hnext (hnot _)
    · rcases hsplit h' with ⟨-, rfl, rfl, rfl⟩ | hother
      · exact absurd hold (hnot _)
      · exact hn.unique (hP r hr) hold hother
  · intro r key a id b hr h hb hba
    rcases hsplit h with ⟨-, rfl, rfl, rfl⟩ | hold
    · rcases Nat.lt_or_eq_of_le hba with hlt | rfl
      · exact hclosed hrun (attemptOf_lookup found) hb (Nat.lt_succ_iff.mp hlt)
      · exact ⟨id, h⟩
    · exact hclosed (hP r hr) hold hb hba

theorem indexing_reattempted (hi : Inv W s) (horig : s.jobs.lookup id = some orig)
    (hlast : ∀ j ∈ s.jobsOf orig.runID, j.jobKey = orig.jobKey → j.attempt ≠ orig.attempt + 1)
    (hidx : s.byJobKey.lookup orig.runID = some keyIndex) : Indexing (s.reattempted W orig keyIndex now) := by
  have hst : s.Stored orig.runID := (hi.indexing.stored_iff _).mp (by rw [hidx]; rfl)
  have hnum : NumberedOn (s.reattempted W orig keyIndex now).Stored (s.reattempted W orig keyIndex now) := by
    refine hi.indexing.numbered.next (fun r => (reattempted_stored r).mp) hst horig ?_
      (fresh_of_minted hi.minted _ (le_refl _)) reattempted_lookup
    rintro i ⟨j, hj, hrun, hkey, hatt⟩
    have := attempt_le_of_last hi hlast hst hj hrun hkey
    omega
  refine ⟨fun r => ?_, ?_, ?_, fun hr hj hj' hrun hkey hatt => hnum.unique hr (attemptOf_lookup hj)
    ⟨_, hj', hrun, hkey, hatt⟩, fun b hr hj => hnum.closed b hr (attemptOf_lookup hj)⟩
  · rw [reattempted_stored, ← hi.indexing.stored_iff]
    obtain ⟨runs, heq, -⟩ := reattempted_eq W s orig keyIndex now
    rw [heq]
    rw [GoMap.lookup_insert_ite]
    split_ifs with hr
    · rw [hr, hidx]
      exact iff_of_true rfl rfl
    · rfl
  · intro r key i hi'
    rw [reattempted_indexed hidx] at hi'
    split_ifs at hi' with hrk
    · cases hi'
      refine ⟨_, reattempted_new, hrk.1.symm, hrk.2.symm, fun i' j' hj' hrun hkey => ?_⟩
      show j'.attempt ≤ orig.attempt + 1
      rcases reattempted_job hj' with ⟨rfl, rfl⟩ | hold
      · exact le_refl _
      · have := attempt_le_of_last hi hlast hst hold (hrun.trans hrk.1) (hkey.trans hrk.2)
        omega
    · obtain ⟨j, hj, hrun, hkey, hmax⟩ := hi.indexing.latest hi'
      refine ⟨j, reattempted_kept hi hj, hrun, hkey, fun i' j' hj' hrun' hkey' => ?_⟩
      rcases reattempted_job hj' with ⟨rfl, rfl⟩ | hold
      · exact absurd ⟨hrun'.symm, hkey'.symm⟩ hrk
      · exact hmax i' j' hold hrun' hkey'
  · intro i j hr hj
    rw [reattempted_indexed hidx]
    split_ifs with hrk
    · rfl
    · rcases reattempted_job hj with ⟨rfl, rfl⟩ | hold
      · exact absurd ⟨rfl, rfl⟩ hrk
      · exact hi.indexing.present ((reattempted_stored _).mp hr) hold

theorem binding_reattempted (hb : Binding s) : Binding (s.reattempted W orig keyIndex now) := by
  exact Binding.rewrite (rewritten_reattempted ..).framed ⟨hb.bound, hb.run_bound⟩

theorem reopened_not_terminal (run : RunRecord) : (reopened run).status.isTerminal = false := by
  unfold reopened
  split
  · rfl
  · rename_i h
    simpa using h

theorem reattempted_jobsOf (hi : Inv W s) (r : RunID) : (s.reattempted W orig keyIndex now).jobsOf r =
      if r = orig.runID then s.jobsOf r ++ [nextAttempt (W.ids.mint s.minted) orig now] else s.jobsOf r := by
  have hkept : ∀ r, (s.jobIDs r).filterMap (s.reattempted W orig keyIndex now).jobs.lookup =
      (s.jobIDs r).filterMap s.jobs.lookup := by
    intro r
    refine List.filterMap_congr fun i hmem => ?_
    obtain ⟨j, hj, -⟩ := hi.listing.listed hmem
    rw [hj, reattempted_kept hi hj]
  unfold jobsOf
  rw [reattempted_jobIDs]
  split_ifs with heq
  · subst heq
    rw [List.filterMap_append, hkept, List.filterMap_cons, reattempted_new]
    rfl
  · exact hkept r

theorem settled_reattempted (hi : Inv W s) : Settled (s.reattempted W orig keyIndex now) := by
  refine ⟨?_, ?_, ?_⟩
  · intro r run hr
    rw [reattempted_run] at hr
    split_ifs at hr with heq
    · -- the run is open, and so is its new job
      obtain ⟨run₀, -, rfl⟩ := Option.map_eq_some_iff.mp hr
      refine iff_of_false (by simp [reopened_not_terminal]) fun hall => ?_
      rw [reattempted_jobsOf hi, if_pos heq] at hall
      cases hall _ (List.mem_append_right _ (.head _))
    · rw [reattempted_jobsOf hi, if_neg heq]
      exact hi.settled.run_terminal hr
  · intro r run hr
    rw [reattempted_run] at hr
    split_ifs at hr
    · obtain ⟨run₀, hrun₀, rfl⟩ := Option.map_eq_some_iff.mp hr
      rw [reopened_not_terminal]
      unfold reopened
      split
      · simp
      · rename_i hopen
        rw [hi.settled.run_finished hrun₀]
        simpa using hopen
    · exact hi.settled.run_finished hr
  · intro i j hj
    rcases reattempted_job hj with ⟨rfl, rfl⟩ | hold
    · simp [nextAttempt, JobRunStatus.isTerminal]
    · exact hi.settled.job_finished hold

end Reattempted

theorem inv_rerequestJob (hi : Inv W s) (id : JobRunID) (now : Time) : Inv W (s.rerequestJob W id now).2 := by
  have hout := rerequestJob_outcome W s id now
  generalize s.rerequestJob W id now = out at hout
  cases hout with
  | missing | existing => exact hi
  | orphan found unstored => exact (orphaned_appended hi found unstored now).inv hi
  | attempt found last stored =>
    exact ⟨minted_reattempted hi found, listing_reattempted hi,
      indexing_reattempted hi found last stored, binding_reattempted hi.binding,
      settled_reattempted hi⟩

/-! ## Every reachable store -/

theorem Inv.frame (hi : Inv W s) (h : Framed s s') (hs : Settled s') : Inv W s' :=
  ⟨hi.minted.rewrite h, hi.listing.rewrite h, hi.indexing.rewrite h, hi.binding.rewrite h, hs⟩

theorem Inv.rewrite (hi : Inv W s) (h : Rewritten s s') (hs : Settled s') : Inv W s' := hi.frame h.framed hs

theorem Inv.claims (hi : Inv W s) (claimed : GoMap JobRunID Bool) : Inv W { s with claimed := claimed } :=
  hi.rewrite ⟨rfl, rfl, rfl, rfl, fun _ => rfl, fun _ => rfl⟩ (hi.settled.congr rfl rfl rfl)

/-- A new store satisfies the invariants: it has nothing to look up. -/
theorem inv_new (W : Wiring) : Inv W new where
  minted :=
    { job_id := fun h => by cases h
      job_minted := fun h => by cases h
      job_run_minted := fun h => by cases h
      run_id := fun h => by cases h
      run_minted := fun ⟨_, h⟩ => by cases h }
  listing :=
    { listed := fun h => by cases h
      nodup := fun _ => List.nodup_nil
      complete := fun _ h => by cases h
      nonempty := fun ⟨_, h⟩ => by cases h }
  indexing :=
    { stored_iff := fun _ => iff_of_false Bool.false_ne_true fun ⟨_, h⟩ => by cases h
      latest := fun h => by cases h
      present := fun _ h => by cases h
      attempt_unique := fun _ h => by cases h
      attempt_closed := fun _ _ h => by cases h }
  binding :=
    { bound := fun h => by cases h
      run_bound := fun h => by cases h }
  settled :=
    { run_terminal := fun h => by cases h
      run_finished := fun h => by cases h
      job_finished := fun h => by cases h }

theorem inv_step (hi : Inv W s) (op : StoreOp) : Inv W (op.apply W s) := by
  cases op with
  | recordDelivery d => exact inv_recordDelivery hi d
  | createRun seed now => exact inv_createRun hi seed now
  | claimNextQueuedJob =>
    exact hi.rewrite (written_claimNextQueuedJob W s).toRewritten (settled_claimNextQueuedJob hi.settled hi.listing)
  | releaseClaim id => exact hi.claims _
  | ackDispatched id obj now =>
    exact hi.rewrite (written_ackDispatched s id obj now).toRewritten (settled_ackDispatched hi.settled id obj now)
  | applyObserved id phase now =>
    exact hi.rewrite (written_applyObserved s id phase now).toRewritten
      (settled_applyObserved hi.settled hi.listing id phase now)
  | cancelRun id now =>
    exact hi.rewrite (written_cancelRun s id now).toRewritten (settled_cancelRun hi.settled hi.listing id now)
  | rerequestJob id now => exact inv_rerequestJob hi id now
  | markCollected id now =>
    exact hi.rewrite (written_markCollected s id now).toRewritten (settled_markCollected hi.settled id now)

theorem inv_reachable (h : Reachable W s) : Inv W s := by
  induction h with
  | refl => exact inv_new W
  | tail _ hstep ih =>
    obtain ⟨op, rfl⟩ := hstep
    exact inv_step ih op

theorem Indexing.depStatus (hi : Indexing s) {r key st} (h : s.depStatus r key = some st) :
    ∃ id j, s.indexed r key = some id ∧ s.jobs.lookup id = some j ∧ j.runID = r ∧ j.jobKey = key ∧ j.status = st ∧
      ∀ id' j', s.jobs.lookup id' = some j' → j'.runID = r → j'.jobKey = key → j'.attempt ≤ j.attempt := by
  obtain ⟨id, hid, hst⟩ := Option.bind_eq_some_iff.mp h
  obtain ⟨j, hj, hr, hk, hmax⟩ := hi.latest hid
  rw [hj] at hst
  exact ⟨id, j, hid, hj, hr, hk, Option.some.inj hst, hmax⟩

/-- In every reachable store a run is terminal exactly when all the jobs listed for it are, and the
finish times of the run and of its jobs are set exactly when they are terminal. -/
theorem reachable_settled (W : Wiring) (s : DurableStore) (h : Reachable W s) (r : RunID) (run : RunRecord)
    (hrun : s.getRun r = .ok run) : ∃ jobs, s.listJobRuns r = .ok jobs ∧
      (run.status.isTerminal ↔ ∀ j ∈ jobs, j.status.isTerminal) ∧
      (run.finishedAt.isSome ↔ run.status.isTerminal) ∧
      ∀ j ∈ jobs, (j.finishedAt.isSome ↔ j.status.isTerminal) := by
  have hi := inv_reachable h
  have hlook := getRun_eq_ok.mp hrun
  refine ⟨s.jobsOf r, ?_, hi.settled.run_terminal hlook, hi.settled.run_finished hlook, ?_⟩
  · unfold listJobRuns
    rw [hlook]
  · intro j hj
    obtain ⟨id, -, hid⟩ := mem_jobsOf.mp hj
    exact hi.settled.job_finished hid

/-- The store after these operations. -/
def afterOps (W : Wiring) (ops : List StoreOp) : DurableStore := ops.foldl (fun s op => op.apply W s) new

theorem reachable_foldl (h : Reachable W s) (ops : List StoreOp) :
    Reachable W (ops.foldl (fun s op => op.apply W s) s) := by
  induction ops generalizing s with
  | nil => exact h
  | cons op rest ih => exact ih (h.tail ⟨op, rfl⟩)

theorem reachable_afterOps (W : Wiring) (ops : List StoreOp) : Reachable W (afterOps W ops) :=
  reachable_foldl .refl ops

/-- `b` needs `a`, which is dispatched and fails, and `b` is skipped. -/
def skipOps : List StoreOp :=
  [.recordDelivery pushDelivery,
    .createRun (pushSeed [intentOf "a" [] "", intentOf "b" ["a"] ""]) 0, .claimNextQueuedJob,
    .ackDispatched "ii" ⟨"jobrun-ii", "u"⟩ 1, .applyObserved "ii" .failed 2, .claimNextQueuedJob]

/-- A failed job and one that was skipped for it: the run has failed. -/
theorem reachable_settled_skip : ∃ run, (afterOps Wiring.unary skipOps).getRun "i" = .ok run ∧ run.status = .failed ∧
      ∃ jobs, (afterOps Wiring.unary skipOps).listJobRuns "i" = .ok jobs ∧ jobs.map (·.status) = [.failed, .skipped] ∧
        (run.status.isTerminal ↔ ∀ j ∈ jobs, j.status.isTerminal) := by
  refine ⟨_, rfl, rfl, ?_⟩
  obtain ⟨jobs, hjobs, hterm, -, -⟩ := reachable_settled Wiring.unary _
    (reachable_afterOps Wiring.unary skipOps) "i" _ rfl
  refine ⟨jobs, hjobs, ?_, hterm⟩
  cases hjobs
  rfl

end Forgelet.DurableStore
