import Forgelet.Server.Proofs.DispatchProofs

/-!
# Proofs: the empty condition and `success()`

A job without a condition is decided by the gate of the store, which asks for success of the latest attempt of every
key. A job with `success()` is decided by the sweep, which asks that no attempt failed or was cancelled. Once all
dependencies of a queued job have ended, both decide in the next `DispatchOnce`, and alike exactly if the two questions
have the same answer.
-/

namespace Forgelet.Server

open DurableStore Relation
open Bytes (ofString)
open Expression (parse implicitSuccess opening evaluateCondition)

/-- Two records that differ at most in what no invariant speaks of. -/
structure Alike (j j' : JobRunRecord) : Prop where
  id : j'.id = j.id
  runID : j'.runID = j.runID
  jobKey : j'.jobKey = j.jobKey
  attempt : j'.attempt = j.attempt
  status : j'.status = j.status
  finishedAt : j'.finishedAt = j.finishedAt

variable {i : JobRunID} {r : RunID} {key : String}

section Alike

variable {W : Wiring} {s : DurableStore} {id : JobRunID} {job job' : JobRunRecord}

theorem Alike.refl (j : JobRunRecord) : Alike j j := ⟨rfl, rfl, rfl, rfl, rfl, rfl⟩

theorem alike_setJob (hjob : s.jobs.lookup id = some job) (h : Alike job job') {j'}
    (hj' : (s.setJob id job').jobs.lookup i = some j') : ∃ j, s.jobs.lookup i = some j ∧ Alike j j' := by
  rw [setJob_lookup] at hj'
  split_ifs at hj' with heq
  · cases hj'
    exact ⟨job, heq ▸ hjob, h⟩
  · exact ⟨j', hj', .refl j'⟩

theorem setJob_alike (hjob : s.jobs.lookup id = some job) (h : Alike job job') {j} (hj : s.jobs.lookup i = some j) :
    ∃ j', (s.setJob id job').jobs.lookup i = some j' ∧ Alike j j' := by
  rw [setJob_lookup]
  split_ifs with heq
  · subst heq
    obtain rfl := Option.mem_unique hjob hj
    exact ⟨job', rfl, h⟩
  · exact ⟨j, hj, .refl j⟩

theorem inv_setJob_alike (hi : Inv W s) (hjob : s.jobs.lookup id = some job) (h : Alike job job') :
    Inv W (s.setJob id job') := by
  refine hi.frame ⟨⟨rfl, rfl, rfl, rfl, fun _ => rfl, fun _ => rfl⟩, fun hj' => ?_, fun hj => ?_⟩
    (settled_setJob hi.settled hjob (by rw [h.status]) h.finishedAt)
  · obtain ⟨j, hj, hal⟩ := alike_setJob hjob h hj'
    exact ⟨j, hj, hal.id, hal.runID, hal.jobKey, hal.attempt⟩
  · obtain ⟨j', hj', hal⟩ := setJob_alike hjob h hj
    exact ⟨j', hj', hal.id, hal.runID, hal.jobKey, hal.attempt⟩

end Alike

/-- The latest attempts of the dependencies have ended. -/
abbrev DepsEnded (s : DurableStore) (job : JobRunRecord) : Prop :=
  ∀ key ∈ job.dependsOn, ∃ status, s.depStatus job.runID key = some status ∧ status.isTerminal

/-- The latest attempts of the dependencies succeeded. -/
abbrev DepsSucceeded (s : DurableStore) (job : JobRunRecord) : Prop :=
  ∀ key ∈ job.dependsOn, s.depStatus job.runID key = some .succeeded

/-- All attempts of the dependencies have ended. -/
abbrev AttemptsEnded (s : DurableStore) (job : JobRunRecord) : Prop :=
  ∀ key ∈ job.dependsOn, ∀ j ∈ s.jobsOf job.runID, j.jobKey = key → j.status.isTerminal

/-- No attempt of a dependency failed or was cancelled. -/
abbrev NoneStopped (s : DurableStore) (job : JobRunRecord) : Prop :=
  ∀ key ∈ job.dependsOn, ∀ j ∈ s.jobsOf job.runID, stopped key j = false

/-- What has ended stays as it is. -/
def Sticky (_ : JobRunID) (a b : JobRunStatus) : Prop := a.isTerminal = true → b = a

theorem Sticky.refl (id : JobRunID) (a : JobRunStatus) : Sticky id a a := fun _ => rfl

theorem Sticky.trans {id a b c} (h : Sticky id a b) (h' : Sticky id b c) : Sticky id a c := by
  intro hterm
  have hb := h hterm
  rw [← hb] at hterm ⊢
  exact h' hterm

section Sweep

variable {W : Wiring} {s t : DurableStore} {id : JobRunID} {job : JobRunRecord} (order : Nat → MapOrder RunID)
  (now : JobRunID → Time)

theorem sticky_applyObserved (s : DurableStore) (id : JobRunID) (phase : ObservedPhase) (now : Time) :
    Moves Sticky s (s.applyObserved id phase now).2 := by
  refine moves_applyObserved Sticky.refl id phase now fun job target _ hopen _ hterm => ?_
  rw [hopen] at hterm
  cases hterm

theorem lookup_applyObserved_ne (hne : i ≠ id) (s : DurableStore) (phase : ObservedPhase) (now : Time) :
    (s.applyObserved id phase now).2.jobs.lookup i = s.jobs.lookup i := by
  have hout := applyObserved_outcome s id phase now
  generalize s.applyObserved id phase now = out at hout
  cases hout with
  | missing | stale => rfl
  | refreshed => rw [refreshRun_jobs]
  | moved => rw [refreshRun_jobs, setJob_lookup, if_neg hne]

/-- A queued job that is observed to be skipped is skipped, and stays so. -/
theorem skipped_applyObserved (hjob : s.jobs.lookup id = some job) (h : job.status = .queued ∨ job.status = .skipped)
    (now : Time) : ∃ j', (s.applyObserved id .skipped now).2.jobs.lookup id = some j' ∧ j'.status = .skipped := by
  unfold applyObserved
  rw [hjob]
  dsimp only
  rcases h with hq | hskipped
  · rw [hq]
    refine ⟨observed job .skipped now, ?_, observed_status job .skipped now⟩
    exact (congrArg (AList.lookup id) (refreshRun_jobs _ _ _)).trans ((setJob_lookup _ _ _ _).trans (if_pos rfl))
  · rw [hskipped]
    exact ⟨job, hjob, hskipped⟩

/-- What a sweep keeps. -/
structure SweptFrom (W : Wiring) (s t : DurableStore) : Prop where
  inv : Inv W t
  moves : Moves Sticky s t
  claimed : t.claimed = s.claimed

theorem SweptFrom.applyObserved (h : SweptFrom W s t) (id : JobRunID) (phase : ObservedPhase) (now : Time) :
    SweptFrom W s (t.applyObserved id phase now).2 where
  inv := inv_step h.inv (.applyObserved id phase now)
  moves := h.moves.trans Sticky.trans (sticky_applyObserved t id phase now)
  claimed := (claimed_apply W t (.applyObserved id phase now) rfl).trans h.claimed

theorem sweep_job (hi : Inv W s) {P : Option JobRunRecord → Prop} (hP : P (s.jobs.lookup id))
    (hvisit : ∀ {t u : DurableStore} {rec : JobRunRecord} {run : RunRecord} (progress : Bool),
      SweptFrom W s t → rec.id = id → P (some rec) → rec.status = .queued →
      t.runs.lookup rec.runID = some run → P (u.jobs.lookup id) →
      P ((sweepJob now run.event (t.jobsOf rec.runID) (u, progress) rec).1.jobs.lookup id)) :
    SweptFrom W s (evaluateDeferredConditions order now s) ∧
      P ((evaluateDeferredConditions order now s).jobs.lookup id) := by
  refine Progress.untilQuiet_invariant (P := fun t => SweptFrom W s t ∧ P (t.jobs.lookup id))
    (fun n s₀ hs₀ => ?_) _ ⟨⟨hi, Moves.refl Sticky.refl s, rfl⟩, hP⟩
  refine sweepPass_keeps (P := fun t => SweptFrom W s t ∧ P (t.jobs.lookup id)) (order n) hs₀
    fun {t u rec run} progress ht hu hrec hrun => ?_
  refine ⟨sweepJob_invariant (fun _ id phase now _ h => h.applyObserved id phase now) hu.1 rec, ?_⟩
  obtain ⟨⟨i, hfound⟩, hq⟩ := mem_listQueuedJobs.mp hrec
  by_cases hid : rec.id = id
  · have hown := hs₀.1.inv.minted.job_id hfound
    rw [← hown, hid] at hfound
    exact hvisit progress ht.1 hid (hfound ▸ hs₀.2) hq hrun hu.2
  · -- the visit of another job does not touch the record
    have hout : SweepOutcome now run.event (t.jobsOf rec.runID) (u, progress) rec
        (sweepJob now run.event (t.jobsOf rec.runID) (u, progress) rec) := sweepJob_outcome (u, progress) rec
    generalize sweepJob now run.event (t.jobsOf rec.runID) (u, progress) rec = out at hout
    cases hout with
    | waits | holds => exact hu.2
    | ended =>
      rw [lookup_applyObserved_ne (Ne.symm hid)]
      exact hu.2

theorem sweep_unconditional (hi : Inv W s) (hjob : s.jobs.lookup id = some job) (hcond : job.condition = "") :
    SweptFrom W s (evaluateDeferredConditions order now s) ∧
      (evaluateDeferredConditions order now s).jobs.lookup id = some job := by
  refine sweep_job order now hi (P := (· = some job)) hjob fun {t u rec run} progress _ _ hrec _ _ hu => ?_
  cases hrec
  unfold sweepJob
  rw [hcond]
  exact hu

theorem forall_jobsOf {p q : JobRunRecord → Prop} (hmoves : Moves Sticky s t)
    (hpq : ∀ {j j'}, j ∈ s.jobsOf r → j'.jobKey = j.jobKey → (j.status.isTerminal → j'.status = j.status) →
      (p j ↔ q j')) :
    (∀ j ∈ s.jobsOf r, p j) ↔ ∀ j ∈ t.jobsOf r, q j := by
  have hids := hmoves.rewritten.jobIDs_eq r
  constructor
  · intro h j' hj'
    obtain ⟨i, hmem, hlook'⟩ := mem_jobsOf.mp hj'
    obtain ⟨j, hlook, hcreated, hstick⟩ := hmoves.job hlook'
    have hj := mem_jobsOf.mpr ⟨i, hids ▸ hmem, hlook⟩
    exact (hpq hj (JobRunRecord.of_asCreated_eq hcreated).2.2.1 hstick).mp (h j hj)
  · intro h j hj
    obtain ⟨i, hmem, hlook⟩ := mem_jobsOf.mp hj
    obtain ⟨j', hlook', hcreated⟩ := hmoves.rewritten.symm.job hlook
    refine (hpq hj (JobRunRecord.of_asCreated_eq hcreated).2.2.1.symm (hmoves.status hlook hlook')).mpr (h j' ?_)
    exact mem_jobsOf.mpr ⟨i, hids ▸ hmem, hlook'⟩

/-- The attempts of a dependency that have ended are as they were. -/
theorem stopped_of_sticky (hmoves : Moves Sticky s t) (hready : AttemptsEnded s job) :
    NoneStopped t job ↔ NoneStopped s job := by
  refine forall_congr' fun key => forall_congr' fun hkey => (forall_jobsOf hmoves fun {j j'} hj hjkey hstick => ?_).symm
  unfold stopped
  rw [hjkey]
  by_cases heq : j.jobKey = key
  · rw [hstick (hready key hkey j hj heq)]
  · simp [heq]

theorem ready_of_sticky (hmoves : Moves Sticky s t) (hready : AttemptsEnded s job) : AttemptsEnded t job := by
  intro key hkey
  refine (forall_jobsOf hmoves fun {j j'} hj hjkey hstick => ?_).mp (hready key hkey)
  rw [hjkey]
  refine forall_congr' fun heq => ?_
  rw [hstick (hready key hkey j hj heq)]

section Success

variable (hi : Inv W s) (hjob : s.jobs.lookup id = some job) (hcond : job.condition = "success()")
  (hready : AttemptsEnded s job)
include hi hjob hcond hready

theorem sweep_success (hgo : NoneStopped s job) :
    SweptFrom W s (evaluateDeferredConditions order now s) ∧
      (evaluateDeferredConditions order now s).jobs.lookup id = some job := by
  refine sweep_job order now hi (P := (· = some job)) hjob fun {t u rec run} progress ht _ hrec _ _ hu => ?_
  obtain rfl := Option.some_inj.mp hrec
  have hvalue : checkCondition run.event rec (t.jobsOf rec.runID) rec.condition = .ok true := by
    rw [hcond, checkCondition_success,
      decide_eq_true (conditionStatus_eq_success.mpr ((stopped_of_sticky ht.moves hready).mpr hgo))]
  unfold sweepJob
  rw [hvalue]
  split_ifs <;> exact hu

theorem sweep_stopped (hq : job.status = .queued) {run} (hrun : s.runs.lookup job.runID = some run)
    (hstop : ¬NoneStopped s job) :
    ∃ j', (evaluateDeferredConditions order now s).jobs.lookup id = some j' ∧ j'.status = .skipped := by
  -- the value of the condition is never an error, so the job is left or skipped
  have hends : SweptFrom W s (evaluateDeferredConditions order now s) ∧
      ((evaluateDeferredConditions order now s).jobs.lookup id = some job ∨
        ∃ j', (evaluateDeferredConditions order now s).jobs.lookup id = some j' ∧ j'.status = .skipped) := by
    refine sweep_job order now hi (P := fun found => found = some job ∨ ∃ j', found = some j' ∧ j'.status = .skipped)
      (.inl hjob) fun {t u rec run} progress ht hid hrec hrecq _ hu => ?_
    obtain rfl : rec = job := by
      rcases hrec with hrec | ⟨j', hj', hskipped⟩
      · exact Option.some.inj hrec
      · cases hj'
        rw [hskipped] at hrecq
        cases hrecq
    unfold sweepJob
    rw [hcond, checkCondition_success]
    split_ifs
    · exact hu
    · exact hu
    · split
      · cases ‹_›
      · rw [projectObserved_store, hid]
        right
        rcases hu with hu | ⟨j', hu, hskipped⟩
        · exact skipped_applyObserved hu (.inl hq) _
        · exact skipped_applyObserved hu (.inr hskipped) _
      · exact hu
  obtain ⟨hfrom, hleft | hskipped⟩ := hends
  · exfalso
    obtain ⟨run', hrun', -⟩ := hfrom.moves.rewritten.symm.run hrun
    have hready' := ready_of_sticky hfrom.moves hready
    have htrue := swept_evaluateDeferredConditions order now hi hleft hq (by rw [hcond]; decide)
      (by rw [hcond]; rfl) hrun' (conditionReady_iff.mpr hready')
    rw [hcond, checkCondition_success, Except.ok.injEq, decide_eq_true_eq, conditionStatus_eq_success] at htrue
    exact hstop ((stopped_of_sticky hfrom.moves hready).mp htrue)
  · exact hskipped

end Success

end Sweep

section Drain

variable {W : Wiring} {s t : DurableStore} {id : JobRunID} {job : JobRunRecord} (hjob : s.jobs.lookup id = some job)
  (hdeps : DepsEnded s job)
include hjob hdeps

/-- A job whose dependencies have ended is never blocked. -/
theorem not_blocked_of_ended (hmoves : Moves (Drains s) s t) : t.dependencyState id ≠ .depsBlocked := by
  intro hblocked
  obtain ⟨job', hjob', hcreated⟩ := hmoves.rewritten.symm.job hjob
  obtain ⟨-, hrun, -, -, hkeys, -⟩ := JobRunRecord.of_asCreated_eq hcreated
  rw [dependencyState_eq hjob', ← hrun, ← hkeys] at hblocked
  obtain ⟨key, hkey, hopen⟩ := dependencyLoop_blocked (by decide) hblocked
  obtain ⟨status, hstatus, hterm⟩ := hdeps key hkey
  have hafter := depStatus_after hmoves hstatus hterm
  rcases hopen with hnone | hopen
  · rw [depStatus, hnone] at hafter
    cases hafter
  · rw [hopen status hafter] at hterm
    cases hterm

/-- Without faults the loop takes such a job off the queue, if it is not claimed. -/
theorem drain_takes (now : Nat → Time) {faults : Nat → DispatchFaults} (hfaults : ∀ n, faults n = .none) {fuel : Nat}
    {w : Stores} (hi : Inv W w.durable) (hmoves : Moves (Drains s) s w.durable)
    (hfuel : w.durable.countQueuedJobs < fuel) (hfree : w.durable.isClaimed id = false) :
    ∃ job', (drain W faults now fuel w).stores.durable.jobs.lookup id = some job' ∧ job'.status ≠ .queued := by
  obtain ⟨t, ⟨hmoves, hfree⟩, hskips, hnone, -⟩ := drain_last (W := W) faults now
    (P := fun t => Moves (Drains s) s t ∧ t.isClaimed id = false)
    (fun now ⟨hmoves, hfree⟩ hskips hclaim => ⟨moves_drain_ack (moves_drain_skips hmoves hskips) hclaim _ now,
      (isClaimed_released hskips hclaim id).trans hfree⟩) hi ⟨hmoves, hfree⟩ hfuel hfaults
  obtain ⟨before, hbefore, -⟩ := hmoves.rewritten.symm.job hjob
  obtain ⟨after, hafter, -⟩ := (written_skips hskips).symm.job hbefore
  refine ⟨after, hafter, fun hq => ?_⟩
  obtain ⟨t', hbefore, -, -, hblocked | ⟨_, hq', hskip⟩⟩ :=
    passed_of_none hnone (skips_queued hskips hafter hq) hq hfree
  · exact not_blocked_of_ended hjob hdeps (moves_drain_skips hmoves hbefore) hblocked
  · obtain ⟨job', hjob', hoff⟩ := skipped_off_queue hq' hskip
    exact hoff (Option.mem_unique hafter hjob' ▸ hq)

end Drain

/-- What `DispatchOnce` has made of a job. -/
def decision (W : Wiring) (c : Circumstances) (w : Stores) (id : JobRunID) : Option JobRunStatus :=
  ((dispatchOnce W c w).stores.durable.jobs.lookup id).map (·.status)

/-- The stores with another condition of the job. -/
def withCondition (w : Stores) (id : JobRunID) (job : JobRunRecord) (cond : String) : Stores :=
  { w with durable := w.durable.setJob id { job with condition := cond } }

section Decision

variable {W : Wiring} {s t : DurableStore} {id : JobRunID} {job : JobRunRecord}

theorem depStatus_of_sticky (hmoves : Moves Sticky s t) {status} (hterm : status.isTerminal)
    (h : s.depStatus r key = some status) : t.depStatus r key = some status := by
  obtain ⟨i, hidx, hst⟩ := Option.bind_eq_some_iff.mp h
  obtain ⟨j, hj, rfl⟩ := Option.map_eq_some_iff.mp hst
  obtain ⟨j', hj', -⟩ := hmoves.rewritten.symm.job hj
  rw [depStatus, hmoves.rewritten.indexed_eq, hidx, Option.bind_some, hj', Option.map_some, hmoves.status hj hj' hterm]

theorem SkipReach.queued (h : SkipReach s id) : ∃ j, s.jobs.lookup id = some j ∧ j.status = .queued := by
  cases h with
  | ended found queued => exact ⟨_, found, queued⟩
  | via found queued => exact ⟨_, found, queued⟩

section Ended

variable (hjob : s.jobs.lookup id = some job) (hdeps : DepsEnded s job)
include hjob hdeps

/-- Such a job may be skipped by the loop only if a dependency ended without success. -/
theorem unsuccessful_of_skipReach (h : SkipReach s id) : job.condition = "" ∧ ¬DepsSucceeded s job := by
  cases h with
  | ended found queued unconditional seen shown ended =>
    obtain rfl := Option.mem_unique hjob found
    refine ⟨unconditional, fun hall => ?_⟩
    obtain ⟨before, after, heq, -⟩ := seen
    obtain rfl := Option.mem_unique (hall _ (heq ▸ List.mem_append_right _ (.head _))) shown
    cases ended
  | via found queued unconditional seen latest skipped =>
    -- what may be skipped is queued, but the dependencies have ended
    obtain rfl := Option.mem_unique hjob found
    obtain ⟨before, after, heq, -⟩ := seen
    obtain ⟨status, hstatus, hterm⟩ := hdeps _ (heq ▸ List.mem_append_right _ (.head _))
    obtain ⟨dep, hdep, hdepq⟩ := skipped.queued
    rw [depStatus, latest, Option.bind_some, hdep, Option.map_some, Option.some_inj] at hstatus
    rw [← hstatus, hdepq] at hterm
    cases hterm

theorem succeeded_of_handed (hcond : job.condition = "") {m} (hm : Handed W s m) (hid : m.job.id = id) :
    DepsSucceeded s job := by
  intro key hkey
  obtain ⟨t, i, hmoves, hinv, hclaim, -⟩ := hm
  have hown := (hinv.minted.job_id hclaim.found).symm.trans hid
  subst hown
  obtain ⟨old, hold, hcreated, -⟩ := hmoves.job hclaim.found
  obtain rfl := Option.mem_unique hjob hold
  obtain ⟨-, hrun, -, -, hkeys, hsame⟩ := JobRunRecord.of_asCreated_eq hcreated
  have hready : t.dependencyState i = .depsReady := by
    rcases hclaim.gate with hready | ⟨-, hne⟩
    · exact hready
    · exact absurd (hsame.trans hcond) hne
  rw [dependencyState_eq hclaim.found, hrun, hkeys] at hready
  obtain ⟨status, hstatus, hterm⟩ := hdeps key hkey
  rw [hstatus, ← depStatus_after hmoves hstatus hterm]
  exact (dependencyLoop_ready.mp hready).2 key hkey

end Ended

/-- A queued job whose dependencies have ended is skipped or dispatched by the loop. -/
theorem drain_decides (now : Nat → Time) {faults : Nat → DispatchFaults} (hfaults : ∀ n, faults n = .none) {w}
    (hi : Inv W w.durable) (hjob : w.durable.jobs.lookup id = some job) (hq : job.status = .queued)
    (hfree : w.durable.isClaimed id = false) (hdeps : DepsEnded w.durable job) :
    ∃ job', (drain W faults now (w.durable.countQueuedJobs + 1) w).stores.durable.jobs.lookup id = some job' ∧
      ((job'.status = .dispatched ∧ (job.condition = "" → DepsSucceeded w.durable job)) ∨
        (job'.status = .skipped ∧ job.condition = "" ∧ ¬DepsSucceeded w.durable job)) := by
  have hstart : Moves (Drains w.durable) w.durable w.durable := Moves.refl Drains.refl w.durable
  have hspec := drain_spec faults now (w.durable.countQueuedJobs + 1) hi hstart
  obtain ⟨job', hjob', hoff⟩ := drain_takes hjob hdeps now hfaults hi hstart (Nat.lt_succ_self _) hfree
  refine ⟨job', hjob', ?_⟩
  rcases hspec.moves.status hjob hjob' with hsame | ⟨-, hdispatched | ⟨hskipped, hreach⟩⟩
  · exact absurd (hsame.trans hq) hoff
  · refine .inl ⟨hdispatched, fun hcond => ?_⟩
    obtain ⟨m, hm, hid⟩ := hspec.covered id ⟨job, job', hjob, by rw [hq]; decide, hjob', hdispatched⟩
    exact succeeded_of_handed hjob hdeps hcond (hspec.handed m hm) hid
  · exact .inr ⟨hskipped, unsuccessful_of_skipReach hjob hdeps hreach⟩

section Pass

variable {w : Stores} {c : Circumstances} (hfaults : ∀ n, c.faults n = .none) (hq : job.status = .queued)
  (hfree : w.durable.isClaimed id = false) (hdeps : DepsEnded w.durable job)
include hfaults hq hfree hdeps

theorem decides_of_swept (hswept : SweptFrom W w.durable (evaluateDeferredConditions c.order c.sweepTime w.durable))
    (hleft : (evaluateDeferredConditions c.order c.sweepTime w.durable).jobs.lookup id = some job) :
    (decision W c w id = some .dispatched ∧ (job.condition = "" → DepsSucceeded w.durable job)) ∨
      (decision W c w id = some .skipped ∧ job.condition = "" ∧ ¬DepsSucceeded w.durable job) := by
  have hfree' : (swept c w).durable.isClaimed id = false := by
    rw [isClaimed, show (swept c w).durable.claimed = w.durable.claimed from hswept.claimed]
    exact hfree
  have hdeps' : DepsEnded (swept c w).durable job := by
    intro key hkey
    obtain ⟨status, hstatus, hterm⟩ := hdeps key hkey
    exact ⟨status, depStatus_of_sticky hswept.moves hterm hstatus, hterm⟩
  have hsame : DepsSucceeded (swept c w).durable job ↔ DepsSucceeded w.durable job := by
    refine forall₂_congr fun key hkey => ?_
    obtain ⟨status, hstatus, hterm⟩ := hdeps key hkey
    rw [hstatus, show (swept c w).durable.depStatus job.runID key = some status from
      depStatus_of_sticky hswept.moves hterm hstatus]
  obtain ⟨job', hjob', hhow⟩ := drain_decides (W := W) c.drainTime hfaults (w := swept c w) hswept.inv hleft hq hfree'
    hdeps'
  have hdecision : decision W c w id = some job'.status := by
    unfold decision dispatchOnce
    rw [hjob', Option.map_some]
  rw [hdecision, Option.some_inj, Option.some_inj, ← hsame]
  exact hhow

variable (hi : Inv W w.durable) (hjob : w.durable.jobs.lookup id = some job)
include hi hjob

theorem decision_unconditional (hcond : job.condition = "") :
    (decision W c w id = some .dispatched ∧ DepsSucceeded w.durable job) ∨
      (decision W c w id = some .skipped ∧ ¬DepsSucceeded w.durable job) := by
  obtain ⟨hswept, hleft⟩ := sweep_unconditional c.order c.sweepTime hi hjob hcond
  rcases decides_of_swept hfaults hq hfree hdeps hswept hleft with ⟨hd, hall⟩ | ⟨hs, -, hnot⟩
  · exact .inl ⟨hd, hall hcond⟩
  · exact .inr ⟨hs, hnot⟩

theorem decision_success (hcond : job.condition = "success()") {run} (hrun : w.durable.runs.lookup job.runID = some run)
    (hready : AttemptsEnded w.durable job) :
    (decision W c w id = some .dispatched ∧ NoneStopped w.durable job) ∨
      (decision W c w id = some .skipped ∧ ¬NoneStopped w.durable job) := by
  by_cases hgo : NoneStopped w.durable job
  · obtain ⟨hswept, hleft⟩ := sweep_success c.order c.sweepTime hi hjob hcond hready hgo
    rcases decides_of_swept hfaults hq hfree hdeps hswept hleft with ⟨hd, -⟩ | ⟨-, hempty, -⟩
    · exact .inl ⟨hd, hgo⟩
    · rw [hcond] at hempty
      exact absurd hempty (by decide)
  · -- the sweep has skipped the job, and the loop leaves it so
    obtain ⟨skipped, hskipped, hstatus⟩ := sweep_stopped c.order c.sweepTime hi hjob hcond hready hq hrun hgo
    refine .inr ⟨?_, hgo⟩
    have hspec := drain_spec (W := W) c.faults c.drainTime ((swept c w).durable.countQueuedJobs + 1) (w := swept c w)
      (inv_evaluateDeferredConditions c.order c.sweepTime hi) (Moves.refl Drains.refl _)
    obtain ⟨job', hjob', -⟩ := hspec.moves.rewritten.symm.job hskipped
    have hsame := (hspec.moves.status hskipped hjob').of_not_queued (by rw [hstatus]; decide)
    unfold decision dispatchOnce
    rw [hjob', Option.map_some, hsame, hstatus]

end Pass

theorem latestIs_succeeded_iff (hi : Inv W s) (hr : s.Stored r) :
    LatestIs (s.jobsOf r) key (· == .succeeded) ↔ s.depStatus r key = some .succeeded := by
  constructor
  · rintro ⟨dep, hdep, hkey, hmax, hstatus⟩
    obtain ⟨i, hlook, hrun⟩ := (hi.listing.mem_jobsOf_iff hr).mp hdep
    refine (depStatus_iff hi hr).mpr ⟨i, dep, hlook, hrun, hkey, beq_iff_eq.mp hstatus, fun i' j' hj' hrun' hkey' => ?_⟩
    exact hmax j' ((hi.listing.mem_jobsOf_iff hr).mpr ⟨i', hj', hrun'⟩) hkey'
  · intro h
    exact latestIs_of_depStatus hi h rfl

theorem stopped_eq_false {j} :
    stopped key j = false ↔ (j.jobKey = key → j.status ≠ .failed ∧ j.status ≠ .cancelled) := by
  unfold stopped
  by_cases hkey : j.jobKey = key <;> simp [hkey]

theorem depStatus_withCondition (hjob : s.jobs.lookup id = some job) (cond : String) (r : RunID) (key : String) :
    (s.setJob id { job with condition := cond }).depStatus r key = s.depStatus r key := by
  refine Option.bind_congr fun i _ => ?_
  rw [setJob_lookup]
  split_ifs with heq
  · rw [heq, hjob, Option.map_some, Option.map_some]
  · rfl

theorem forall_jobsOf_withCondition (hjob : s.jobs.lookup id = some job) (cond : String)
    {p : String → JobRunStatus → Prop} :
    (∀ j ∈ (s.setJob id { job with condition := cond }).jobsOf r, p j.jobKey j.status) ↔
      ∀ j ∈ s.jobsOf r, p j.jobKey j.status := by
  have halike : Alike job { job with condition := cond } := ⟨rfl, rfl, rfl, rfl, rfl, rfl⟩
  simp only [mem_jobsOf, setJob_jobIDs]
  constructor
  · rintro h j ⟨i, hmem, hj⟩
    obtain ⟨j', hj', hal⟩ := setJob_alike hjob halike hj
    rw [← hal.jobKey, ← hal.status]
    exact h j' ⟨i, hmem, hj'⟩
  · rintro h j' ⟨i, hmem, hj'⟩
    obtain ⟨j, hj, hal⟩ := alike_setJob hjob halike hj'
    rw [hal.jobKey, hal.status]
    exact h j ⟨i, hmem, hj⟩

end Decision

/-- The next `DispatchOnce` without faults dispatches or skips a queued job whose dependencies have all ended, alike
with the empty condition and with `success()` exactly if all latest attempts have succeeded if and only if no attempt
failed or was cancelled. -/
theorem default_condition_iff (W : Wiring) (w : Stores) (h : Reachable W w.durable) (id : JobRunID) (job : JobRunRecord)
    (hjob : w.durable.jobs.lookup id = some job) (hq : job.status = .queued) (hfree : w.durable.isClaimed id = false)
    (hstored : w.durable.Stored job.runID)
    (hkeys : ∀ key ∈ job.dependsOn, ∃ dep ∈ w.durable.jobsOf job.runID, dep.jobKey = key)
    (hended : ∀ key ∈ job.dependsOn, ∀ dep ∈ w.durable.jobsOf job.runID, dep.jobKey = key → dep.status.isTerminal)
    (c c' : Circumstances) (hc : ∀ n, c.faults n = .none) (hc' : ∀ n, c'.faults n = .none) :
    ∃ d d', decision W c (withCondition w id job "") id = some d ∧
      decision W c' (withCondition w id job "success()") id = some d' ∧
      (d = .dispatched ∨ d = .skipped) ∧ (d' = .dispatched ∨ d' = .skipped) ∧ (d = d' ↔
        ((∀ key ∈ job.dependsOn, LatestIs (w.durable.jobsOf job.runID) key (· == .succeeded)) ↔
          ∀ key ∈ job.dependsOn, ∀ dep ∈ w.durable.jobsOf job.runID, dep.jobKey = key →
            dep.status ≠ .failed ∧ dep.status ≠ .cancelled)) := by
  have hi := inv_reachable h
  have hinv : ∀ cond, Inv W (withCondition w id job cond).durable :=
    fun cond => inv_setJob_alike hi hjob ⟨rfl, rfl, rfl, rfl, rfl, rfl⟩
  have hfound : ∀ cond, (withCondition w id job cond).durable.jobs.lookup id = some { job with condition := cond } :=
    fun cond => (setJob_lookup _ _ _ _).trans (if_pos rfl)
  have hstatuses : ∀ cond r key, (withCondition w id job cond).durable.depStatus r key = w.durable.depStatus r key :=
    fun cond r key => depStatus_withCondition hjob cond r key
  have hdeps : ∀ cond, DepsEnded (withCondition w id job cond).durable job := by
    intro cond key hkey
    rw [hstatuses]
    obtain ⟨dep, hdep, rfl⟩ := hkeys key hkey
    obtain ⟨i, hlook, hrun⟩ := (hi.listing.mem_jobsOf_iff hstored).mp hdep
    have hidx := hi.indexing.present (hrun ▸ hstored) hlook
    rw [hrun] at hidx
    exact depStatus_of_ended hi hidx (hended _ hkey)
  obtain ⟨run, hrun⟩ := hstored
  have hgo : NoneStopped (withCondition w id job "success()").durable job ↔
      ∀ key ∈ job.dependsOn, ∀ dep ∈ w.durable.jobsOf job.runID, dep.jobKey = key →
        dep.status ≠ .failed ∧ dep.status ≠ .cancelled := by
    refine forall₂_congr fun key _ => ?_
    simp only [stopped_eq_false]
    exact forall_jobsOf_withCondition (p := fun k st => k = key → st ≠ .failed ∧ st ≠ .cancelled) hjob _
  have hall : DepsSucceeded (withCondition w id job "").durable job ↔
      ∀ key ∈ job.dependsOn, LatestIs (w.durable.jobsOf job.runID) key (· == .succeeded) := by
    refine forall₂_congr fun key _ => ?_
    rw [hstatuses, latestIs_succeeded_iff hi ⟨run, hrun⟩]
  have hqueued : ∀ cond, ({ job with condition := cond } : JobRunRecord).status = .queued := fun _ => hq
  have hempty := decision_unconditional (w := withCondition w id job "") hc (hqueued "") hfree (hdeps "") (hinv "")
    (hfound "") rfl
  have hready := fun key hkey =>
    (forall_jobsOf_withCondition (p := fun k st => k = key → st.isTerminal) hjob "success()").mpr
      (hended key hkey)
  have hsuccess := decision_success (w := withCondition w id job "success()") hc'
      (hqueued "success()") hfree (hdeps "success()")
    (hinv "success()") (hfound "success()") rfl hrun hready
  rw [hall] at hempty
  rw [hgo] at hsuccess
  -- each decision answers its question, so they agree if the answers do
  rcases hempty with ⟨hd, hyes⟩ | ⟨hd, hno⟩ <;> rcases hsuccess with ⟨hd', hyes'⟩ | ⟨hd', hno'⟩
  · exact ⟨_, _, hd, hd', .inl rfl, .inl rfl, iff_of_true rfl (iff_of_true hyes hyes')⟩
  · exact ⟨_, _, hd, hd', .inl rfl, .inr rfl, iff_of_false (by decide) fun hiff => hno' (hiff.mp hyes)⟩
  · exact ⟨_, _, hd, hd', .inr rfl, .inl rfl, iff_of_false (by decide) fun hiff => hno (hiff.mpr hyes')⟩
  · exact ⟨_, _, hd, hd', .inr rfl, .inr rfl, iff_of_true rfl (iff_of_false hno hno')⟩

/-- A push whose job `b` needs `a`; `a` ends as observed, each time it is requested. -/
def endedStores (first : ObservedPhase) (again : List StoreOp) : Stores where
  durable := afterOps Wiring.unary ([.recordDelivery pushDelivery,
    .createRun (pushSeed [intentOf "a" [] "", intentOf "b" ["a"] ""]) 0, .claimNextQueuedJob,
    .ackDispatched "ii" ⟨"jobrun-ii", "u"⟩ 1, .applyObserved "ii" first 2] ++ again)
  active := ActiveStore.new

/-- The request for a second attempt of `a`, which succeeds. -/
def secondAttempt : List StoreOp :=
  [.rerequestJob "ii" 3, .claimNextQueuedJob, .ackDispatched "iiii" ⟨"jobrun-iiii", "u"⟩ 4,
    .applyObserved "iiii" .succeeded 5]

/-- What is decided about `b` under the condition. -/
def decided (first : ObservedPhase) (again : List StoreOp) (cond : String) : Option JobRunStatus :=
  decision Wiring.unary quietly
    (withCondition (endedStores first again) "iii" (newJob "iii" "i" (intentOf "b" ["a"] "") 0) cond) "iii"

/-- After a failure the job is skipped under both conditions. -/
theorem default_condition_failed : ∃ d, decided .failed [] "" = some d ∧ decided .failed [] "success()" = some d := by
  obtain ⟨d, d', hd, hd', -, -, hiff⟩ := default_condition_iff Wiring.unary (endedStores .failed [])
    (reachable_afterOps Wiring.unary _) "iii" (newJob "iii" "i" (intentOf "b" ["a"] "") 0) rfl rfl rfl ⟨_, rfl⟩
    (by decide) (by decide) quietly quietly (fun _ => rfl) fun _ => rfl
  refine ⟨d, hd, ?_⟩
  rw [hiff.mpr (by decide)]
  exact hd'

/-- After a skipped dependency only `success()` lets the job run, and after a repeated failure only the empty
condition. -/
theorem default_condition_differs :
    (decided .skipped [] "" = some .skipped ∧ decided .skipped [] "success()" = some .dispatched) ∧
      decided .failed secondAttempt "" = some .dispatched ∧
      decided .failed secondAttempt "success()" = some .skipped := by
  refine ⟨⟨rfl, rfl⟩, rfl, rfl⟩

end Forgelet.Server
