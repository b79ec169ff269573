import Forgelet.Server.Proofs.PassProofs

/-!
# Proofs: when the sweep ends

A pass of the sweep does nothing, projects without effect, or takes a job off the queue. So the loop ends on a store
that does not fail; on one that fails, every pass without an effect is one more, and if the same calls fail for good
such a pass is repeated for ever.
-/

namespace Forgelet.Server

open DurableStore Progress

variable {rec : JobRunRecord}

/-! ## The loop -/

theorem Keyed.rewrite {s s'} (h : Keyed s) (hre : Rewritten s s') : Keyed s' := by
  intro id job hjob
  obtain ⟨j, hj, heq⟩ := hre.job hjob
  rw [(JobRunRecord.of_asCreated_eq heq).1]
  exact h hj

theorem Housed.rewrite {s s'} (h : Housed s) (hre : Rewritten s s') : Housed s' := by
  intro id job hjob
  obtain ⟨j, hj, heq⟩ := hre.job hjob
  rw [(JobRunRecord.of_asCreated_eq heq).2.1]
  exact hre.symm.stored (h hj)

section Loop

variable {faults : Nat → SweepFaults} {order : Nat → MapOrder RunID} {now : JobRunID → Time} {s : DurableStore}

theorem keyed_before (hkeyed : Keyed s) (k : Nat) : Keyed (before (sweepPasses faults order now) s k) :=
  before_invariant (P := fun t => Keyed t) (fun _ _ ht => sweepPassOn_invariant (P := fun t => Keyed t)
      (fun t id phase now _ ht => ht.rewrite (written_applyObserved t id phase now).toRewritten) ht) hkeyed k

/-- The passes are at most the queued jobs, but for idle ones and the last. -/
theorem comesTo_le (hkeyed : Keyed s) {k} (h : ComesTo (sweepPasses faults order now) s k) :
    k ≤ s.countQueuedJobs +
      (List.range k).countP fun i => decide (Idle (faults i) (before (sweepPasses faults order now) s i)) := by
  have hbound := h.le_idle (P := fun _ => True) (μ := countQueuedJobs)
    (fun i => decide (Idle (faults i) (before (sweepPasses faults order now) s i)))
    (fun _ _ _ => trivial) trivial (fun _ _ _ => sweepPassOn_le)
    (fun n hprogress hidle => sweepPassOn_lowers (keyed_before hkeyed n) hprogress (of_decide_eq_false hidle))
  omega

theorem endsAt_of_not_idle (faults : Nat → SweepFaults) (order : Nat → MapOrder RunID) (now : JobRunID → Time)
    (hkeyed : Keyed s)
    (hidle : ∀ i, ComesTo (sweepPasses faults order now) s i →
      ¬ Idle (faults i) (before (sweepPasses faults order now) s i)) :
    ∃ k ≤ s.countQueuedJobs, ∃ t, EndsAt (sweepPasses faults order now) s k t := by
  refine endsAt_of_not_comesTo fun hreach => ?_
  have hbound := comesTo_le hkeyed hreach
  have hnone : ((List.range (s.countQueuedJobs + 1)).countP fun i =>
      decide (Idle (faults i) (before (sweepPasses faults order now) s i))) = 0 := by
    rw [List.countP_eq_zero]
    intro i hi
    rw [decide_eq_true_eq]
    exact hidle i fun j hj => hreach j (Nat.lt_trans hj (List.mem_range.mp hi))
  omega

theorem comesTo_of_idle (order : Nat → MapOrder RunID) (now : JobRunID → Time) {f} (hfaults : ∀ i, faults i = f) {i}
    (hreach : ComesTo (sweepPasses faults order now) s i) (hidle : Idle f (before (sweepPasses faults order now) s i))
    (k : Nat) :
    ComesTo (sweepPasses faults order now) s (i + k) ∧
      before (sweepPasses faults order now) s (i + k) = before (sweepPasses faults order now) s i := by
  induction k with
  | zero => exact ⟨hreach, rfl⟩
  | succ k ih =>
    obtain ⟨hto, hsame⟩ := ih
    have hpass : sweepPasses faults order now (i + k) (before (sweepPasses faults order now) s (i + k)) =
        (before (sweepPasses faults order now) s i, true) := by
      have hidlePass : sweepPassOn f (order (i + k)) now (before (sweepPasses faults order now) s i) =
          (before (sweepPasses faults order now) s i, true) := by
        rw [sweepPassOn_idle hidle.2]
        exact Prod.ext rfl (List.any_eq_true.mpr hidle.1)
      rw [hsame]
      show sweepPassOn (faults (i + k)) _ _ _ = _
      rw [hfaults]
      exact hidlePass
    exact ⟨hto.succ (congrArg Prod.snd hpass), congrArg Prod.fst hpass⟩

/-- However the calls of the store fail, the sweep makes at most one pass for each queued job, one more, and one for
each idle pass. If the same calls fail for good, it returns just if no pass is idle. -/
theorem sweep_ends_in_time (faults : Nat → SweepFaults) (order : Nat → MapOrder RunID) (now : JobRunID → Time)
    (hkeyed : Keyed s) : (∀ k, ComesTo (sweepPasses faults order now) s k → k ≤ s.countQueuedJobs +
      (List.range k).countP fun i => decide (Idle (faults i) (before (sweepPasses faults order now) s i))) ∧
    ((∀ i, ComesTo (sweepPasses faults order now) s i → ¬ Idle (faults i) (before (sweepPasses faults order now) s i)) →
      ∃ k ≤ s.countQueuedJobs, ∃ t, EndsAt (sweepPasses faults order now) s k t) ∧ ∀ f, (∀ i, faults i = f) →
      ((∃ k t, EndsAt (sweepPasses faults order now) s k t) ↔
        ∀ i, ComesTo (sweepPasses faults order now) s i → ¬ Idle f (before (sweepPasses faults order now) s i)) := by
  refine ⟨fun k hreach => comesTo_le hkeyed hreach, endsAt_of_not_idle faults order now hkeyed,
    fun f hfaults => ⟨?_, fun hidle => ?_⟩⟩
  · rintro ⟨k, t, hends⟩ i hreach hidle
    obtain ⟨hmore, -⟩ := comesTo_of_idle order now hfaults hreach hidle (k + 1)
    exact hends.not_comesTo (by omega) hmore
  · obtain ⟨k, -, t, hends⟩ := endsAt_of_not_idle faults order now hkeyed
      fun i hreach => by rw [hfaults]; exact hidle i hreach
    exact ⟨k, t, hends⟩

end Loop

theorem keyed_housed_of_entries {s} (h : ∀ e ∈ s.jobs.entries, e.2.id = e.1 ∧ (s.runs.lookup e.2.runID).isSome) :
    Keyed s ∧ Housed s := by
  refine ⟨fun {id job} hjob => ?_, fun {id job} hjob => ?_⟩
  · exact (h ⟨id, job⟩ ((GoMap.mem_entries_iff _ _).mpr hjob)).1
  · exact Option.isSome_iff_exists.mp (h ⟨id, job⟩ ((GoMap.mem_entries_iff _ _).mpr hjob)).2

/-- A store with one run. -/
def storeWith (jobs : List JobIntent) : DurableStore :=
  ((DurableStore.new.recordDelivery Wiring.unary pushDelivery).2.createRun Wiring.unary (pushSeed jobs) 0).2

/-- Two jobs that are to be skipped. -/
def failureJobs : List JobIntent := [intentOf "a" [] "failure()", intentOf "b" [] "failure()"]

/-- In the first pass, the skip of the first job fails. -/
def skipFails (i : Nat) : SweepFaults := if i = 0 then ⟨false, fun _ => false, (· == "ii")⟩ else .none

/-- The first pass skips one job, and a later one the other. -/
theorem sweep_ends_in_time_skipped :
    (storeWith failureJobs).countQueuedJobs = 2 ∧ ∃ k ≤ (storeWith failureJobs).countQueuedJobs, ∃ t,
      EndsAt (sweepPasses skipFails (fun _ => .written _) fun _ => 0) (storeWith failureJobs) k t := by
  have hkeyed : Keyed (storeWith failureJobs) := (keyed_housed_of_entries (by decide +kernel)).1
  refine ⟨by decide +kernel, (sweep_ends_in_time _ _ _ hkeyed).2.1 fun i _ => ?_⟩
  cases i with
  | zero => decide +kernel
  | succ i => exact not_idle_none _

/-- The calls of `ApplyObserved` fail. -/
def SweepFaults.projections : SweepFaults := ⟨false, fun _ => false, fun _ => true⟩

/-- A job is to be skipped on a store where this fails: the loop goes on for ever. -/
theorem sweep_never_ends : (storeWith [intentOf "a" [] "failure()"]).countQueuedJobs = 1 ∧
      ∀ k, ComesTo (sweepPasses (fun _ => .projections) (fun _ => .written _) fun _ => 0)
        (storeWith [intentOf "a" [] "failure()"]) k := by
  refine ⟨by decide +kernel, fun k => ?_⟩
  have hidle : Idle .projections (storeWith [intentOf "a" [] "failure()"]) := by decide +kernel
  have hloop : ComesTo (sweepPasses (fun _ => .projections) (fun _ => .written _) fun _ => 0)
      (storeWith [intentOf "a" [] "failure()"]) (0 + k) :=
    (comesTo_of_idle (fun _ => .written _) (fun _ => 0) (fun _ => rfl) (fun i hi => absurd hi (Nat.not_lt_zero i))
      hidle k).1
  rwa [Nat.zero_add] at hloop

/-! ## A store that does not fail -/

/-- Each job is as it was, or was deferred and has been skipped or failed. -/
def EndedBySweep (now : JobRunID → Time) (s t : DurableStore) : Prop :=
  ∀ id, t.jobs.lookup id = s.jobs.lookup id ∨ ∃ job target, s.jobs.lookup id = some job ∧ job.status = .queued ∧
    job.condition ≠ "" ∧ isDeferredCondition job.condition ∧ (target = .skipped ∨ target = .failed) ∧
    t.jobs.lookup id = some (observed job target (now id))

theorem applyObserved_queued {s : DurableStore} {id : JobRunID} {job : JobRunRecord}
    (hjob : s.jobs.lookup id = some job) (hq : job.status = .queued) {phase : ObservedPhase}
    (hphase : phase = .failed ∨ phase = .skipped) (now : Time) : ∃ target, (target = .skipped ∨ target = .failed) ∧ ∀ i,
      (s.applyObserved id phase now).2.jobs.lookup i =
        if i = id then some (observed job target now) else s.jobs.lookup i := by
  unfold applyObserved
  rw [hjob]
  dsimp only
  rw [hq]
  rcases hphase with rfl | rfl
  · refine ⟨.failed, .inr rfl, fun i => ?_⟩
    exact (congrArg (·.lookup i) (refreshRun_jobs _ _ _)).trans (setJob_lookup ..)
  · refine ⟨.skipped, .inl rfl, fun i => ?_⟩
    exact (congrArg (·.lookup i) (refreshRun_jobs _ _ _)).trans (setJob_lookup ..)

section Settles

variable {now : JobRunID → Time} {s t u : DurableStore}

theorem EndedBySweep.refl (s : DurableStore) : EndedBySweep now s s := fun _ => .inl rfl

theorem EndedBySweep.visit (hkeyed : Keyed t) (ht : EndedBySweep now s t) (hu : EndedBySweep now s u)
    (hrec : rec ∈ t.listQueuedJobs) (ev : Event) (all : List JobRunRecord) (progress : Bool) :
    EndedBySweep now s (sweepJob now ev all (u, progress) rec).1 := by
  rw [← sweepJobOn_none, sweepJobOn_eq_visit]
  cases hdue : due ev all rec with
  | none =>
    rw [visit_none hdue]
    exact hu
  | some phase =>
    rw [visit_some hdue]
    show EndedBySweep now s (u.applyObserved rec.id phase (now rec.id)).2
    obtain ⟨hlisted, hq⟩ := listed_queued hkeyed hrec
    have hdeferred : rec.condition ≠ "" ∧ isDeferredCondition rec.condition := by
      unfold due at hdue
      split_ifs at hdue with hwaits
      simpa using hwaits
    -- a job that is still queued has not been touched
    have horigin : s.jobs.lookup rec.id = some rec := by
      rcases ht rec.id with hsame | ⟨job, target, -, -, -, -, htarget, hmoved⟩
      · rw [← hsame]
        exact hlisted
      · rw [Option.mem_unique hlisted hmoved, observed_status] at hq
        rcases htarget with rfl | rfl <;> cases hq
    rcases hu rec.id with hsame | ⟨job, target, hjob, -, -, -, htarget, hmoved⟩
    · rw [horigin] at hsame
      obtain ⟨target, htarget, hlook⟩ := applyObserved_queued hsame hq (due_phase hdue) (now rec.id)
      intro id
      rw [hlook]
      split_ifs with hid
      · subst hid
        exact .inr ⟨rec, target, horigin, hq, hdeferred.1, hdeferred.2, htarget, rfl⟩
      · exact hu id
    · have hends : (observed job target (now rec.id)).status.isTerminal := by
        rw [observed_status]
        rcases htarget with rfl | rfl <;> rfl
      unfold applyObserved
      rw [hmoved]
      dsimp only
      rw [if_pos hends]
      exact hu

end Settles

/-- Two jobs that are skipped, the second one because the first one is. -/
def skippedJobs : List JobIntent :=
  [intentOf "a" [] "failure()", intentOf "b" ["a"] "needs.a.result == 'success'"]

end Forgelet.Server
