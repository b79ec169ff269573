import Forgelet.Store.Proofs.MemoryProofs

/-!
# Proofs: `ClaimNextQueuedJob`

The gate `dependencyStateLocked` and the loop of `ClaimNextQueuedJob`, which on its way to the first candidate it may
hand out skips the jobs without a condition whose dependencies failed: some skips, then nothing or one claim.
-/

namespace Forgelet.DurableStore

open Relation

variable {W : Wiring} {s : DurableStore}

theorem mem_candidates {id} : id ∈ s.candidates.map (·.1) ↔
      (∃ job, s.jobs.lookup id = some job ∧ job.status = .queued) ∧ s.isClaimed id = false := by
  unfold candidates
  simp only [List.mem_map, List.mem_insertionSort, List.mem_filter]
  constructor
  · rintro ⟨p, ⟨e, ⟨he, hp⟩, rfl⟩, rfl⟩
    simp only [Bool.and_eq_true, decide_eq_true_eq, Bool.not_eq_true'] at hp
    exact ⟨⟨e.2, (s.jobs.mem_entries_iff e).mp he, hp.1⟩, hp.2⟩
  · rintro ⟨⟨job, hj, hq⟩, hc⟩
    exact ⟨_, ⟨⟨id, job⟩, ⟨(s.jobs.mem_entries_iff ⟨id, job⟩).mpr hj, by simp [hq, hc]⟩, rfl⟩, rfl⟩

theorem nodup_candidates : (s.candidates.map (·.1)).Nodup := by
  unfold candidates
  have hperm := (List.perm_insertionSort CandidateLE
    ((s.jobs.entries.filter fun e => e.2.status = .queued && !s.isClaimed e.1).map
      fun e => (e.1, e.2.createdAt))).map (·.1)
  rw [hperm.nodup_iff, List.map_map]
  have hkeys : (s.jobs.entries.map (·.1)).Nodup := AList.keys_nodup s.jobs
  exact hkeys.sublist (List.filter_sublist.map _)

/-- The status of the attempt that the index knows. -/
def depStatus (s : DurableStore) (r : RunID) (key : String) : Option JobRunStatus :=
  (s.indexed r key).bind fun id => (s.jobs.lookup id).map JobRunRecord.status

theorem dependencyLoop_cons (s : DurableStore) (r : RunID) (st : DepState) (key : String) (rest : List String) :
    dependencyLoop s r st (key :: rest) =
      match s.indexed r key with
      | none => .depsBlocked
      | some _ =>
        match s.depStatus r key with
        | some .succeeded => dependencyLoop s r st rest
        | some .failed | some .cancelled | some .skipped => .depsFailed
        | _ => dependencyLoop s r .depsBlocked rest := by
  unfold depStatus
  rw [dependencyLoop]
  cases s.indexed r key <;> rfl

variable {r : RunID} {st : DepState} {keys : List String} {job : JobRunRecord}

theorem dependencyLoop_ready :
    dependencyLoop s r st keys = .depsReady ↔ st = .depsReady ∧ ∀ key ∈ keys, s.depStatus r key = some .succeeded := by
  induction keys generalizing st with
  | nil => simp [dependencyLoop]
  | cons key rest ih =>
    rw [dependencyLoop_cons]
    simp only [List.forall_mem_cons]
    cases hi : s.indexed r key with
    | none => simp [depStatus, hi]
    | some id =>
      cases hd : s.depStatus r key with
      | none => simp [ih]
      | some status => cases status <;> simp [ih]

/-- A failed dependency ended without success, and those before it are in the index. -/
theorem dependencyLoop_failed (hst : st ≠ .depsFailed) (h : dependencyLoop s r st keys = .depsFailed) :
    ∃ before key after, keys = before ++ key :: after ∧ (∀ k ∈ before, (s.indexed r k).isSome) ∧
      ∃ status, s.depStatus r key = some status ∧ (status = .failed ∨ status = .cancelled ∨ status = .skipped) := by
  induction keys generalizing st with
  | nil => exact absurd h hst
  | cons key rest ih =>
    rw [dependencyLoop_cons] at h
    cases hi : s.indexed r key with
    | none => simp [hi] at h
    | some id =>
      simp only [hi] at h
      have hfails : (∃ st', st' ≠ .depsFailed ∧ dependencyLoop s r st' rest = .depsFailed) ∨
          ∃ status, s.depStatus r key = some status ∧ (status = .failed ∨ status = .cancelled ∨ status = .skipped) := by
        cases hd : s.depStatus r key with
        | none =>
          simp only [hd] at h
          exact .inl ⟨_, by simp, h⟩
        | some status =>
          simp only [hd] at h
          cases status with
          | queued | dispatched | running => exact .inl ⟨_, by simp, h⟩
          | succeeded => exact .inl ⟨_, hst, h⟩
          | failed | cancelled | skipped => exact .inr ⟨_, rfl, by simp⟩
      rcases hfails with ⟨st', hst', hrest⟩ | hhere
      · obtain ⟨before, key', after, heq, hbefore, hkey'⟩ := ih hst' hrest
        refine ⟨key :: before, key', after, by rw [heq, List.cons_append], ?_, hkey'⟩
        rw [List.forall_mem_cons]
        exact ⟨by rw [hi]; rfl, hbefore⟩
      · exact ⟨[], key, rest, rfl, by simp, hhere⟩

theorem dependencyLoop_blocked (hst : st ≠ .depsBlocked) (h : dependencyLoop s r st keys = .depsBlocked) :
    ∃ key ∈ keys, s.indexed r key = none ∨
      ∀ status, s.depStatus r key = some status → status.isTerminal = false := by
  induction keys generalizing st with
  | nil => exact absurd h hst
  | cons key rest ih =>
    rw [dependencyLoop_cons] at h
    simp only [List.exists_mem_cons_iff]
    cases hi : s.indexed r key with
    | none => exact .inl (.inl rfl)
    | some id =>
      simp only [hi] at h
      cases hd : s.depStatus r key with
      | none => exact .inl (.inr fun _ hstatus => by cases hstatus)
      | some status =>
        simp only [hd] at h
        cases status with
        | queued | dispatched | running => exact .inl (.inr fun _ hstatus => by cases hstatus; rfl)
        | succeeded => exact .inr (ih hst h)
        | failed | cancelled | skipped => cases h

theorem dependencyState_eq {id} (h : s.jobs.lookup id = some job) :
    s.dependencyState id = dependencyLoop s job.runID .depsReady job.dependsOn := by
  unfold dependencyState
  rw [h]

/-- The loop skips a queued job without a condition one of whose dependencies failed. -/
inductive SkipStep (W : Wiring) (s : DurableStore) : DurableStore → Prop
  | skip {id job} (found : s.jobs.lookup id = some job)
      (queued : job.status = .queued) (unconditional : job.condition = "")
      (failed : s.dependencyState id = .depsFailed) : SkipStep W s (s.skipJob W id job)

theorem skipJob_eq (W : Wiring) (s : DurableStore) (id : JobRunID) (hq : job.status = .queued) :
    s.skipJob W id job = (({ s with ticks := s.ticks + 1 } : DurableStore).setJob id
        { job with status := .skipped, finishedAt := some (W.clock s.ticks) }).refreshRun
        job.runID (W.clock s.ticks) := by
  unfold skipJob
  rw [transitionJob_stop (.inr rfl), hq]
  rfl

theorem skipJob_lookup (W : Wiring) (s : DurableStore) (id i : JobRunID) (hq : job.status = .queued) :
    (s.skipJob W id job).jobs.lookup i =
      if i = id then some { job with status := .skipped, finishedAt := some (W.clock s.ticks) }
      else s.jobs.lookup i := by
  rw [skipJob_eq W s id hq, refreshRun_jobs, setJob_lookup]

theorem skipJob_claimed (W : Wiring) (s : DurableStore) (id : JobRunID) (hq : job.status = .queued) :
    (s.skipJob W id job).claimed = s.claimed := by
  rw [skipJob_eq W s id hq, refreshRun_claimed, setJob_claimed]

/-- A queued job that is ready, or has a condition and a failed dependency. -/
structure Claimable (s : DurableStore) (id : JobRunID) (job : JobRunRecord) : Prop where
  found : s.jobs.lookup id = some job
  queued : job.status = .queued
  unclaimed : s.isClaimed id = false
  gate : s.dependencyState id = .depsReady ∨
    (s.dependencyState id = .depsFailed ∧ job.condition ≠ "")

theorem skipJob_candidates {pick : JobRunID} (hq : job.status = .queued) {rest : List JobRunID} (hnot : pick ∉ rest)
    (hrest : ∀ id ∈ rest, (∃ j, s.jobs.lookup id = some j ∧ j.status = .queued) ∧ s.isClaimed id = false) :
    ∀ id ∈ rest, (∃ j, (s.skipJob W pick job).jobs.lookup id = some j ∧ j.status = .queued) ∧
      (s.skipJob W pick job).isClaimed id = false := by
  intro id hid
  have hne : id ≠ pick := fun h => hnot (h ▸ hid)
  rw [skipJob_lookup W s pick id hq, if_neg hne, isClaimed, skipJob_claimed W s pick hq]
  exact hrest id hid

/-- The loop has passed a job without claiming it: the job was blocked, or it was skipped. -/
def Passed (W : Wiring) (s s₁ : DurableStore) (id : JobRunID) : Prop :=
  ∃ t, ReflTransGen (SkipStep W) s t ∧ ReflTransGen (SkipStep W) t s₁ ∧ t.dependencyState id ≠ .depsReady ∧
    (t.dependencyState id = .depsBlocked ∨
      ∃ job, job.status = .queued ∧ ReflTransGen (SkipStep W) (t.skipJob W id job) s₁)

theorem claimLoop_spec {ids : List JobRunID} (hnodup : ids.Nodup)
    (hids : ∀ id ∈ ids, (∃ job, s.jobs.lookup id = some job ∧ job.status = .queued) ∧ s.isClaimed id = false) :
    ∃ s₁ passed, ReflTransGen (SkipStep W) s s₁ ∧ (∀ id ∈ passed, Passed W s s₁ id) ∧
      (claimLoop W s ids = (.error .errNoQueuedJob, s₁) ∧ ids = passed ∨
        ∃ id job rest, Claimable s₁ id job ∧ claimLoop W s ids = (.ok job, s₁.claim id) ∧
          ids = passed ++ id :: rest) := by
  induction ids generalizing s with
  | nil => exact ⟨s, [], .refl, by simp, .inl ⟨rfl, rfl⟩⟩
  | cons pick rest ih =>
    rw [List.nodup_cons] at hnodup
    rw [List.forall_mem_cons] at hids
    obtain ⟨⟨⟨job, hjob, hq⟩, hfree⟩, hrest⟩ := hids
    rw [claimLoop, hjob]
    dsimp only
    cases hdep : s.dependencyState pick with
    | depsBlocked =>
      obtain ⟨s₁, passed, hsteps, hpassed, hres⟩ := ih hnodup.2 hrest
      refine ⟨s₁, pick :: passed, hsteps, List.forall_mem_cons.mpr
        ⟨⟨s, .refl, hsteps, by simp [hdep], .inl hdep⟩, hpassed⟩, ?_⟩
      simpa using hres
    | depsReady => exact ⟨s, [], .refl, by simp, .inr ⟨pick, job, rest, ⟨hjob, hq, hfree, .inl hdep⟩, rfl, rfl⟩⟩
    | depsFailed =>
      by_cases hc : job.condition = ""
      · -- the job is skipped; the candidates that remain are other jobs
        obtain ⟨s₁, passed, hsteps, hpassed, hres⟩ := ih hnodup.2 (skipJob_candidates hq hnodup.1 hrest)
        have hskip : SkipStep W s (s.skipJob W pick job) := .skip hjob hq hc hdep
        refine ⟨s₁, pick :: passed, .head hskip hsteps, List.forall_mem_cons.mpr
          ⟨⟨s, .refl, .head hskip hsteps, by simp [hdep], .inr ⟨job, hq, hsteps⟩⟩, fun id hid => ?_⟩, ?_⟩
        · obtain ⟨t, hbefore, hpass⟩ := hpassed id hid
          exact ⟨t, .head hskip hbefore, hpass⟩
        · rw [if_neg (not_not_intro hc)]
          simpa using hres
      · refine ⟨s, [], .refl, by simp, .inr ⟨pick, job, rest, ⟨hjob, hq, hfree, .inr ⟨hdep, hc⟩⟩, ?_, rfl⟩⟩
        rw [if_pos hc]

theorem claimNextQueuedJob_spec (W : Wiring) (s : DurableStore) : ∃ s₁, ReflTransGen (SkipStep W) s s₁ ∧
      (s.claimNextQueuedJob W = (.error .errNoQueuedJob, s₁) ∨
        ∃ id job, Claimable s₁ id job ∧ s.claimNextQueuedJob W = (.ok job, s₁.claim id)) := by
  obtain ⟨s₁, -, hskips, -, ⟨hloop, -⟩ | ⟨id, job, -, hclaim, hloop, -⟩⟩ :=
    claimLoop_spec (W := W) nodup_candidates fun _ hid => mem_candidates.mp hid
  · exact ⟨s₁, hskips, .inl hloop⟩
  · exact ⟨s₁, hskips, .inr ⟨id, job, hclaim, hloop⟩⟩

/-- A claim that finds nothing has come to every candidate. -/
theorem passed_of_none {s₁ id job} (hnone : s.claimNextQueuedJob W = (.error .errNoQueuedJob, s₁))
    (hjob : s.jobs.lookup id = some job) (hq : job.status = .queued) (hfree : s.isClaimed id = false) :
    Passed W s s₁ id := by
  obtain ⟨_, passed, -, hpassed, ⟨hloop, hall⟩ | ⟨_, _, _, -, hloop, -⟩⟩ :=
    claimLoop_spec (W := W) nodup_candidates fun _ hid => mem_candidates.mp hid
  · obtain ⟨-, rfl⟩ := Prod.mk.inj (hnone.symm.trans hloop)
    exact hpassed id (hall ▸ mem_candidates.mpr ⟨⟨job, hjob, hq⟩, hfree⟩)
  · cases hnone.symm.trans hloop

end Forgelet.DurableStore
