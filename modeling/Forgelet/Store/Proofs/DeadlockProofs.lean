import Forgelet.Lib.DependencyOrder
import Forgelet.Store.Proofs.NumberingProofs

/-!
# Proofs: queued jobs are not stuck

A claim that hands out nothing and skips nothing has found every candidate blocked. A blocked job waits for the latest
attempt of one of its keys, which is itself queued and blocked when nothing is dispatched, running or claimed. In a run
whose keys exist and have no cycle this cannot go on.
-/

namespace Forgelet.DurableStore

open Relation

variable {W : Wiring} {s : DurableStore}

/-- A job of the run with the key `key` depends on `dep`. -/
def Needs (s : DurableStore) (r : RunID) (dep key : String) : Prop :=
  ∃ id job, s.jobs.lookup id = some job ∧ job.runID = r ∧ job.jobKey = key ∧ dep ∈ job.dependsOn

/-- A job of the run with the key `key` is queued. -/
def Waits (s : DurableStore) (r : RunID) (key : String) : Prop :=
  ∃ id job, s.jobs.lookup id = some job ∧ job.runID = r ∧ job.jobKey = key ∧ job.status = .queued

theorem claimLoop_blocked {ids} (hnodup : ids.Nodup)
    (hids : ∀ id ∈ ids, (∃ job, s.jobs.lookup id = some job ∧ job.status = .queued) ∧ s.isClaimed id = false)
    (hnone : (claimLoop W s ids).1 = .error .errNoQueuedJob)
    (hsame : ∀ id, (claimLoop W s ids).2.jobs.lookup id = s.jobs.lookup id) :
    ∀ id ∈ ids, s.dependencyState id = .depsBlocked := by
  intro id hid
  obtain ⟨⟨job, hjob, hq⟩, -⟩ := hids id hid
  obtain ⟨s₁, passed, -, hpassed, ⟨hloop, rfl⟩ | ⟨_, _, _, -, hloop, -⟩⟩ := claimLoop_spec (W := W) hnodup hids
  · rw [hloop] at hsame
    -- no later step of the loop takes a skip back
    have hnever : ∀ {t : DurableStore} {i job j}, s.jobs.lookup i = some j → j.status = .queued →
        job.status = .queued → ¬ReflTransGen (SkipStep W) (t.skipJob W i job) s₁ := by
      intro t i job j hj hqueued hq hskips
      obtain ⟨job', hjob', hoff⟩ := skipped_off_queue hq hskips
      exact hoff (Option.mem_unique hj ((hsame i).symm.trans hjob') ▸ hqueued)
    obtain ⟨t, hskips, hrest, -, hblocked | ⟨_, hq', hskip⟩⟩ := hpassed id hid
    · rcases hskips.cases_head with rfl | ⟨_, ⟨found, queued, -, -⟩, hlater⟩
      · exact hblocked
      · exact absurd (hlater.trans hrest) (hnever found queued queued)
    · exact absurd hskip (hnever hjob hq hq')
  · rw [hloop] at hnone
    cases hnone

theorem skip_succeeded {s'} (h : SkipStep W s s') (r : RunID) (key : String) :
    s'.depStatus r key = some .succeeded ↔ s.depStatus r key = some .succeeded := by
  have hindexed := (written_skip h).indexed_eq r key
  obtain ⟨found, queued, -, -⟩ := h
  unfold depStatus
  rw [hindexed]
  cases s.indexed r key with
  | none => rfl
  | some i =>
    rw [Option.bind_some, Option.bind_some, skipJob_lookup W s _ i queued]
    split_ifs with heq
    · rw [heq, found]
      simp [queued]
    · rfl

theorem skip_ready {s'} (h : SkipStep W s s') (id : JobRunID) :
    s'.dependencyState id = .depsReady ↔ s.dependencyState id = .depsReady := by
  have hloop : ∀ r keys, dependencyLoop s' r .depsReady keys = .depsReady ↔
      dependencyLoop s r .depsReady keys = .depsReady := by
    intro r keys
    rw [dependencyLoop_ready, dependencyLoop_ready]
    simp only [skip_succeeded h]
  obtain ⟨found, queued, -, -⟩ := h
  rw [dependencyState, dependencyState, skipJob_lookup W s _ id queued]
  split_ifs with heq
  · rw [heq, found]
    exact hloop _ _
  · cases s.jobs.lookup id with
    | none => rfl
    | some job => exact hloop _ _

/-- Skips make no job ready, and none that was ready another. -/
theorem skips_ready {s'} (h : ReflTransGen (SkipStep W) s s') (id : JobRunID) :
    s'.dependencyState id = .depsReady ↔ s.dependencyState id = .depsReady := by
  induction h with
  | refl => rfl
  | tail _ hskip ih => exact (skip_ready hskip id).trans ih

theorem Passed.not_ready {s₁ id} (h : Passed W s s₁ id) : s.dependencyState id ≠ .depsReady := by
  obtain ⟨t, hskips, -, hnot, -⟩ := h
  exact fun hready => hnot ((skips_ready hskips id).mpr hready)

/-- If a candidate is ready, ClaimNextQueuedJob hands out one that may run and is as old or older. -/
theorem claim_oldest (W : Wiring) (s : DurableStore) (e : JobRunID × Time) (he : e ∈ s.candidates)
    (hready : s.dependencyState e.1 = .depsReady) :
    ∃ first ∈ s.candidates, ∃ job s₁, s.claimNextQueuedJob W = (.ok job, s₁.claim first.1) ∧
      Claimable s₁ first.1 job ∧ CandidateLE first e := by
  have : Std.Total CandidateLE := ⟨fun a b => by grind [CandidateLE, String.le_total]⟩
  have : IsTrans _ CandidateLE := ⟨fun a b c => by grind [CandidateLE, String.le_trans]⟩
  have hsorted : s.candidates.Pairwise CandidateLE := List.pairwise_insertionSort CandidateLE _
  obtain ⟨s₁, passed, -, hpassed, ⟨-, hall⟩ | ⟨pick, job, rest, hclaim, hloop, hall⟩⟩ :=
    claimLoop_spec (W := W) nodup_candidates fun _ hid => mem_candidates.mp hid
  · exact absurd hready (hpassed e.1 (hall ▸ List.mem_map_of_mem he)).not_ready
  · obtain ⟨before, _, hlist, rfl, htail⟩ := List.map_eq_append_iff.mp hall
    obtain ⟨first, after, rfl, rfl, -⟩ := List.map_eq_cons_iff.mp htail
    rw [hlist, List.pairwise_append, List.pairwise_cons] at hsorted
    rw [hlist, List.mem_append, List.mem_cons] at he
    refine ⟨first, by simp [hlist], job, s₁, hloop, hclaim, ?_⟩
    rcases he with hbefore | rfl | hafter
    · exact absurd hready (hpassed e.1 (List.mem_map_of_mem hbefore)).not_ready
    · exact (Std.Total.total e e).elim id id
    · exact hsorted.2.1.1 e hafter

/-- Of two queued jobs, none that comes after `a` is claimed. -/
theorem claim_oldest_first :
    let s := afterOps Wiring.unary (skipOps.take 2)
    ∃ first ∈ s.candidates, ∃ job s₁, s.claimNextQueuedJob Wiring.unary = (.ok job, s₁.claim first.1) ∧
      Claimable s₁ first.1 job ∧ CandidateLE first ("ii", 0) :=
  claim_oldest _ _ ("ii", 0) (by decide) rfl

theorem waits_of_blocked (hi : Inv W s) (ho : Owned s)
    (hquiet : ∀ id job, s.jobs.lookup id = some job → job.status ≠ .dispatched ∧ job.status ≠ .running)
    (hkeys : ∀ r dep key, Needs s r dep key → ∃ id job, s.jobs.lookup id = some job ∧ job.runID = r ∧ job.jobKey = dep)
    {id job} (hjob : s.jobs.lookup id = some job) (hblocked : s.dependencyState id = .depsBlocked) :
    ∃ dep, Waits s job.runID dep ∧ Needs s job.runID dep job.jobKey := by
  rw [dependencyState_eq hjob] at hblocked
  obtain ⟨dep, hdep, hopen⟩ := dependencyLoop_blocked (by decide) hblocked
  have hneeds : Needs s job.runID dep job.jobKey := ⟨id, job, hjob, rfl, rfl, hdep⟩
  obtain ⟨i, j, hj, hrun, rfl⟩ := hkeys _ _ _ hneeds
  obtain ⟨last, job', hidx, hjob', hrun', hkey', -⟩ := exists_indexed hi (ho i j hj) hj
  rw [hrun] at hidx hrun'
  refine ⟨j.jobKey, ⟨last, job', hjob', hrun', hkey', ?_⟩, hneeds⟩
  rcases hopen with hnone | hopen
  · rw [hidx] at hnone
    cases hnone
  · have hstatus : s.depStatus job.runID j.jobKey = some job'.status := by
      rw [depStatus, hidx, Option.bind_some, hjob', Option.map_some]
    have hnot := hopen _ hstatus
    have hstill := hquiet last job' hjob'
    cases hst : job'.status with
    | queued => rfl
    | dispatched => exact absurd hst hstill.1
    | running => exact absurd hst hstill.2
    | succeeded | failed | cancelled | skipped => rw [hst] at hnot; cases hnot

theorem finite_waits (s : DurableStore) (r : RunID) : {key | Waits s r key}.Finite := by
  refine (((s.jobs.entries.map (·.2)).map (·.jobKey)).finite_toSet).subset ?_
  rintro key ⟨id, job, hjob, -, rfl, -⟩
  exact List.mem_map.mpr ⟨job, (s.jobs.mem_values_iff job).mpr ⟨id, hjob⟩, rfl⟩

/-- In every reachable store whose jobs have runs, whose dependencies exist and have no cycle, and in which nothing is
dispatched, running or claimed, a claim that hands out nothing and changes no job leaves no job queued. -/
theorem claim_no_deadlock (W : Wiring) (s : DurableStore) (h : Reachable W s) (howned : Owned s)
    (hkeys : ∀ r dep key, Needs s r dep key → ∃ id job, s.jobs.lookup id = some job ∧ job.runID = r ∧ job.jobKey = dep)
    (hacyclic : ∀ r key, ¬TransGen (Needs s r) key key)
    (hquiet : ∀ id job, s.jobs.lookup id = some job → job.status ≠ .dispatched ∧ job.status ≠ .running)
    (hfree : ∀ id, s.isClaimed id = false) (hnone : (s.claimNextQueuedJob W).1 = .error .errNoQueuedJob)
    (hsame : ∀ id, (s.claimNextQueuedJob W).2.jobs.lookup id = s.jobs.lookup id) :
    ∀ id job, s.jobs.lookup id = some job → job.status ≠ .queued := by
  intro id job hjob hqueued
  have hi := inv_reachable h
  have hblocked : ∀ id job, s.jobs.lookup id = some job → job.status = .queued →
      s.dependencyState id = .depsBlocked := by
    intro id job hjob hq
    refine claimLoop_blocked nodup_candidates (fun _ hid => mem_candidates.mp hid) hnone hsame id ?_
    exact mem_candidates.mpr ⟨⟨job, hjob, hq⟩, hfree id⟩
  -- whoever waits in the run needs a key that waits
  have hempty : {key | Waits s job.runID key} = ∅ := by
    refine DependencyOrder.eq_empty_of_acyclic (hacyclic job.runID) (finite_waits s job.runID) ?_
    rintro key ⟨i, j, hj, hrun, rfl, hq⟩
    obtain ⟨dep, hwaits, hneeds⟩ := waits_of_blocked hi howned hquiet hkeys hj (hblocked i j hj hq)
    rw [hrun] at hwaits hneeds
    exact ⟨dep, hwaits, hneeds⟩
  exact Set.eq_empty_iff_forall_notMem.mp hempty job.jobKey ⟨id, job, hjob, rfl, rfl, hqueued⟩

/-- The dependent of a failed job is skipped, and the next claim finds nothing. -/
theorem claim_no_deadlock_skipped :
    ((afterOps Wiring.unary skipOps).claimNextQueuedJob Wiring.unary).1 = .error .errNoQueuedJob ∧
      ∀ id job, (afterOps Wiring.unary skipOps).jobs.lookup id = some job → job.status ≠ .queued := by
  have hjobs : ∀ {P : JobRunID → JobRunRecord → Prop}, (∀ e ∈ (afterOps Wiring.unary skipOps).jobs.entries, P e.1 e.2) →
      ∀ id job, (afterOps Wiring.unary skipOps).jobs.lookup id = some job → P id job := by
    intro P hall id job hjob
    exact hall ⟨id, job⟩ ((GoMap.mem_entries_iff _ _).mpr hjob)
  -- only `b` needs a key, and it needs `a`
  have hneeds : ∀ r dep key, Needs (afterOps Wiring.unary skipOps) r dep key → r = "i" ∧ dep = "a" ∧ key = "b" := by
    rintro r dep key ⟨id, job, hjob, rfl, rfl, hdep⟩
    exact hjobs (P := fun _ job => ∀ dep ∈ job.dependsOn, job.runID = "i" ∧ dep = "a" ∧ job.jobKey = "b")
      (by decide) id job hjob dep hdep
  refine ⟨rfl, claim_no_deadlock Wiring.unary _ (reachable_afterOps Wiring.unary skipOps) ?_ ?_ ?_ ?_ ?_ rfl
    fun _ => rfl⟩
  · intro id job hjob
    rw [hjobs (P := fun _ job => job.runID = "i") (by decide) id job hjob]
    exact ⟨_, rfl⟩
  · intro r dep key h
    obtain ⟨rfl, rfl, rfl⟩ := hneeds r dep key h
    exact ⟨"ii", _, rfl, rfl, rfl⟩
  · intro r key hcycle
    obtain ⟨next, hfirst, -⟩ := TransGen.head'_iff.mp hcycle
    obtain ⟨last, -, hlast⟩ := TransGen.tail'_iff.mp hcycle
    exact absurd ((hneeds r key next hfirst).2.1.symm.trans (hneeds r last key hlast).2.2) (by decide)
  · exact hjobs (P := fun _ job => job.status ≠ .dispatched ∧ job.status ≠ .running) (by decide)
  · intro id
    rfl

end Forgelet.DurableStore
