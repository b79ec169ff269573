import Forgelet.Store.Proofs.ReachableProofs

/-!
# Proofs: the history of a job

A job that is stored stays stored, and all a call can do to its record is one of the writes of `JobWrite`. So the
status of a job only moves forward, and a terminal record keeps its status and its finish time. A claimed job stays
claimed until its claim is released or the job is no longer queued.
-/

namespace Forgelet.DurableStore

open Relation

variable {W : Wiring} {s s' s'' : DurableStore}

variable {id : JobRunID}

/-! ## What the writes do to a status -/

/-- The rank has not decreased, and a terminal record is kept. -/
structure Forward (job job' : JobRunRecord) : Prop where
  rank : jobRank job.status ≤ jobRank job'.status
  final : job.status.isTerminal → job'.status = job.status ∧ job'.finishedAt = job.finishedAt

namespace Forward

variable {job job' job'' : JobRunRecord}

theorem refl (job : JobRunRecord) : Forward job job := ⟨le_refl _, fun _ => ⟨rfl, rfl⟩⟩

theorem trans (h : Forward job job') (h' : Forward job' job'') : Forward job job'' := by
  refine ⟨h.rank.trans h'.rank, fun hterm => ?_⟩
  obtain ⟨hstatus, hfin⟩ := h.final hterm
  obtain ⟨hstatus', hfin'⟩ := h'.final (by rw [hstatus]; exact hterm)
  exact ⟨hstatus'.trans hstatus, hfin'.trans hfin⟩

theorem of_open (hopen : job.status.isTerminal = false) (hrank : jobRank job.status ≤ jobRank job'.status) :
    Forward job job' :=
  ⟨hrank, fun hterm => by rw [hopen] at hterm; cases hterm⟩

end Forward

theorem jobRank_le_three (status : JobRunStatus) : jobRank status ≤ 3 := by cases status <;> decide

theorem JobWrite.forward {op job job'} (h : JobWrite op id job job') : Forward job job' := by
  cases h with
  | skip queued now => exact .of_open (by rw [queued]; rfl) (jobRank_le_three _)
  | ack waiting obj now =>
    rcases waiting with hq | hd
    · exact .of_open (by rw [hq]; rfl) (by rw [hq]; exact Nat.zero_le _)
    · exact .of_open (by rw [hd]; rfl) (by rw [hd])
  | observe opened implied forward now =>
    refine .of_open opened ?_
    rw [observed_status]
    exact jobRank_le_of_canAdvanceJob forward
  | cancel opened now => exact .of_open opened (jobRank_le_three _)
  | collect now => exact ⟨le_refl _, fun _ => ⟨rfl, rfl⟩⟩

theorem forward_of_writes {op job job'} (h : ReflTransGen (JobWrite op id) job job') : Forward job job' := by
  induction h with
  | refl => exact .refl job
  | tail _ hwrite ih => exact ih.trans hwrite.forward

/-! ## What a call does to the records -/

variable {op : StoreOp}

theorem carried_createRun (hm : Minted W s) (seed : RunSeed) (now : Time) :
    Carried (.createRun seed now) s (s.createRun W seed now).2 := by
  have hout := createRun_outcome W s seed now
  generalize s.createRun W seed now = out at hout
  cases hout with
  | found | refused => exact .refl s
  | created | duplicate => exact carried_of_kept (orphaned_drafted hm _ now).kept

theorem carried_rerequestJob (hi : Inv W s) (id : JobRunID) (now : Time) :
    Carried (.rerequestJob id now) s (s.rerequestJob W id now).2 := by
  have hout := rerequestJob_outcome W s id now
  generalize s.rerequestJob W id now = out at hout
  cases hout with
  | missing | existing => exact .refl s
  | orphan found unstored => exact carried_of_kept (orphaned_appended hi found unstored now).kept
  | attempt => exact carried_of_kept (reattempted_kept hi)

theorem carried_apply (hi : Inv W s) (op : StoreOp) : Carried op s (op.apply W s) := by
  cases op using apply_cases W s with
  | recordDelivery d =>
    refine carried_of_kept fun hjob => ?_
    rw [StoreOp.apply, recordDelivery]
    split <;> exact hjob
  | createRun seed now => exact carried_createRun hi.minted seed now
  | rerequestJob id now => exact carried_rerequestJob hi id now
  | rewrites op hwritten => exact hwritten.carried

/-! ## New jobs -/

/-- A job that comes with a call is as it was created. -/
theorem new_asCreated (hi : Inv W s) (op : StoreOp) {job} (hnone : s.jobs.lookup id = none)
    (hjob : (op.apply W s).jobs.lookup id = some job) : job.asCreated = job := by
  have hdrafted : ∀ {l : List JobIntent} {now : Time},
      (drafted W s l now).jobs.lookup id = some job → job.asCreated = job := by
    intro l now hlook
    rcases (drafted_lookup hi.minted).mp hlook with ⟨hnew, -⟩ | hold
    · obtain ⟨intent, -, i, -, -, rfl⟩ := mem_newJobs hnew
      rfl
    · rw [hnone] at hold
      cases hold
  cases op using apply_cases W s with
  | recordDelivery d =>
    rw [StoreOp.apply, recordDelivery] at hjob
    split at hjob <;> (rw [hnone] at hjob; cases hjob)
  | createRun seed now =>
    rw [StoreOp.apply] at hjob
    have hout := createRun_outcome W s seed now
    generalize s.createRun W seed now = out at hout hjob
    cases hout with
    | found | refused => rw [hnone] at hjob; cases hjob
    | created | duplicate => exact hdrafted hjob
  | rerequestJob i now =>
    rw [StoreOp.apply] at hjob
    have hout := rerequestJob_outcome W s i now
    generalize s.rerequestJob W i now = out at hout hjob
    cases hout with
    | missing | existing => rw [hnone] at hjob; cases hjob
    | orphan =>
      rw [appended_lookup] at hjob
      split_ifs at hjob
      · cases hjob
        rfl
      · rw [hnone] at hjob
        cases hjob
    | attempt =>
      rcases reattempted_job hjob with ⟨-, rfl⟩ | hold
      · rfl
      · rw [hnone] at hold
        cases hold
  | rewrites op hre =>
    rw [hre.absent hnone] at hjob
    cases hjob

/-- A job after a call is as it was created, or was written over one from before. -/
theorem origin_apply (hi : Inv W s) (op : StoreOp) {job} (hjob : (op.apply W s).jobs.lookup id = some job) :
    job.asCreated = job ∨ ∃ old, s.jobs.lookup id = some old ∧ ReflTransGen (JobWrite op id) old job := by
  cases hold : s.jobs.lookup id with
  | none => exact .inl (new_asCreated hi op hold hjob)
  | some old =>
    obtain ⟨job', hjob', hwrites⟩ := carried_apply hi op id old hold
    obtain rfl := Option.mem_unique hjob hjob'
    exact .inr ⟨old, rfl, hwrites⟩

/-! ## Sequences of calls -/

theorem forward_foldl (hi : Inv W s) (ops : List StoreOp) {job} (hjob : s.jobs.lookup id = some job) :
    ∃ job', (ops.foldl (fun s op => op.apply W s) s).jobs.lookup id = some job' ∧ Forward job job' := by
  induction ops generalizing s job with
  | nil => exact ⟨job, hjob, .refl job⟩
  | cons op rest ih =>
    obtain ⟨job₁, hjob₁, hwrites⟩ := carried_apply hi op id job hjob
    obtain ⟨job', hjob', hforward⟩ := ih (inv_step hi op) hjob₁
    exact ⟨job', hjob', (forward_of_writes hwrites).trans hforward⟩

theorem afterOps_append (W : Wiring) (before after : List StoreOp) :
    afterOps W (before ++ after) = after.foldl (fun s op => op.apply W s) (afterOps W before) :=
  List.foldl_append

/-- Whatever calls follow, the status of a job does not go back in the rank queued, dispatched, running,
terminal, and a terminal job keeps its status and its finish time. -/
theorem job_moves_forward (W : Wiring) (before after : List StoreOp) (id : JobRunID) (job : JobRunRecord)
    (hjob : (afterOps W before).getJobRun id = .ok job) :
    ∃ job', (afterOps W (before ++ after)).getJobRun id = .ok job' ∧ jobRank job.status ≤ jobRank job'.status ∧
      (job.status.isTerminal → job'.status = job.status ∧ job'.finishedAt = job.finishedAt) := by
  have hi := inv_reachable (reachable_afterOps W before)
  obtain ⟨job', hjob', hforward⟩ := forward_foldl hi after (getJobRun_eq_ok.mp hjob)
  refine ⟨job', ?_, hforward.rank, hforward.final⟩
  rw [afterOps_append]
  exact getJobRun_eq_ok.mpr hjob'

/-- A failed job keeps its failure through a late observation, a cancellation and a new attempt. -/
theorem job_moves_forward_failed :
    ∃ job', (afterOps Wiring.unary (skipOps ++ [.applyObserved "ii" .running 9, .cancelRun "i" 9,
        .rerequestJob "ii" 9, .markCollected "ii" 9])).getJobRun "ii" = .ok job' ∧
      job'.status = .failed ∧ job'.finishedAt = some 2 := by
  obtain ⟨job', hjob', -, hfinal⟩ := job_moves_forward Wiring.unary skipOps
    [.applyObserved "ii" .running 9, .cancelRun "i" 9, .rerequestJob "ii" 9, .markCollected "ii" 9]
    "ii" _ rfl
  exact ⟨job', hjob', hfinal rfl⟩

/-! ## Claims -/

/-- The job is claimed, or it is no longer queued. -/
def Held (s : DurableStore) (id : JobRunID) : Prop :=
  ∃ job, s.jobs.lookup id = some job ∧ (s.isClaimed id ∨ job.status ≠ .queued)

/-- A job that is no longer queued is not queued again. -/
theorem Forward.not_queued {job job'} (h : Forward job job') (hne : job.status ≠ .queued) : job'.status ≠ .queued := by
  intro hq
  have hrank := h.rank
  rw [hq] at hrank
  cases hstatus : job.status <;> rw [hstatus] at hrank hne <;> first | exact hne rfl | cases hrank

theorem isClaimed_claim (s : DurableStore) (id i : JobRunID) :
    (s.claim i).isClaimed id = if id = i then true else s.isClaimed id := by
  unfold isClaimed claim
  rw [GoMap.lookup_insert_ite]
  split_ifs <;> rfl

theorem isClaimed_unclaim (s : DurableStore) (id i : JobRunID) :
    (s.unclaim i).isClaimed id = if id = i then false else s.isClaimed id := by
  unfold isClaimed unclaim
  rw [GoMap.lookup_erase_ite]
  split_ifs <;> rfl

theorem skips_claimed (h : ReflTransGen (SkipStep W) s s') : s'.claimed = s.claimed := by
  induction h with
  | refl => rfl
  | tail _ hskip ih =>
    obtain ⟨-, queued, -, -⟩ := hskip
    rw [skipJob_claimed W _ _ queued, ih]

theorem isClaimed_claimNextQueuedJob (h : s.isClaimed id) : (s.claimNextQueuedJob W).2.isClaimed id := by
  obtain ⟨s₁, hskips, herr | ⟨i, job, -, hok⟩⟩ := claimNextQueuedJob_spec W s
  · rw [herr]
    rw [isClaimed, skips_claimed hskips]
    exact h
  · rw [hok, isClaimed_claim, isClaimed, skips_claimed hskips]
    split_ifs
    · rfl
    · exact h

/-- The loop of `CancelRun` drops the claims of the jobs it goes over. -/
theorem isClaimed_cancelJobs (now : Time) (s : DurableStore) (ids : List JobRunID) :
    (cancelJobs now s ids).isClaimed id = if id ∈ ids then false else s.isClaimed id := by
  induction ids generalizing s with
  | nil => rfl
  | cons i rest ih =>
    have hkeep : ∀ t : DurableStore, t.claimed = s.claimed → (cancelJobs now (t.unclaim i) rest).isClaimed id =
        if id ∈ i :: rest then false else s.isClaimed id := by
      intro t heq
      rw [ih, isClaimed_unclaim, isClaimed, heq]
      simp only [List.mem_cons, isClaimed]
      split_ifs <;> tauto
    rw [cancelJobs]
    split
    · exact hkeep s rfl
    · split
      · exact hkeep _ rfl
      · exact hkeep s rfl

theorem held_cancelRun (h : Held s id) (r : RunID) (now : Time) : Held (s.cancelRun r now).2 id := by
  obtain ⟨job, hjob, hheld⟩ := h
  obtain heq | ⟨run, -, heq⟩ := cancelRun_eq s r now <;> rw [heq]
  · exact ⟨job, hjob, hheld⟩
  · by_cases hmem : id ∈ s.jobIDs r
    · refine ⟨cancelled now job, ?_, .inr fun hq => ?_⟩
      · rw [setRun_jobs, cancelJobs_lookup, if_pos hmem, hjob, Option.map_some]
      · have hterm := cancelled_isTerminal now job
        rw [hq] at hterm
        cases hterm
    · refine ⟨job, ?_, hheld.imp (fun hclaim => ?_) fun hne => hne⟩
      · rw [setRun_jobs, cancelJobs_lookup, if_neg hmem, hjob]
      · show (cancelJobs now s (s.jobIDs r)).isClaimed id
        rw [isClaimed_cancelJobs, if_neg hmem]
        exact hclaim

theorem held_ackDispatched {i} (h : Held s id) (obj : ActiveObject) (now : Time) :
    Held (s.ackDispatched i obj now).2 id := by
  obtain ⟨job, hjob, hheld⟩ := h
  have hout := ackDispatched_outcome s i obj now
  generalize s.ackDispatched i obj now = out at hout
  cases hout with
  | refused => exact ⟨job, hjob, hheld⟩
  | @acked acked found waiting =>
    by_cases heq : id = i
    · -- the acknowledged job loses its claim and is dispatched
      subst heq
      exact ⟨_, (ackJob_lookup s acked id id obj now).trans (if_pos rfl), .inr fun hq => by cases hq⟩
    · refine ⟨job, ?_, hheld.imp (fun hclaim => ?_) fun hne => hne⟩
      · rw [ackJob_lookup, if_neg heq, hjob]
      · rw [ackJob, isClaimed_unclaim, if_neg heq]
        exact hclaim

theorem Held.carry (h : Held s id) (hcarried : Carried op s s') (hclaim : s.isClaimed id → s'.isClaimed id) :
    Held s' id := by
  obtain ⟨job, hjob, hheld⟩ := h
  obtain ⟨job', hjob', hwrites⟩ := hcarried id job hjob
  exact ⟨job', hjob', hheld.imp hclaim (forward_of_writes hwrites).not_queued⟩

/-- The operations that use the map of claims. -/
def StoreOp.claims : StoreOp → Bool
  | .claimNextQueuedJob | .releaseClaim _ | .ackDispatched .. | .cancelRun .. => true
  | _ => false

theorem claimed_apply (W : Wiring) (s : DurableStore) (op : StoreOp) (h : op.claims = false) :
    (op.apply W s).claimed = s.claimed := by
  cases op with
  | recordDelivery d =>
    rw [StoreOp.apply, recordDelivery]
    split <;> rfl
  | createRun seed now =>
    rw [StoreOp.apply]
    have hout := createRun_outcome W s seed now
    generalize s.createRun W seed now = out at hout
    cases hout <;> rfl
  | applyObserved i phase now =>
    rw [StoreOp.apply]
    have hout := applyObserved_outcome s i phase now
    generalize s.applyObserved i phase now = out at hout
    cases hout with
    | missing | stale => rfl
    | refreshed | moved => exact refreshRun_claimed _ _ _
  | rerequestJob i now =>
    rw [StoreOp.apply]
    have hout := rerequestJob_outcome W s i now
    generalize s.rerequestJob W i now = out at hout
    cases hout with
    | missing | existing | orphan => rfl
    | @attempt orig keyIndex =>
      obtain ⟨runs, heq, -⟩ := reattempted_eq W s orig keyIndex now
      rw [heq]
      rfl
  | markCollected i now =>
    rw [StoreOp.apply]
    obtain heq | ⟨job, -, heq⟩ := markCollected_eq s i now <;> rw [heq]
    rfl
  | _ => cases h

/-- Only the release of its claim takes a job out of `Held`. -/
theorem held_apply (hi : Inv W s) (h : Held s id) (op : StoreOp) (hne : op ≠ .releaseClaim id) :
    Held (op.apply W s) id := by
  have hcarried := carried_apply hi op
  cases hclaims : op.claims with
  | false =>
    refine h.carry hcarried fun hclaim => ?_
    rw [isClaimed, claimed_apply W s op hclaims]
    exact hclaim
  | true =>
    cases op with
    | claimNextQueuedJob => exact h.carry hcarried isClaimed_claimNextQueuedJob
    | releaseClaim i =>
      refine h.carry hcarried fun hclaim => ?_
      rw [StoreOp.apply, releaseClaim, isClaimed_unclaim, if_neg]
      · exact hclaim
      · rintro rfl
        exact hne rfl
    | ackDispatched i obj now => exact held_ackDispatched h obj now
    | cancelRun r now => exact held_cancelRun h r now
    | _ => cases hclaims

theorem held_foldl (hi : Inv W s) (h : Held s id) (ops : List StoreOp) (hops : .releaseClaim id ∉ ops) :
    Held (ops.foldl (fun s op => op.apply W s) s) id := by
  induction ops generalizing s with
  | nil => exact h
  | cons op rest ih =>
    rw [List.mem_cons, not_or] at hops
    exact ih (inv_step hi op) (held_apply hi h op fun heq => hops.1 heq.symm) hops.2

theorem skips_queued (h : ReflTransGen (SkipStep W) s s') {job} (hjob : s'.jobs.lookup id = some job)
    (hq : job.status = .queued) : s.jobs.lookup id = some job := by
  induction h with
  | refl => exact hjob
  | tail _ hskip ih =>
    obtain ⟨-, queued, -, -⟩ := hskip
    rw [skipJob_lookup W _ _ id queued] at hjob
    split_ifs at hjob
    · cases hjob
      cases hq
    · exact ih hjob

theorem skipped_off_queue {job} (hq : job.status = .queued) (h : ReflTransGen (SkipStep W) (s.skipJob W id job) s') :
    ∃ job', s'.jobs.lookup id = some job' ∧ job'.status ≠ .queued := by
  have hskipped := (skipJob_lookup W s id id hq).trans (if_pos rfl)
  obtain ⟨job', hjob', -⟩ := (written_skips h).symm.job hskipped
  refine ⟨job', hjob', fun hqueued => ?_⟩
  obtain rfl := Option.mem_unique hskipped (skips_queued h hjob' hqueued)
  cases hqueued

theorem claimNextQueuedJob_ok (hi : Inv W s) {job} (h : (s.claimNextQueuedJob W).1 = .ok job) :
    s.jobs.lookup job.id = some job ∧ job.status = .queued ∧ s.isClaimed job.id = false ∧
      Held (s.claimNextQueuedJob W).2 job.id := by
  obtain ⟨s₁, hskips, herr | ⟨id, job₁, hclaim, hok⟩⟩ := claimNextQueuedJob_spec W s
  · rw [herr] at h
    cases h
  · rw [hok] at h ⊢
    obtain rfl := Except.ok.inj h
    obtain rfl := (hi.minted.rewrite (written_skips hskips).framed).job_id hclaim.found
    refine ⟨skips_queued hskips hclaim.found hclaim.queued, hclaim.queued, ?_, job₁, hclaim.found, Or.inl ?_⟩
    · rw [isClaimed, ← skips_claimed hskips]
      exact hclaim.unclaimed
    · rw [isClaimed_claim, if_pos rfl]

/-- A claim returns a job that was queued and unclaimed. Before a later claim returns the same job, its
claim is released. -/
theorem claims_exclusive (W : Wiring) (before between : List StoreOp) (first : JobRunRecord)
    (hfirst : ((afterOps W before).claimNextQueuedJob W).1 = .ok first) :
    ((afterOps W before).getJobRun first.id = .ok first ∧ first.status = .queued ∧
        (afterOps W before).isClaimed first.id = false) ∧
      ∀ second, ((afterOps W (before ++ .claimNextQueuedJob :: between)).claimNextQueuedJob W).1 = .ok second →
        second.id = first.id → .releaseClaim first.id ∈ between := by
  have hi := inv_reachable (reachable_afterOps W before)
  obtain ⟨hfound, hqueued, hfree, hheld⟩ := claimNextQueuedJob_ok hi hfirst
  refine ⟨⟨getJobRun_eq_ok.mpr hfound, hqueued, hfree⟩, fun second hsecond hsame => ?_⟩
  by_contra hnot
  have hi₁ : Inv W ((afterOps W before).claimNextQueuedJob W).2 := inv_step hi .claimNextQueuedJob
  obtain ⟨job, hjob, hheld'⟩ := held_foldl hi₁ hheld between hnot
  -- at the second claim the job is queued and unclaimed, which `Held` excludes
  rw [afterOps_append] at hsecond
  obtain ⟨hfound', hqueued', hfree', -⟩ :=
    claimNextQueuedJob_ok (inv_reachable (reachable_foldl (reachable_afterOps W before) _)) hsecond
  rw [List.foldl_cons, hsame] at hfound' hfree'
  have heq : some job = some second := hjob.symm.trans hfound'
  cases heq
  rcases hheld' with hclaim | hne
  · have : true = false := hclaim.symm.trans hfree'
    cases this
  · exact hne hqueued'

/-- A job that is claimed, released and claimed again. -/
theorem claims_exclusive_released : ∃ first second,
      ((afterOps Wiring.unary (skipOps.take 2)).claimNextQueuedJob Wiring.unary).1 = .ok first ∧
      ((afterOps Wiring.unary (skipOps.take 2 ++ [.claimNextQueuedJob, .releaseClaim "ii"])).claimNextQueuedJob
        Wiring.unary).1 = .ok second ∧ second.id = first.id ∧
      .releaseClaim first.id ∈ [StoreOp.releaseClaim "ii"] :=
  ⟨_, _, rfl, rfl, rfl, (claims_exclusive Wiring.unary (skipOps.take 2) [.releaseClaim "ii"] _ rfl).2 _ rfl rfl⟩

end Forgelet.DurableStore
