import Forgelet.Scheduler.Proofs.DispatcherProofs
import Forgelet.Server.Proofs.ConditionProofs
import Forgelet.Server.Proofs.PassProofs
import Forgelet.Store.Proofs.DeadlockProofs

/-!
# Proofs: the loop of `DispatchOnce`

The loop dispatches queued jobs and skips those that `SkipReach` allows, and nothing else happens to a job while it
runs. So what the gate lets pass is what may pass in the state in which the loop begins, and a job that is sound there
is dispatched properly.
-/

namespace Forgelet.Server

open DurableStore Relation

variable {W : Wiring} {s t u : DurableStore} {r : RunID} {key : String}

/-- What a loop that begins in `s` may do to a job: dispatch it or skip it. -/
def Drains (s : DurableStore) (id : JobRunID) (a b : JobRunStatus) : Prop :=
  b = a ∨ a = .queued ∧ (b = .dispatched ∨ b = .skipped ∧ SkipReach s id)

theorem Drains.refl (id : JobRunID) (a : JobRunStatus) : Drains s id a a := .inl rfl

variable {a b : JobRunStatus}

theorem Drains.trans {id c} (h : Drains s id a b) (h' : Drains s id b c) : Drains s id a c := by
  rcases h' with rfl | ⟨rfl, hc⟩
  · exact h
  · rcases h with rfl | ⟨-, hb | ⟨hb, -⟩⟩
    · exact .inr ⟨rfl, hc⟩
    · cases hb
    · cases hb

theorem Drains.of_not_queued {id} (h : Drains s id a b) (ha : a ≠ .queued) : b = a := by
  rcases h with rfl | ⟨hq, -⟩
  · rfl
  · exact absurd hq ha

theorem Drains.queued {id} (h : Drains s id a .queued) : a = .queued := by
  rcases h with rfl | ⟨rfl, -⟩
  · rfl
  · rfl

theorem depStatus_before (h : Moves (Drains s) s t) (hb : t.depStatus r key = some b) :
    ∃ id a, s.indexed r key = some id ∧ s.depStatus r key = some a ∧ Drains s id a b := by
  obtain ⟨id, hidx, hst⟩ := Option.bind_eq_some_iff.mp hb
  obtain ⟨j', hj', rfl⟩ := Option.map_eq_some_iff.mp hst
  obtain ⟨j, hj, -, hmove⟩ := h.job hj'
  rw [h.rewritten.indexed_eq] at hidx
  refine ⟨id, j.status, hidx, ?_, hmove⟩
  rw [depStatus, hidx, Option.bind_some, hj, Option.map_some]

/-- A terminal dependency stays as it is. -/
theorem depStatus_after (h : Moves (Drains s) s t) (ha : s.depStatus r key = some a) (hterm : a.isTerminal) :
    t.depStatus r key = some a := by
  obtain ⟨id, hidx, hst⟩ := Option.bind_eq_some_iff.mp ha
  obtain ⟨j, hj, rfl⟩ := Option.map_eq_some_iff.mp hst
  obtain ⟨j', hj', -⟩ := h.rewritten.symm.job hj
  have hsame : j'.status = j.status := by
    refine (h.status hj hj').of_not_queued fun hq => ?_
    rw [hq] at hterm
    cases hterm
  rw [depStatus, h.rewritten.indexed_eq, hidx, Option.bind_some, hj', Option.map_some, hsame]

/-- The loop began with the failed dependency or may itself have skipped it. -/
theorem stops_of_failed (h : Moves (Drains s) s t) {id job} (found : t.jobs.lookup id = some job)
    (hfailed : t.dependencyState id = .depsFailed) :
    ∃ key status, Seen s job key ∧ Stops s job.runID key ∧
      t.depStatus job.runID key = some status ∧ status.isTerminal := by
  rw [dependencyState_eq found] at hfailed
  obtain ⟨before, key, after, hkeys, hbefore, b, hb, hends⟩ := dependencyLoop_failed (by simp) hfailed
  refine ⟨key, b, ⟨before, after, hkeys, fun k hk => ?_⟩, ?_, hb, ?_⟩
  · rw [← h.rewritten.indexed_eq]
    exact hbefore k hk
  · obtain ⟨depID, a, hidx, ha, hmove⟩ := depStatus_before h hb
    rcases hmove with rfl | ⟨-, rfl | ⟨rfl, hskip⟩⟩
    · refine .inl ⟨b, ha, ?_⟩
      rcases hends with rfl | rfl | rfl <;> rfl
    · simp at hends
    · exact .inr ⟨depID, hidx, hskip⟩
  · rcases hends with rfl | rfl | rfl <;> rfl

theorem Seen.congr {job job'} (heq : job'.asCreated = job.asCreated) (h : Seen s job' key) : Seen s job key := by
  obtain ⟨-, hrun, -, -, hdeps, -⟩ := JobRunRecord.of_asCreated_eq heq
  obtain ⟨before, after, hkeys, hbefore⟩ := h
  rw [hdeps] at hkeys
  rw [hrun] at hbefore
  exact ⟨before, after, hkeys, hbefore⟩

theorem moves_drain_skip (h : Moves (Drains s) s t) (hskip : SkipStep W t u) : Moves (Drains s) s u := by
  refine h.trans Drains.trans (moves_skip Drains.refl hskip fun id job found hq hcond hfailed => ?_)
  obtain ⟨job₀, found₀, heq, hmove⟩ := h.job found
  rw [hq] at hmove
  obtain ⟨-, hrun, -, -, -, hcond₀⟩ := JobRunRecord.of_asCreated_eq heq
  rw [hcond] at hcond₀
  obtain ⟨key, status, hseen, hstops, -, -⟩ := stops_of_failed h found hfailed
  have hseen₀ : Seen s job₀ key := hseen.congr heq
  rw [hrun] at hstops
  refine .inr ⟨rfl, .inr ⟨rfl, ?_⟩⟩
  rcases hstops with ⟨a, ha, hends⟩ | ⟨depID, hidx, hreach⟩
  · exact .ended found₀ hmove.queued hcond₀.symm hseen₀ ha hends
  · exact .via found₀ hmove.queued hcond₀.symm hseen₀ hidx hreach

theorem moves_drain_skips (h : Moves (Drains s) s t) (hskips : ReflTransGen (SkipStep W) t u) :
    Moves (Drains s) s u := by
  induction hskips with
  | refl => exact h
  | tail _ hstep ih => exact moves_drain_skip ih hstep

theorem moves_drain_ack (h : Moves (Drains s) s t) {id job} (hc : Claimable t id job) (obj : ActiveObject)
    (now : Time) :
    Moves (Drains s) s ((t.claim id).ackJob job id obj now) := by
  have hclaim : Moves (Drains s) t (t.claim id) :=
    moves_of_jobs_eq Drains.refl ⟨rfl, rfl, rfl, rfl, fun _ => rfl, fun _ => rfl⟩ rfl
  have hack : Moves (Drains s) (t.claim id) ((t.claim id).ackJob job id obj now) :=
    moves_ackJob (s := t.claim id) Drains.refl hc.found hc.queued obj now (.inr ⟨rfl, .inl rfl⟩)
  have hclaimed : Moves (Drains s) s (t.claim id) := h.trans Drains.trans hclaim
  exact hclaimed.trans Drains.trans hack

theorem inv_skips (hi : Inv W s) (hskips : ReflTransGen (SkipStep W) s t) : Inv W t :=
  hi.rewrite (written_skips hskips).toRewritten (settled_skips hi.settled hi.listing hskips).1

theorem inv_ack (hi : Inv W s) {id job} (hc : Claimable s id job) (obj : ActiveObject) (now : Time) :
    Inv W ((s.claim id).ackJob job id obj now) := by
  have hclaimed : Inv W (s.claim id) := hi.claims _
  exact hclaimed.rewrite (written_ackJob (s := s.claim id) hc.found (.inl hc.queued) obj now).toRewritten
    (settled_ackJob hclaimed.settled hc.found (.inl hc.queued) obj now)

/-- A dispatch gives up the claim that it takes, so the claims are those before it. -/
theorem isClaimed_released (hskips : ReflTransGen (SkipStep W) s t) {pick job} (hc : Claimable t pick job)
    (id : JobRunID) : ((t.claim pick).unclaim pick).isClaimed id = s.isClaimed id := by
  have hsame : t.isClaimed id = s.isClaimed id := by rw [isClaimed, isClaimed, skips_claimed hskips]
  rw [← hsame, isClaimed_unclaim]
  split_ifs with hid
  · rw [hid, hc.unclaimed]
  · rw [isClaimed_claim, if_neg hid]

/-- How a job is handed out by a loop that began in `s`. -/
def Handed (W : Wiring) (s : DurableStore) (m : Moment) : Prop :=
  ∃ t id, Moves (Drains s) s t ∧ Inv W t ∧ Claimable t id m.job ∧ m.store = t.claim id

/-- A job leaves another status for `dispatched` between two stores. -/
def Dispatches (s s' : DurableStore) (id : JobRunID) : Prop :=
  ∃ j j', s.jobs.lookup id = some j ∧ j.status ≠ .dispatched ∧ s'.jobs.lookup id = some j' ∧
    j'.status = .dispatched

/-- What the loop does, from a store `t` that it has come to. -/
structure DrainSpec (W : Wiring) (s t : DurableStore) (d : Drained) : Prop where
  handed : ∀ m ∈ d.moments, Handed W s m
  inv : Inv W d.stores.durable
  moves : Moves (Drains s) s d.stores.durable
  covered : ∀ id, Dispatches t d.stores.durable id → ∃ m ∈ d.moments, m.job.id = id

theorem moves_skips_undispatched (hskips : ReflTransGen (SkipStep W) s t) :
    Moves (fun _ a b => b = .dispatched → a = .dispatched) s t := by
  have hrefl : ∀ (_ : JobRunID) (a : JobRunStatus), a = .dispatched → a = .dispatched := fun _ _ h => h
  induction hskips with
  | refl => exact .refl hrefl s
  | tail _ hstep ih =>
    refine ih.trans (fun h h' hc => h (h' hc)) ?_
    exact moves_skip hrefl hstep fun _ _ _ _ _ _ hc => by cases hc

theorem status_of_skips (hskips : ReflTransGen (SkipStep W) s t) {id j j'} (hj : s.jobs.lookup id = some j)
    (hj' : t.jobs.lookup id = some j') (hd : j'.status = .dispatched) : j.status = .dispatched :=
  (moves_skips_undispatched hskips).status hj hj' hd

theorem drain_spec (faults : Nat → DispatchFaults) (now : Nat → Time) (fuel : Nat) {w} (hi : Inv W w.durable)
    (hmoves : Moves (Drains s) s w.durable) : DrainSpec W s w.durable (drain W faults now fuel w) := by
  induction fuel generalizing w with
  | zero =>
    refine ⟨by simp [drain], hi, hmoves, fun id hdisp => ?_⟩
    obtain ⟨j, j', hj, hne, hj', hd⟩ := hdisp
    obtain rfl := Option.mem_unique hj hj'
    exact absurd hd hne
  | succ fuel ih =>
    rw [drain]
    have hout := w.dispatchNext_outcome hi.minted (faults fuel) (now fuel)
    generalize w.dispatchNext W (faults fuel) (now fuel) = out at hout
    -- a round that ends the loop dispatches nothing
    have hend : ∀ {w' : Stores} {t : DurableStore}, ReflTransGen (SkipStep W) w.durable t →
        w'.durable.jobs = t.jobs → ∀ id, ¬Dispatches w.durable w'.durable id := by
      rintro w' t hskips hjobs id ⟨j, j', hj, hne, hj', hd⟩
      rw [hjobs] at hj'
      exact hne (status_of_skips hskips hj hj' hd)
    cases hout with
    | idle skips durable =>
      refine ⟨by simp, ?_, ?_, fun id hdisp => absurd hdisp (hend skips (by rw [durable]) id)⟩
      · rw [durable]
        exact inv_skips hi skips
      · rw [durable]
        exact moves_drain_skips hmoves skips
    | released skips claimable durable =>
      refine ⟨by simp, ?_, ?_, fun id hdisp => absurd hdisp (hend skips (by rw [durable]; rfl) id)⟩
      · rw [durable]
        exact (inv_skips hi skips).claims _
      · rw [durable]
        refine (moves_drain_skips hmoves skips).trans Drains.trans ?_
        exact moves_of_jobs_eq Drains.refl ⟨rfl, rfl, rfl, rfl, fun _ => rfl, fun _ => rfl⟩ rfl
    | @dispatched t id job obj w' skips claimable claimed durable =>
      have hinv := inv_skips hi skips
      have hdrained := moves_drain_skips hmoves skips
      have hrest := ih (w := w') (by rw [durable]; exact inv_ack hinv claimable obj _)
        (by rw [durable]; exact moves_drain_ack hdrained claimable obj _)
      refine ⟨?_, hrest.inv, hrest.moves, ?_⟩
      · rw [List.forall_mem_cons, claimed]
        exact ⟨⟨t, id, hdrained, hinv, claimable, rfl⟩, hrest.handed⟩
      · rintro i ⟨j, j', hj, hne, hj', hd⟩
        by_cases hi' : i = id
        · subst hi'
          exact ⟨_, (.head _), hinv.minted.job_id claimable.found⟩
        · -- another job: it is dispatched in a later round
          obtain ⟨jt, hjt, -⟩ := (written_skips skips).symm.job hj
          have hnot : jt.status ≠ .dispatched := fun h => hne (status_of_skips skips hj hjt h)
          have hlater : w'.durable.jobs.lookup i = some jt := by
            rw [durable]
            exact (setJob_lookup _ _ _ _).trans ((if_neg hi').trans hjt)
          obtain ⟨m, hm, hid⟩ := hrest.covered i ⟨jt, j', hlater, hnot, hj', hd⟩
          exact ⟨m, .tail _ hm, hid⟩

theorem countQueuedJobs_skips (hskips : ReflTransGen (SkipStep W) s t) : t.countQueuedJobs ≤ s.countQueuedJobs := by
  induction hskips with
  | refl => exact Nat.le_refl _
  | tail _ hstep ih =>
    obtain ⟨found, queued, -, -⟩ := hstep
    rename_i b _ id job
    rw [skipJob_eq W b id queued, countQueuedJobs_congr (refreshRun_jobs _ job.runID _)]
    have hcount := countQueuedJobs_setJob (s := { b with ticks := b.ticks + 1 }) found
      { job with status := .skipped, finishedAt := some (W.clock b.ticks) } (by simp)
    have hticks : ({ b with ticks := b.ticks + 1 } : DurableStore).countQueuedJobs =
        b.countQueuedJobs := countQueuedJobs_congr rfl
    omega

theorem countQueuedJobs_ack {id job} (hc : Claimable s id job) (obj : ActiveObject) (now : Time) :
    ((s.claim id).ackJob job id obj now).countQueuedJobs < s.countQueuedJobs := by
  have hcount := countQueuedJobs_setJob (s := s.claim id) hc.found
    { job with
      status := .dispatched
      activeName := obj.name
      activeUID := obj.uid
      dispatchedAt := some now } (by simp)
  rw [if_pos hc.queued, countQueuedJobs_congr (claim_jobs s id)] at hcount
  rw [ackJob, countQueuedJobs_congr (unclaim_jobs _ id)]
  omega

/-- Without faults `DispatchNext` dispatches what it claims. -/
theorem dispatchNext_faultless {w : Stores} (hm : Minted W w.durable) (now : Time) :
    (∃ s₁, ReflTransGen (SkipStep W) w.durable s₁ ∧ w.durable.claimNextQueuedJob W = (.error .errNoQueuedJob, s₁) ∧
        w.dispatchNext W .none now = (.error .errNoQueuedJob, { w with durable := s₁ })) ∨
      ∃ s₁ id job obj w', ReflTransGen (SkipStep W) w.durable s₁ ∧ Claimable s₁ id job ∧
        w.dispatchNext W .none now = (.ok job, w') ∧ w'.durable = (s₁.claim id).ackJob job id obj now := by
  obtain ⟨s₁, hskips, herr | ⟨id, job, hclaim, hok⟩⟩ := claimNextQueuedJob_spec W w.durable
  · refine .inl ⟨s₁, hskips, herr, ?_⟩
    unfold Stores.dispatchNext
    rw [herr]
  · have hid : job.id = id := (hm.rewrite (written_skips hskips).framed).job_id hclaim.found
    unfold Stores.dispatchNext
    rw [hok]
    dsimp only
    rw [hid]
    have hout := Stores.dispatch_outcome (w := { w with durable := s₁.claim id }) hclaim.found hclaim.queued .none now
    generalize Stores.dispatch { w with durable := s₁.claim id } .none id now = out at hout
    cases hout with
    | uncreated fault => exact absurd rfl fault
    | unacked created fault => exact absurd rfl fault
    | acked => exact .inr ⟨s₁, id, job, _, _, hskips, hclaim, rfl, rfl⟩

section Ends

variable {P : DurableStore → Prop} (faults : Nat → DispatchFaults) {fuel : Nat} {w : Stores} (now : Nat → Time)
  (hkeep : ∀ {t s₁ id job obj} (now : Time), P t → ReflTransGen (SkipStep W) t s₁ → Claimable s₁ id job →
    P ((s₁.claim id).ackJob job id obj now))
  (hi : Inv W w.durable) (hP : P w.durable) (hfuel : w.durable.countQueuedJobs < fuel)
include hkeep hi hP hfuel

/-- The loop ends in a round that returns an error, within one for each queued job and one more. -/
theorem drain_ends : ∃ (n : Nat) (w' : Stores) (err : Err), Inv W w'.durable ∧ P w'.durable ∧
      w'.dispatchNext W (faults n) (now n) = (.error err, (drain W faults now fuel w).stores) ∧
      (drain W faults now fuel w).err = if err = .errNoQueuedJob then none else some err := by
  induction fuel generalizing w with
  | zero => omega
  | succ fuel ih =>
    rw [drain]
    have hout := w.dispatchNext_outcome hi.minted (faults fuel) (now fuel)
    cases hnext : w.dispatchNext W (faults fuel) (now fuel) with
    | mk result w' =>
      rw [hnext] at hout
      cases hout with
      | idle | released => exact ⟨fuel, w, _, hi, hP, hnext, rfl⟩
      | @dispatched _ _ _ obj _ skips claimable claimed durable =>
        have hskipped := countQueuedJobs_skips skips
        have hacked := countQueuedJobs_ack claimable obj (now fuel)
        rw [← durable] at hacked
        refine ih ?_ ?_ (by omega)
        · rw [durable]
          exact inv_ack (inv_skips hi skips) claimable _ _
        · rw [durable]
          exact hkeep _ hP skips claimable

theorem drain_last (hfaults : ∀ n, faults n = .none) :
    ∃ t, P t ∧ ReflTransGen (SkipStep W) t (drain W faults now fuel w).stores.durable ∧
      t.claimNextQueuedJob W = (.error .errNoQueuedJob, (drain W faults now fuel w).stores.durable) ∧
      (drain W faults now fuel w).err = none := by
  obtain ⟨n, w', err, hi', hP', hnext, herr⟩ := drain_ends faults now hkeep hi hP hfuel
  rw [hfaults n] at hnext
  rcases dispatchNext_faultless (W := W) hi'.minted (now n) with
    ⟨s₁, hskips, hnone, hlast⟩ | ⟨_, _, _, _, _, -, -, hok, -⟩
  · obtain ⟨heq, hstores⟩ := Prod.mk.inj (hlast.symm.trans hnext)
    cases heq
    rw [← hstores]
    exact ⟨w'.durable, hP', hskips, hnone, herr⟩
  · cases hok.symm.trans hnext

end Ends

/-- Whatever fails, the loop leaves the claims as they are. -/
theorem isClaimed_drain {fuel w} (faults : Nat → DispatchFaults) (now : Nat → Time) (hi : Inv W w.durable)
    (hfuel : w.durable.countQueuedJobs < fuel) (id : JobRunID) :
    (drain W faults now fuel w).stores.durable.isClaimed id = w.durable.isClaimed id := by
  obtain ⟨n, w', err, hi', hP, hnext, -⟩ := drain_ends (P := fun t => t.isClaimed id = w.durable.isClaimed id)
    faults now (fun _ hP hskips hc => (isClaimed_released hskips hc id).trans hP) hi rfl hfuel
  have hout := w'.dispatchNext_outcome hi'.minted (faults n) (now n)
  rw [hnext] at hout
  cases hout with
  | idle skips durable =>
    rw [← hP, durable, isClaimed, isClaimed, skips_claimed skips]
  | released skips claimable durable =>
    rw [← hP, durable, isClaimed_released skips claimable]

theorem latestIs_of_depStatus (hi : Inv W t) {st} {p : JobRunStatus → Bool} (h : t.depStatus r key = some st)
    (hp : p st) : LatestIs (t.jobsOf r) key p := by
  obtain ⟨id, j, hidx, hj, hrun, hkey, hst, hmax⟩ := hi.indexing.depStatus h
  have hstored : t.Stored r := hi.indexing.stored_of_indexed hidx
  refine ⟨j, (hi.listing.mem_jobsOf_iff hstored).mpr ⟨id, hj, hrun⟩, hkey, ?_, hst ▸ hp⟩
  intro j' hj' hkey'
  obtain ⟨id', hlook, hrun'⟩ := (hi.listing.mem_jobsOf_iff hstored).mp hj'
  exact hmax id' j' hlook hrun' hkey'

theorem mayBecome_jobsOf (hm : Minted W s) (h : Moves (Drains s) s t) (r : RunID) :
    MayBecome s (s.jobsOf r) (t.jobsOf r) := by
  refine h.rewritten.forall₂_jobsOf (fun {id j j'} hj hj' => ?_) r
  obtain ⟨j₀, hj₀, heq⟩ := h.rewritten.job hj'
  obtain rfl := Option.mem_unique hj hj₀
  refine ⟨(JobRunRecord.of_asCreated_eq heq).2.2.1, ?_⟩
  rcases h.status hj hj' with hsame | ⟨hq, hd | ⟨hskip, hreach⟩⟩
  · rw [hsame]
    exact .inl rfl
  · -- a dispatched job is pending like a queued one
    rw [hq, hd]
    exact .inl rfl
  · rw [hm.job_id hj]
    exact .inr ⟨hreach, hskip⟩

/-- The gate lets a job with a condition pass only if it may pass at the start. -/
theorem mayPass_of_claimable (h : Moves (Drains s) s t) {id job job₀} (hc : Claimable t id job)
    (heq : job.asCreated = job₀.asCreated) : MayPass s job₀ := by
  obtain ⟨-, hrun, -, -, hdeps, -⟩ := JobRunRecord.of_asCreated_eq heq
  rcases hc.gate with hready | ⟨hfailed, -⟩
  · rw [dependencyState_eq hc.found] at hready
    refine .inl fun key hkey => ?_
    rw [← hdeps] at hkey
    obtain ⟨depID, a, -, ha, hmove⟩ := depStatus_before h ((dependencyLoop_ready.mp hready).2 key hkey)
    rw [← hrun, ha]
    rcases hmove with rfl | ⟨-, hd | ⟨hs, -⟩⟩
    · rfl
    · cases hd
    · cases hs
  · obtain ⟨key, status, hseen, hstops, -, -⟩ := stops_of_failed h hc.found hfailed
    rw [hrun] at hstops
    exact .inr ⟨key, hseen.congr heq, hstops⟩

theorem conditionReady_iff {all rec} : conditionReady all rec ↔
      ∀ key ∈ rec.dependsOn, ∀ sibling ∈ all, sibling.jobKey = key → sibling.status.isTerminal := by
  unfold conditionReady
  simp only [List.all_eq_true, Bool.or_eq_true, ne_eq, decide_not, Bool.not_eq_true', decide_eq_false_iff_not]
  constructor
  · intro h key hkey sibling hmem heq
    rcases h key hkey sibling hmem with hne | hterm
    · exact absurd heq hne
    · exact hterm
  · intro h key hkey sibling hmem
    by_cases heq : sibling.jobKey = key
    · exact .inr (h key hkey sibling hmem heq)
    · exact .inl heq

theorem depStatus_of_ended (hi : Inv W s) (hidx : (s.indexed r key).isSome)
    (hended : ∀ j ∈ s.jobsOf r, j.jobKey = key → j.status.isTerminal) :
    ∃ st, s.depStatus r key = some st ∧ st.isTerminal := by
  obtain ⟨id, hid⟩ := Option.isSome_iff_exists.mp hidx
  obtain ⟨j, hj, hrun, hjkey, -⟩ := hi.indexing.latest hid
  have hmem : j ∈ s.jobsOf r :=
    (hi.listing.mem_jobsOf_iff (hi.indexing.stored_of_indexed hid)).mpr ⟨id, hj, hrun⟩
  refine ⟨j.status, ?_, hended j hmem hjkey⟩
  rw [depStatus, hid, Option.bind_some, hj, Option.map_some]

section Proper

variable {id : JobRunID} {job job₀ : JobRunRecord} {run : RunRecord}

theorem Sound.terminal (hsound : Sound s job₀ run) (hi : Inv W s) (hmoves : Moves (Drains s) s t)
    (hc : Claimable t id job) (heq : job.asCreated = job₀.asCreated) :
    ∀ key ∈ job.dependsOn, ∃ st, t.depStatus job.runID key = some st ∧ st.isTerminal := by
  obtain ⟨-, hrun, -, -, hdeps, -⟩ := JobRunRecord.of_asCreated_eq heq
  intro key hkey
  have hkey₀ : key ∈ job₀.dependsOn := hdeps ▸ hkey
  have hkept : (∃ st, s.depStatus job₀.runID key = some st ∧ st.isTerminal) →
      ∃ st, t.depStatus job.runID key = some st ∧ st.isTerminal := by
    rintro ⟨st, hst, hterm⟩
    rw [hrun]
    exact ⟨st, depStatus_after hmoves hst hterm, hterm⟩
  cases hdeferred : isDeferredCondition job₀.condition with
  | true =>
    obtain ⟨hready, hidx, -⟩ := hsound.swept hdeferred
    exact hkept (depStatus_of_ended hi (hidx key hkey₀) (conditionReady_iff.mp hready key hkey₀))
  | false =>
    obtain ⟨hothers, -⟩ := hsound.eager hdeferred
    rcases hc.gate with hready | ⟨hfailed, -⟩
    · rw [dependencyState_eq hc.found] at hready
      exact ⟨_, (dependencyLoop_ready.mp hready).2 key hkey, rfl⟩
    · -- the gate stopped at one dependency; the others were terminal before
      obtain ⟨stop, st, hseen, hstops, hst, hterm⟩ := stops_of_failed hmoves hc.found hfailed
      by_cases hne : key = stop
      · rw [hne]
        exact ⟨st, hst, hterm⟩
      · rw [hrun] at hstops
        exact hkept (hothers stop (hseen.congr heq) hstops key hkey₀ hne)

theorem Sound.condition (hsound : Sound s job₀ run) (hm : Minted W s) (hswept : Swept s) (heager : EagerlyTrue s job₀)
    (hmoves : Moves (Drains s) s t) (found : s.jobs.lookup id = some job₀) (hq : job₀.status = .queued)
    (hne : job₀.condition ≠ "") : checkCondition run.event job₀ (t.jobsOf job₀.runID) job₀.condition = .ok true := by
  have hbecome := mayBecome_jobsOf hm hmoves job₀.runID
  cases hdeferred : isDeferredCondition job₀.condition with
  | true =>
    obtain ⟨hready, -, hstable⟩ := hsound.swept hdeferred
    rw [hstable _ hbecome]
    exact hswept found hq hne hdeferred hsound.stored hready
  | false =>
    obtain ⟨-, hstable⟩ := hsound.eager hdeferred
    rw [hstable _ hbecome]
    rcases heager with hempty | hdef | htrue
    · exact absurd hempty hne
    · rw [hdeferred] at hdef
      cases hdef
    · exact htrue run hsound.stored

/-- A loop that begins where no condition waits, and all that may pass are sound, dispatches properly. -/
theorem dispatchedProperly_of_handed (hi : Inv W s) (hswept : Swept s)
    (heager : ∀ id job, s.jobs.lookup id = some job → job.status = .queued → EagerlyTrue s job)
    (hsound : ∀ id job, s.jobs.lookup id = some job → job.status = .queued → job.condition ≠ "" →
      MayPass s job → ∃ run, Sound s job run)
    {m} (h : Handed W s m) : DispatchedProperly m := by
  obtain ⟨t, id, hmoves, hinv, hc, hstore⟩ := h
  obtain ⟨store, job⟩ := m
  subst hstore
  obtain ⟨job₀, found₀, heq, hmove⟩ := hmoves.job hc.found
  rw [hc.queued] at hmove
  obtain ⟨-, hrun, -, -, hdeps, hcond⟩ := JobRunRecord.of_asCreated_eq heq
  by_cases hempty : job.condition = ""
  · -- the gate lets a job without a condition pass only when all dependencies succeeded
    have hall : ∀ key ∈ job.dependsOn, t.depStatus job.runID key = some .succeeded := by
      rcases hc.gate with hready | ⟨-, hne⟩
      · rw [dependencyState_eq hc.found] at hready
        exact (dependencyLoop_ready.mp hready).2
      · exact absurd hempty hne
    refine ⟨fun key hkey => latestIs_of_depStatus hinv (hall key hkey) rfl, ?_⟩
    rw [if_pos hempty]
    exact fun key hkey => latestIs_of_depStatus hinv (hall key hkey) rfl
  · have hne₀ : job₀.condition ≠ "" := hcond ▸ hempty
    obtain ⟨run, hsnd⟩ :=
      hsound id job₀ found₀ hmove.queued hne₀ (mayPass_of_claimable hmoves hc heq)
    refine ⟨fun key hkey => ?_, ?_⟩
    · obtain ⟨st, hst, hterm⟩ := hsnd.terminal hi hmoves hc heq key hkey
      exact latestIs_of_depStatus hinv hst hterm
    · rw [if_neg hempty]
      have hholds := hsnd.condition hi.minted hswept (heager id job₀ found₀ hmove.queued) hmoves found₀
        hmove.queued hne₀
      obtain ⟨run', hrun', hcreated⟩ := hmoves.rewritten.symm.run hsnd.stored
      have hev : run'.event = run.event := (RunRecord.of_asCreated_eq hcreated).2.1.symm
      have hsame : List.Forall₂ SameResult (t.jobsOf job₀.runID) (t.jobsOf job₀.runID) :=
        List.forall₂_same.mpr fun _ _ => ⟨rfl, rfl⟩
      unfold conditionHolds
      rw [claim_runs, hrun, hrun']
      rw [decide_eq_true_eq, hev, hcond]
      exact (checkCondition_congr run.event hdeps hsame job₀.condition).trans hholds

end Proper

end Forgelet.Server
