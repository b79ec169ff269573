import Forgelet.Scheduler.Dispatcher
import Forgelet.Store.Proofs.ReachableProofs

/-!
# Proofs: dispatch along the dependencies of a run

A run without conditions that is driven by `DispatchNext` and by observations of dispatched jobs. A job
starts only after its dependencies have succeeded and is skipped only below a failure; `Driven` is
the invariant, and `driven_move` says when moving one job keeps it.
-/

namespace Forgelet

open DurableStore Relation

variable {id : JobRunID} {job j : JobRunRecord}

namespace Stores

variable {W : Wiring}

theorem ackDispatched_queued {s : DurableStore} (hj : s.jobs.lookup id = some job) (hq : job.status = .queued)
    (obj : ActiveObject) (now : Time) : s.ackDispatched id obj now = (.ok (), s.ackJob job id obj now) := by
  unfold ackDispatched
  rw [hj]
  dsimp only
  rw [hq]

/-- `Dispatch` of a queued job: no object, one not acknowledged, or an acknowledged dispatch. -/
inductive DispatchOutcome (w : Stores) (faults : DispatchFaults) (id : JobRunID) (job : JobRunRecord)
    (now : Time) : Except Err Unit × Stores → Prop
  | uncreated {err} (fault : faults.createOrGet ≠ none) : DispatchOutcome w faults id job now (.error err, w)
  | unacked {err} (created : faults.createOrGet = none) (fault : faults.ackDispatched ≠ none) :
      DispatchOutcome w faults id job now (.error err, { w with active := (w.active.createOrGet id).2 })
  | acked :
      DispatchOutcome w faults id job now
        (.ok (),
          { durable := w.durable.ackJob job id ⟨crName id, (w.active.createOrGet id).1.uid⟩ now
            active := (w.active.createOrGet id).2 })

theorem dispatch_outcome {w : Stores} (hj : w.durable.jobs.lookup id = some job) (hq : job.status = .queued)
    (faults : DispatchFaults) (now : Time) : DispatchOutcome w faults id job now (w.dispatch faults id now) := by
  unfold dispatch getJobRun
  rw [hj]
  dsimp only
  rw [if_neg (fun h => h.1 hq)]
  split
  · rename_i err hfault
    exact .uncreated (by rw [hfault]; exact Option.some_ne_none err)
  · rename_i hcreated
    split
    · rename_i err hfault
      exact .unacked hcreated (by rw [hfault]; exact Option.some_ne_none err)
    · rw [ackDispatched_queued hj hq]
      exact .acked

/-- The object after `DispatchNext` has failed: not created, or not acknowledged. -/
def Unacknowledged (w : Stores) (faults : DispatchFaults) (id : JobRunID) (active : ActiveStore) : Prop :=
  (faults.createOrGet ≠ none ∧ active = w.active) ∨
    (faults.createOrGet = none ∧ faults.ackDispatched ≠ none ∧ active = (w.active.createOrGet id).2)

/-- `DispatchNext` skips jobs, and finds nothing, or releases or acknowledges the job it claimed. -/
inductive DispatchNextOutcome (W : Wiring) (w : Stores) (faults : DispatchFaults) (now : Time) :
    Except Err JobRunRecord × Stores → Prop
  | idle {s₁ w'} (skips : ReflTransGen (SkipStep W) w.durable s₁) (durable : w'.durable = s₁)
      (active : w'.active = w.active) : DispatchNextOutcome W w faults now (.error .errNoQueuedJob, w')
  | released {s₁ id job err w'} (skips : ReflTransGen (SkipStep W) w.durable s₁) (claimable : Claimable s₁ id job)
      (durable : w'.durable = (s₁.claim id).unclaim id)
      (claimed : w.durable.claimNextQueuedJob W = (.ok job, s₁.claim id))
      (cause : Unacknowledged w faults id w'.active) : DispatchNextOutcome W w faults now (.error err, w')
  | dispatched {s₁ id job obj w'} (skips : ReflTransGen (SkipStep W) w.durable s₁) (claimable : Claimable s₁ id job)
      (claimed : w.durable.claimNextQueuedJob W = (.ok job, s₁.claim id))
      (durable : w'.durable = (s₁.claim id).ackJob job id obj now)
      (object : obj = ⟨crName id, (w.active.createOrGet id).1.uid⟩) (active : w'.active = (w.active.createOrGet id).2) :
      DispatchNextOutcome W w faults now (.ok job, w')

theorem dispatchNext_outcome (w : Stores) (hm : Minted W w.durable) (faults : DispatchFaults) (now : Time) :
    DispatchNextOutcome W w faults now (w.dispatchNext W faults now) := by
  obtain ⟨s₁, hskips, herr | ⟨id, job, hclaim, hok⟩⟩ := claimNextQueuedJob_spec W w.durable
  · unfold dispatchNext
    rw [herr]
    exact .idle hskips rfl rfl
  · have hid : job.id = id := (hm.rewrite (written_skips hskips).framed).job_id hclaim.found
    unfold dispatchNext
    rw [hok]
    dsimp only
    rw [hid]
    have hout := dispatch_outcome (w := { w with durable := s₁.claim id }) hclaim.found hclaim.queued faults now
    generalize Stores.dispatch { w with durable := s₁.claim id } faults id now = out at hout
    cases hout with
    | uncreated fault => exact .released hskips hclaim rfl hok (.inl ⟨fault, rfl⟩)
    | unacked created fault => exact .released hskips hclaim rfl hok (.inr ⟨created, fault, rfl⟩)
    | acked => exact .dispatched hskips hclaim hok rfl rfl rfl

end Stores

/-- `DispatchNext`, or the observation that a dispatched job runs or has ended. -/
inductive DriveStep (W : Wiring) (w : Stores) : Stores → Prop
  | dispatch (faults : DispatchFaults) (now : Time) : DriveStep W w (w.dispatchNext W faults now).2
  | observe (id : JobRunID) {job} (phase : ObservedPhase) (now : Time)
      (found : w.durable.jobs.lookup id = some job) (dispatched : job.status ≠ .queued)
      (observed : phase = .running ∨ phase = .succeeded ∨ phase = .failed) :
      DriveStep W w { w with durable := (w.durable.applyObserved id phase now).2 }

/-- The job with key `key` needs `key'`. -/
def Needs (seed : RunSeed) (key key' : String) : Prop :=
  ∃ intent ∈ seed.jobs, intent.jobKey = key ∧ key' ∈ intent.dependsOn

/-- The invariant of a run `r` created from `seed`. -/
structure Driven (W : Wiring) (seed : RunSeed) (r : RunID) (s : DurableStore) : Prop where
  inv : Inv W s
  stored : s.Stored r
  distinct : (seed.jobs.map (·.jobKey)).Nodup
  drafted : ∃ now n, (s.jobsOf r).map (·.asCreated) = drafts W r now n seed.jobs
  not_cancelled : ∀ {id j}, s.jobs.lookup id = some j → j.runID = r → j.status ≠ .cancelled
  started : ∀ {id j}, s.jobs.lookup id = some j → j.runID = r → j.status ≠ .queued →
    j.status ≠ .skipped → ∀ key ∈ j.dependsOn, s.depStatus r key = some .succeeded
  skipped : ∀ {id j}, s.jobs.lookup id = some j → j.runID = r → j.status = .skipped →
    ∃ key, TransGen (Needs seed) j.jobKey key ∧ s.depStatus r key = some .failed

section Drive

variable {W : Wiring} {seed : RunSeed} {r : RunID} {s s' : DurableStore}

section

variable (h : Driven W seed r s) (hj : s.jobs.lookup id = some j) (hr : j.runID = r)
include h hj hr

theorem Driven.intent :
    ∃ intent ∈ seed.jobs, j.jobKey = intent.jobKey ∧ j.dependsOn = intent.dependsOn ∧
      j.condition = intent.condition ∧ j.attempt = 1 := by
  obtain ⟨now, n, heq⟩ := h.drafted
  have hmem : j ∈ s.jobsOf r := (h.inv.listing.mem_jobsOf_iff h.stored).mpr ⟨id, hj, hr⟩
  have hcreated : j.asCreated ∈ drafts W r now n seed.jobs := heq ▸ List.mem_map_of_mem hmem
  obtain ⟨intent, hin, i, -, -, hjob⟩ := mem_drafts hcreated
  exact ⟨intent, hin, congrArg JobRunRecord.jobKey hjob, congrArg JobRunRecord.dependsOn hjob,
    congrArg JobRunRecord.condition hjob, congrArg JobRunRecord.attempt hjob⟩

theorem Driven.needs_iff (key : String) :
    Needs seed j.jobKey key ↔ key ∈ j.dependsOn := by
  obtain ⟨intent, hin, hkey, hdep, -⟩ := h.intent hj hr
  constructor
  · rintro ⟨intent', hin', hkey', hmem⟩
    have : intent' = intent :=
      List.inj_on_of_nodup_map h.distinct hin' hin (hkey'.trans hkey)
    rw [hdep, ← this]
    exact hmem
  · intro hmem
    exact ⟨intent, hin, hkey.symm, hdep ▸ hmem⟩

end

section

variable (h : Driven W seed r s)
include h

/-- Moving one open job keeps the invariant if the job may be where it is moved. -/
theorem driven_move (hre : Rewritten s s') (hset : Settled s') {j'}
    (hlook : ∀ i, s'.jobs.lookup i = if i = id then some j' else s.jobs.lookup i) (hj : s.jobs.lookup id = some j)
    (hopen : j.status.isTerminal = false) (hcancel : j'.status ≠ .cancelled)
    (hstart : j.runID = r → j'.status ≠ .queued → j'.status ≠ .skipped →
      ∀ key ∈ j.dependsOn, s.depStatus r key = some .succeeded)
    (hskip : j.runID = r → j'.status = .skipped → ∃ key, TransGen (Needs seed) j.jobKey key ∧
      s.depStatus r key = some .failed)
    : Driven W seed r s' := by
  have hkeep : ∀ {key : String} {st : JobRunStatus}, st.isTerminal →
      s.depStatus r key = some st → s'.depStatus r key = some st := by
    intro key st hst hdep
    obtain ⟨i, hi, hmap⟩ := Option.bind_eq_some_iff.mp hdep
    unfold depStatus
    rw [hre.indexed_eq, hi, Option.bind_some, hlook, if_neg]
    · exact hmap
    · rintro rfl
      rw [hj, Option.map_some, Option.some_inj] at hmap
      rw [hmap, hst] at hopen
      cases hopen
  have hj' : s'.jobs.lookup id = some j' := (hlook id).trans (if_pos rfl)
  -- the moved job is what it was created as
  have hcreated : j'.asCreated = j.asCreated := by
    obtain ⟨j₀, hj₀, heq⟩ := hre.job hj'
    rw [heq, Option.mem_unique hj hj₀]
  obtain ⟨-, hrun', hkey', -, hdep', -⟩ := JobRunRecord.of_asCreated_eq hcreated
  refine ⟨h.inv.rewrite hre hset, hre.symm.stored h.stored, h.distinct, ?_, ?_, ?_, ?_⟩
  · obtain ⟨now, n, heq⟩ := h.drafted
    refine ⟨now, n, ?_⟩
    rw [← heq]
    unfold jobsOf
    rw [hre.jobIDs_eq, List.map_filterMap, List.map_filterMap]
    exact List.filterMap_congr fun i _ => hre.jobs i
  · intro i ji hi hr
    rw [hlook] at hi
    split_ifs at hi
    · cases hi
      exact hcancel
    · exact h.not_cancelled hi hr
  · intro i ji hi hr hq hs key hk
    rw [hlook] at hi
    split_ifs at hi
    · cases hi
      exact hkeep rfl (hstart (hrun' ▸ hr) hq hs key (hdep' ▸ hk))
    · exact hkeep rfl (h.started hi hr hq hs key hk)
  · intro i ji hi hr hs
    rw [hlook] at hi
    split_ifs at hi
    · cases hi
      obtain ⟨key, htrans, hfail⟩ := hskip (hrun' ▸ hr) hs
      exact ⟨key, hkey' ▸ htrans, hkeep rfl hfail⟩
    · obtain ⟨key, htrans, hfail⟩ := h.skipped hi hr hs
      exact ⟨key, htrans, hkeep rfl hfail⟩

theorem driven_skip (hskip : SkipStep W s s') : Driven W seed r s' := by
  have hre := (written_skip hskip).toRewritten
  have hset := settled_skip h.inv.settled h.inv.listing hskip
  obtain ⟨found, queued, unconditional, failed⟩ := hskip
  rename_i id job
  refine driven_move h hre hset (skipJob_lookup W s id · queued) found (by rw [queued]; rfl)
    (by simp) (fun _ _ hne => absurd rfl hne) fun hr _ => ?_
  rw [dependencyState_eq found] at failed
  obtain ⟨before, key, after, hkeys, -, st, hst, hcases⟩ := dependencyLoop_failed (by simp) failed
  have hkey : key ∈ job.dependsOn := by rw [hkeys]; simp
  rw [hr] at hst
  have hneed : Needs seed job.jobKey key := (h.needs_iff found hr key).mpr hkey
  obtain ⟨i, j, -, hj, hjr, hjk, hjs, -⟩ := h.inv.indexing.depStatus hst
  rcases hcases with rfl | rfl | rfl
  · exact ⟨key, .single hneed, hst⟩
  · exact absurd hjs (h.not_cancelled hj hjr)
  · -- the dependency was itself skipped below a failure
    obtain ⟨key', htrans, hfail⟩ := h.skipped hj hjr hjs
    exact ⟨key', .head hneed (hjk ▸ htrans), hfail⟩

theorem driven_skips (hskips : ReflTransGen (SkipStep W) s s') : Driven W seed r s' := by
  induction hskips with
  | refl => exact h
  | tail _ hstep ih => exact driven_skip ih hstep

theorem Driven.claims (claimed : GoMap JobRunID Bool) :
    Driven W seed r { s with claimed := claimed } where
  inv := h.inv.claims claimed
  stored := h.stored
  distinct := h.distinct
  drafted := h.drafted
  not_cancelled := h.not_cancelled
  started := h.started
  skipped := h.skipped

theorem driven_ack (hcond : ∀ i ∈ seed.jobs, i.condition = "") (hc : Claimable s id job)
    (obj : ActiveObject) (now : Time) : Driven W seed r ((s.claim id).ackJob job id obj now) := by
  have hs : Driven W seed r (s.claim id) := h.claims _
  have hre := written_ackJob (s := s.claim id) hc.found (.inl hc.queued) obj now
  have hset := settled_ackJob hs.inv.settled hc.found (.inl hc.queued) obj now
  refine driven_move hs hre.toRewritten hset (fun i => setJob_lookup _ _ _ _) hc.found
    (by rw [hc.queued]; rfl) (by simp) (fun hr _ _ => ?_) (fun _ hsk => by cases hsk)
  -- a job without a condition is handed out only when it is ready
  rcases hc.gate with hready | ⟨-, hne⟩
  · rw [dependencyState_eq hc.found] at hready
    intro key hk
    rw [← hr]
    exact (dependencyLoop_ready.mp hready).2 key hk
  · obtain ⟨intent, hin, -, -, hcd, -⟩ := h.intent hc.found hr
    exact absurd (hcd.trans (hcond intent hin)) hne

theorem driven_observe (hj : s.jobs.lookup id = some job) (hd : job.status ≠ .queued) {phase}
    (hphase : phase = .running ∨ phase = .succeeded ∨ phase = .failed) (now : Time) :
    Driven W seed r (s.applyObserved id phase now).2 := by
  have hre := (written_applyObserved s id phase now).toRewritten
  have hset := settled_applyObserved h.inv.settled h.inv.listing id phase now
  have hout := applyObserved_outcome s id phase now
  generalize s.applyObserved id phase now = out at hout hre hset
  cases hout with
  | missing | stale => exact h
  | refreshed found opened implied => rcases hphase with rfl | rfl | rfl <;> cases implied
  | @moved job' target found opened implied forward =>
    obtain rfl := Option.mem_unique hj found
    have htarget : target ≠ .cancelled ∧ target ≠ .skipped := by
      rcases hphase with rfl | rfl | rfl <;> cases implied <;> simp
    refine driven_move h hre hset (observed_lookup s id) hj opened ?_ (fun hr _ _ => ?_) ?_
    · rw [observed_status]
      exact htarget.1
    · -- the job had started already
      refine h.started hj hr hd ?_
      intro hsk
      rw [hsk] at opened
      cases opened
    · intro _ hsk
      rw [observed_status] at hsk
      exact absurd hsk htarget.2

end

theorem driven_step (hcond : ∀ i ∈ seed.jobs, i.condition = "") {w w'} (h : Driven W seed r w.durable)
    (hstep : DriveStep W w w') : Driven W seed r w'.durable := by
  cases hstep with
  | dispatch faults now =>
    have hout := w.dispatchNext_outcome h.inv.minted faults now
    generalize w.dispatchNext W faults now = out at hout
    cases hout with
    | idle skips durable =>
      rw [durable]
      exact driven_skips h skips
    | released skips claimable durable =>
      rw [durable]
      exact (driven_skips h skips).claims _
    | dispatched skips claimable claimed durable =>
      rw [durable]
      exact driven_ack (driven_skips h skips) hcond claimable _ now
  | observe id phase now found dispatched observed => exact driven_observe h found dispatched observed now

/-- A run that was just created is driven: all its jobs are queued. -/
theorem driven_created (hi : Inv W s) {now run} (hcreate : (s.createRun W seed now).1 = .ok (run, true)) :
    Driven W seed run.id (s.createRun W seed now).2 := by
  have hinv := inv_createRun hi seed now
  have hout := createRun_outcome W s seed now
  generalize s.createRun W seed now = out at hout hcreate hinv
  cases hout with
  | found | refused | duplicate => cases hcreate
  | @created record recorded unbound nonempty distinct =>
    obtain rfl : newRun W s seed now = run := by
      injection hcreate with hpair
      exact (Prod.mk.inj hpair).1
    have hqueued : ∀ {id j}, (committed W s record seed now).jobs.lookup id = some j →
        j.runID = W.ids.mint s.minted → j.status = .queued := by
      intro id j hj hr
      rcases committed_job hi.minted hj with ⟨-, hmem, -⟩ | ⟨hne, -⟩
      · obtain ⟨intent, -, i, -, -, rfl⟩ := mem_newJobs hmem
        rfl
      · exact absurd hr hne
    refine ⟨hinv, (committed_stored _).mpr (.inl rfl), distinct, ⟨now, s.minted + 1, ?_⟩, ?_, ?_, ?_⟩
    · show ((committed W s record seed now).jobsOf (W.ids.mint s.minted)).map _ = _
      rw [committed_jobsOf_new hi.minted]
      refine (List.map_congr_left fun j hj => ?_).trans (List.map_id _)
      obtain ⟨intent, -, i, -, -, rfl⟩ := mem_newJobs hj
      rfl
    · intro id j hj hr hc
      rw [hqueued hj hr] at hc
      cases hc
    · intro id j hj hr hq
      exact absurd (hqueued hj hr) hq
    · intro id j hj hr hsk
      rw [hqueued hj hr] at hsk
      cases hsk

/-- A started job has only succeeded jobs above it. -/
theorem Driven.above_started (h : Driven W seed r s) {key key'} (htrans : TransGen (Needs seed) key key') :
    ∀ {id j}, s.jobs.lookup id = some j → j.runID = r → j.jobKey = key → j.status ≠ .queued →
      j.status ≠ .skipped → s.depStatus r key' = some .succeeded := by
  induction htrans using TransGen.head_induction_on with
  | single hneed =>
    intro id j hj hr hk hq hs
    subst hk
    exact h.started hj hr hq hs key' ((h.needs_iff hj hr key').mp hneed)
  | @head a c hneed _ ih =>
    intro id j hj hr hk hq hs
    subst hk
    have hdep := h.started hj hr hq hs c ((h.needs_iff hj hr c).mp hneed)
    obtain ⟨id', j', -, hj', hr', hk', hst', -⟩ := h.inv.indexing.depStatus hdep
    exact ih hj' hr' hk' (by rw [hst']; simp) (by rw [hst']; simp)

theorem Driven.depStatus_listed (h : Driven W seed r s) (hj : j ∈ s.jobsOf r) :
    s.depStatus r j.jobKey = some j.status := by
  obtain ⟨id, hlook, hr⟩ := h.inv.listing.of_mem hj
  have hst : s.Stored j.runID := hr.symm ▸ h.stored
  obtain ⟨idx, hidx⟩ := Option.isSome_iff_exists.mp (h.inv.indexing.present hst hlook)
  obtain ⟨j', hj', hr', hk', -⟩ := h.inv.indexing.latest hidx
  -- there is only one attempt
  obtain ⟨-, -, -, -, -, hone⟩ := h.intent hlook hr
  obtain ⟨-, -, -, -, -, hone'⟩ := h.intent hj' (hr'.trans hr)
  have hid' : idx = id :=
    h.inv.indexing.attempt_unique hst hlook hj' hr' hk' (hone'.trans hone.symm)
  unfold depStatus
  rw [← hr, hidx, Option.bind_some, hid', hlook, Option.map_some]

end Drive

/-- However a run without conditions is driven: a skipped job has a failed one above it, a job that has started has
only succeeded direct dependencies, and in the end the jobs below a failure are skipped and all others have succeeded
or failed. -/
theorem driven_outcome (W : Wiring) (s₀ : DurableStore) (h₀ : Reachable W s₀) (seed : RunSeed)
    (hcond : ∀ i ∈ seed.jobs, i.condition = "") (now : Time) (run : RunRecord)
    (hcreate : (s₀.createRun W seed now).1 = .ok (run, true)) (active : ActiveStore) (w : Stores)
    (hrun : ReflTransGen (DriveStep W) ⟨(s₀.createRun W seed now).2, active⟩ w) :
    ∃ run' jobs, w.durable.getRun run.id = .ok run' ∧ w.durable.listJobRuns run.id = .ok jobs ∧ ∀ j ∈ jobs,
        (j.status = .skipped → ∃ d ∈ jobs, TransGen (Needs seed) j.jobKey d.jobKey ∧ d.status = .failed) ∧
        (j.status ≠ .queued → j.status ≠ .skipped →
          ∀ key ∈ j.dependsOn, ∃ d ∈ jobs, d.jobKey = key ∧ d.status = .succeeded) ∧ (run'.status.isTerminal →
          ((∃ d ∈ jobs, TransGen (Needs seed) j.jobKey d.jobKey ∧ d.status = .failed) → j.status = .skipped) ∧
          ((¬∃ d ∈ jobs, TransGen (Needs seed) j.jobKey d.jobKey ∧ d.status = .failed) →
            j.status = .succeeded ∨ j.status = .failed)) := by
  have h : Driven W seed run.id w.durable := by
    induction hrun with
    | refl => exact driven_created (inv_reachable h₀) hcreate
    | tail _ hstep ih => exact driven_step hcond ih hstep
  obtain ⟨run', hrun'⟩ := h.stored
  have hlist : ∀ {key st}, w.durable.depStatus run.id key = some st →
      ∃ d ∈ w.durable.jobsOf run.id, d.jobKey = key ∧ d.status = st := by
    intro key st hst
    obtain ⟨id, d, -, hd, hr, hk, hs, -⟩ := h.inv.indexing.depStatus hst
    exact ⟨d, (h.inv.listing.mem_jobsOf_iff h.stored).mpr ⟨id, hd, hr⟩, hk, hs⟩
  refine ⟨run', w.durable.jobsOf run.id, getRun_eq_ok.mpr hrun', by simp only [listJobRuns, hrun'], fun j hj => ?_⟩
  obtain ⟨id, hid, hlook⟩ := mem_jobsOf.mp hj
  obtain ⟨j₀, hlook₀, hr⟩ := h.inv.listing.listed hid
  obtain rfl := Option.mem_unique hlook hlook₀
  have hbelow : j.status = .skipped →
      ∃ d ∈ w.durable.jobsOf run.id, TransGen (Needs seed) j.jobKey d.jobKey ∧ d.status = .failed := by
    intro hs
    obtain ⟨key, htrans, hfail⟩ := h.skipped hlook hr hs
    obtain ⟨d, hd, rfl, hst⟩ := hlist hfail
    exact ⟨d, hd, htrans, hst⟩
  refine ⟨hbelow, fun hq hs key hk => hlist (h.started hlook hr hq hs key hk), fun hterm => ?_⟩
  have hjterm : j.status.isTerminal := (h.inv.settled.run_terminal hrun').mp hterm j hj
  refine ⟨?_, fun hno => ?_⟩
  · rintro ⟨d, hd, htrans, hfail⟩
    by_contra hs
    have hq : j.status ≠ .queued := by
      intro hq
      rw [hq] at hjterm
      cases hjterm
    have hsucc := h.above_started htrans hlook hr rfl hq hs
    rw [h.depStatus_listed hd, hfail] at hsucc
    cases hsucc
  · have hc := h.not_cancelled hlook hr
    have hs : j.status ≠ .skipped := fun hs => hno (hbelow hs)
    revert hjterm hc hs
    cases j.status <;> simp [JobRunStatus.isTerminal]

/-- A chain `a`, `b`, `c` of jobs and a job `d` beside it. -/
def chainSeed : RunSeed :=
  pushSeed [intentOf "a" [] "", intentOf "b" ["a"] "", intentOf "c" ["b"] "", intentOf "d" [] ""]

/-- When `a` fails and `d` succeeds, the run ends with `b` and `c` skipped. -/
theorem driven_outcome_chain :
    ∃ w, ReflTransGen (DriveStep Wiring.unary) ⟨((new.recordDelivery Wiring.unary pushDelivery).2.createRun
        Wiring.unary chainSeed 0).2, ActiveStore.new⟩ w ∧
      ∃ run' jobs, w.durable.getRun "i" = .ok run' ∧ w.durable.listJobRuns "i" = .ok jobs ∧
        run'.status = .failed ∧ jobs.map (·.status) = [.failed, .skipped, .skipped, .succeeded] ∧
        ∀ j ∈ jobs, j.status = .skipped →
          ∃ d ∈ jobs, TransGen (Needs chainSeed) j.jobKey d.jobKey ∧ d.status = .failed := by
  obtain ⟨w, hrun, run', hget, hst, jobs, hlist, hjobs⟩ :
      ∃ w, ReflTransGen (DriveStep Wiring.unary) ⟨((new.recordDelivery Wiring.unary
          pushDelivery).2.createRun Wiring.unary chainSeed 0).2, ActiveStore.new⟩ w ∧
        ∃ run', w.durable.getRun "i" = .ok run' ∧ run'.status = .failed ∧ ∃ jobs, w.durable.listJobRuns "i" = .ok jobs ∧
            jobs.map (·.status) = [.failed, .skipped, .skipped, .succeeded] :=
    ⟨_, .tail (.tail (.tail (.tail .refl (.dispatch .none 1))
      (.observe "ii" .failed 2 rfl (by decide) (by decide))) (.dispatch .none 3))
      (.observe "iiiii" .succeeded 4 rfl (by decide) (by decide)), _, rfl, rfl, _, rfl, rfl⟩
  have h₀ : Reachable Wiring.unary (new.recordDelivery Wiring.unary pushDelivery).2 :=
    .tail .refl ⟨.recordDelivery pushDelivery, rfl⟩
  obtain ⟨run'', jobs', hget', hlist', hall⟩ := driven_outcome Wiring.unary _ h₀ chainSeed
    (by decide) 0 _ rfl ActiveStore.new w hrun
  obtain rfl : jobs = jobs' := Except.ok.inj (hlist.symm.trans hlist')
  exact ⟨w, hrun, run', jobs, hget, hlist, hst, hjobs, fun j hj => (hall j hj).1⟩

end Forgelet
