import Forgelet.Store.Invariant
import Forgelet.Store.Proofs.ClaimProofs

/-!
# Proofs: rewriting the progress of jobs and runs

Six of the nine operations only rewrite the progress of jobs and runs that exist. They keep every
invariant that is about what jobs and runs were created with; this is proved once, for `Rewritten`.
-/

namespace Forgelet

variable {j' : JobRunRecord} {run' : RunRecord} {r : RunID}

theorem JobRunRecord.of_asCreated_eq {j : JobRunRecord} (h : j'.asCreated = j.asCreated) :
    j'.id = j.id ∧ j'.runID = j.runID ∧ j'.jobKey = j.jobKey ∧ j'.attempt = j.attempt ∧
      j'.dependsOn = j.dependsOn ∧ j'.condition = j.condition := by
  simp only [asCreated, JobRunRecord.mk.injEq] at h
  obtain ⟨hid, hrun, hkey, -, hdep, -, -, hcond, -, hatt, -⟩ := h
  exact ⟨hid, hrun, hkey, hatt, hdep, hcond⟩

theorem RunRecord.of_asCreated_eq {run : RunRecord} (h : run'.asCreated = run.asCreated) :
    run'.id = run.id ∧ run'.event = run.event ∧ run'.delivery = run.delivery := by
  simp only [asCreated, RunRecord.mk.injEq] at h
  obtain ⟨hid, hev, hdel, -⟩ := h
  exact ⟨hid, hev, hdel⟩

namespace DurableStore

open Relation

variable {W : Wiring} {s s' s'' : DurableStore}

/-! ## The frame -/

namespace Rewritten

theorem refl (s : DurableStore) : Rewritten s s := ⟨rfl, rfl, rfl, rfl, fun _ => rfl, fun _ => rfl⟩

section

variable (h : Rewritten s s')
include h

theorem trans (h' : Rewritten s' s'') : Rewritten s s'' where
  deliveries := h'.deliveries.trans h.deliveries
  runJobs := h'.runJobs.trans h.runJobs
  byJobKey := h'.byJobKey.trans h.byJobKey
  minted := h'.minted.trans h.minted
  jobs id := (h'.jobs id).trans (h.jobs id)
  runs r := (h'.runs r).trans (h.runs r)

theorem symm : Rewritten s' s where
  deliveries := h.deliveries.symm
  runJobs := h.runJobs.symm
  byJobKey := h.byJobKey.symm
  minted := h.minted.symm
  jobs id := (h.jobs id).symm
  runs r := (h.runs r).symm

theorem job {id} (hj : s'.jobs.lookup id = some j') :
    ∃ j, s.jobs.lookup id = some j ∧ j'.asCreated = j.asCreated := by
  have hid := h.jobs id
  rw [hj, Option.map_some] at hid
  obtain ⟨j, hlook, heq⟩ := Option.map_eq_some_iff.mp hid.symm
  exact ⟨j, hlook, heq.symm⟩

theorem run (hr : s'.runs.lookup r = some run') :
    ∃ run, s.runs.lookup r = some run ∧ run'.asCreated = run.asCreated := by
  have hid := h.runs r
  rw [hr, Option.map_some] at hid
  obtain ⟨run, hlook, heq⟩ := Option.map_eq_some_iff.mp hid.symm
  exact ⟨run, hlook, heq.symm⟩

theorem absent {id} (hnone : s.jobs.lookup id = none) : s'.jobs.lookup id = none := by
  have hid := h.jobs id
  rw [hnone, Option.map_none] at hid
  exact Option.map_eq_none_iff.mp hid

theorem stored (hr : s'.Stored r) : s.Stored r := by
  obtain ⟨run', hrun'⟩ := hr
  obtain ⟨run, hrun, -⟩ := h.run hrun'
  exact ⟨run, hrun⟩

theorem jobIDs_eq (r : RunID) : s'.jobIDs r = s.jobIDs r := by
  unfold jobIDs
  rw [h.runJobs]

theorem indexed_eq (r : RunID) (key : String) : s'.indexed r key = s.indexed r key := by
  unfold indexed
  rw [h.byJobKey]

end

end Rewritten

/-! ## The invariants under a rewrite -/

/-- The records are of one attempt of a job. -/
structure SameAttempt (j' j : JobRunRecord) : Prop where
  id : j'.id = j.id
  runID : j'.runID = j.runID
  jobKey : j'.jobKey = j.jobKey
  attempt : j'.attempt = j.attempt

/-- What the invariants speak of, but for `Settled`, is as it was. -/
structure Framed (s s' : DurableStore) : Prop where
  rest : Rewritten s { s' with jobs := s.jobs }
  job : ∀ {id j'}, s'.jobs.lookup id = some j' → ∃ j, s.jobs.lookup id = some j ∧ SameAttempt j' j
  kept : ∀ {id j}, s.jobs.lookup id = some j → ∃ j', s'.jobs.lookup id = some j' ∧ SameAttempt j' j

theorem Rewritten.framed (h : Rewritten s s') : Framed s s' where
  rest := ⟨h.deliveries, h.runJobs, h.byJobKey, h.minted, fun _ => rfl, h.runs⟩
  job hj := by
    obtain ⟨j, hlook, heq⟩ := h.job hj
    obtain ⟨hid, hrun, hkey, hatt, -⟩ := JobRunRecord.of_asCreated_eq heq
    exact ⟨j, hlook, hid, hrun, hkey, hatt⟩
  kept hj := by
    obtain ⟨j', hlook, heq⟩ := h.symm.job hj
    obtain ⟨hid, hrun, hkey, hatt, -⟩ := JobRunRecord.of_asCreated_eq heq.symm
    exact ⟨j', hlook, hid, hrun, hkey, hatt⟩

section Framed

variable (h : Framed s s')

include h

theorem Framed.jobIDs_eq (r : RunID) : s'.jobIDs r = s.jobIDs r := h.rest.jobIDs_eq r

theorem Framed.indexed_eq (r : RunID) (key : String) : s'.indexed r key = s.indexed r key := h.rest.indexed_eq r key

theorem Framed.minted : s'.minted = s.minted := h.rest.minted

theorem Minted.rewrite (hm : Minted W s) : Minted W s' where
  job_id hj := by
    obtain ⟨j, hlook, hsame⟩ := h.job hj
    exact hsame.id.trans (hm.job_id hlook)
  job_minted hj := by
    obtain ⟨j, hlook, -⟩ := h.job hj
    rw [h.minted]
    exact hm.job_minted hlook
  job_run_minted hj := by
    obtain ⟨j, hlook, hsame⟩ := h.job hj
    rw [hsame.runID, h.minted]
    exact hm.job_run_minted hlook
  run_id hr := by
    obtain ⟨run, hlook, heq⟩ := h.rest.run hr
    rw [(RunRecord.of_asCreated_eq heq).1]
    exact hm.run_id hlook
  run_minted hr := by
    rw [h.minted]
    exact hm.run_minted (h.rest.stored hr)

theorem Listing.rewrite (hl : Listing s) : Listing s' where
  listed hid := by
    rw [h.jobIDs_eq] at hid
    obtain ⟨j, hlook, hrun⟩ := hl.listed hid
    obtain ⟨j', hlook', hsame⟩ := h.kept hlook
    exact ⟨j', hlook', hsame.runID.trans hrun⟩
  nodup r := by
    rw [h.jobIDs_eq]
    exact hl.nodup r
  complete hr hj hrun := by
    obtain ⟨j, hlook, hsame⟩ := h.job hj
    rw [h.jobIDs_eq]
    exact hl.complete (h.rest.stored hr) hlook (hsame.runID ▸ hrun)
  nonempty hr := by
    rw [h.jobIDs_eq]
    exact hl.nonempty (h.rest.stored hr)

theorem Indexing.rewrite (hi : Indexing s) : Indexing s' where
  stored_iff r := by
    rw [show s'.byJobKey = s.byJobKey from h.rest.byJobKey, hi.stored_iff]
    exact ⟨h.rest.symm.stored, h.rest.stored⟩
  latest hidx := by
    rw [h.indexed_eq] at hidx
    obtain ⟨j, hlook, hrun, hkey, hmax⟩ := hi.latest hidx
    obtain ⟨j', hlook', hsame⟩ := h.kept hlook
    refine ⟨j', hlook', hsame.runID.trans hrun, hsame.jobKey.trans hkey, fun i ji' hi' hri hki => ?_⟩
    obtain ⟨ji, hli, hsame'⟩ := h.job hi'
    rw [hsame'.attempt, hsame.attempt]
    exact hmax i ji hli (hsame'.runID ▸ hri) (hsame'.jobKey ▸ hki)
  present hr hj := by
    obtain ⟨j, hlook, hsame⟩ := h.job hj
    rw [h.indexed_eq, hsame.runID, hsame.jobKey]
    exact hi.present (hsame.runID ▸ h.rest.stored hr) hlook
  attempt_unique hr hj hj' hrun hkey hatt := by
    obtain ⟨j, hlook, hsame⟩ := h.job hj
    obtain ⟨j', hlook', hsame'⟩ := h.job hj'
    rw [hsame'.runID, hsame.runID] at hrun
    rw [hsame'.jobKey, hsame.jobKey] at hkey
    rw [hsame'.attempt, hsame.attempt] at hatt
    exact hi.attempt_unique (hsame.runID ▸ h.rest.stored hr) hlook hlook' hrun hkey hatt
  attempt_closed b hr hj h1 hb := by
    obtain ⟨j, hlook, hsame⟩ := h.job hj
    rw [hsame.attempt] at hb
    obtain ⟨i, ji, hli, hri, hki, hai⟩ := hi.attempt_closed b (hsame.runID ▸ h.rest.stored hr) hlook h1 hb
    obtain ⟨ji', hli', hsame'⟩ := h.kept hli
    refine ⟨i, ji', hli', ?_, ?_, hsame'.attempt.trans hai⟩
    · rw [hsame'.runID, hri, hsame.runID]
    · rw [hsame'.jobKey, hki, hsame.jobKey]

theorem Binding.rewrite (hb : Binding s) : Binding s' where
  bound hk hr := by
    rw [show s'.deliveries = s.deliveries from h.rest.deliveries] at hk
    obtain ⟨run, hrun, hdel⟩ := hb.bound hk hr
    obtain ⟨run', hrun', heq⟩ := h.rest.symm.run hrun
    exact ⟨run', hrun', (RunRecord.of_asCreated_eq heq).2.2 ▸ hdel⟩
  run_bound hr := by
    obtain ⟨run, hrun, heq⟩ := h.rest.run hr
    rw [(RunRecord.of_asCreated_eq heq).2.2, show s'.deliveries = s.deliveries from h.rest.deliveries]
    exact hb.run_bound hrun

end Framed

/-! ## What is written over a record -/

/-- What a call can write over the record of the job `id`. -/
inductive JobWrite : StoreOp → JobRunID → JobRunRecord → JobRunRecord → Prop
  | skip {id job} (queued : job.status = .queued) (now : Time) :
      JobWrite .claimNextQueuedJob id job { job with status := .skipped, finishedAt := some now }
  | ack {id job} (waiting : job.status = .queued ∨ job.status = .dispatched)
      (obj : ActiveObject) (now : Time) :
      JobWrite (.ackDispatched id obj now) id job { job with
        status := .dispatched
        activeName := obj.name
        activeUID := obj.uid
        dispatchedAt := some now }
  | observe {id job phase target} (opened : job.status.isTerminal = false)
      (implied : jobStatusFromPhase phase = some target) (forward : canAdvanceJob job.status target) (now : Time) :
      JobWrite (.applyObserved id phase now) id job (observed job target now)
  | cancel {id r job} (opened : job.status.isTerminal = false)
      (now : Time) :
      JobWrite (.cancelRun r now) id job { job with status := .cancelled, finishedAt := some now }
  | collect {id job} (now : Time) :
      JobWrite (.markCollected id now) id job { job with activeCollectedAt := some now }

theorem observed_asCreated (job : JobRunRecord) (target : JobRunStatus) (now : Time) :
    (observed job target now).asCreated = job.asCreated := by
  unfold observed
  split <;> rfl

theorem JobWrite.asCreated {op id job} (h : JobWrite op id job j') : j'.asCreated = job.asCreated := by
  cases h with
  | observe => exact observed_asCreated _ _ _
  | _ => rfl

theorem writes_asCreated {op id job} (h : ReflTransGen (JobWrite op id) job j') : j'.asCreated = job.asCreated := by
  induction h with
  | refl => rfl
  | tail _ hwrite ih => exact hwrite.asCreated.trans ih

/-- Every job of `s` is in `s'`, written over by what the call writes. -/
def Carried (op : StoreOp) (s s' : DurableStore) : Prop :=
  ∀ id job, s.jobs.lookup id = some job →
    ∃ job', s'.jobs.lookup id = some job' ∧ ReflTransGen (JobWrite op id) job job'

variable {op : StoreOp}

theorem Carried.trans (h : Carried op s s') (h' : Carried op s' s'') : Carried op s s'' := by
  intro id job hjob
  obtain ⟨job', hjob', hwrites⟩ := h id job hjob
  obtain ⟨job'', hjob'', hwrites'⟩ := h' id job' hjob'
  exact ⟨job'', hjob'', hwrites.trans hwrites'⟩

theorem carried_of_kept (h : ∀ {id job}, s.jobs.lookup id = some job → s'.jobs.lookup id = some job) :
    Carried op s s' :=
  fun _ job hjob => ⟨job, h hjob, .refl⟩

theorem Carried.refl (s : DurableStore) : Carried op s s := carried_of_kept id

/-! ## What rewrites -/

/-- The call rewrites progress, and jobs only by its writes. -/
structure Written (op : StoreOp) (s s' : DurableStore) : Prop extends Rewritten s s' where
  carried : Carried op s s'

theorem Written.refl (s : DurableStore) : Written op s s := ⟨.refl s, .refl s⟩

theorem Written.trans (h : Written op s s') (h' : Written op s' s'') : Written op s s'' :=
  ⟨h.toRewritten.trans h'.toRewritten, h.carried.trans h'.carried⟩

theorem Rewritten.written (h : Rewritten s s') (hjobs : s'.jobs = s.jobs) : Written op s s' := by
  refine ⟨h, carried_of_kept fun hjob => ?_⟩
  rw [hjobs]
  exact hjob

theorem written_setJob {id j} (hj : s.jobs.lookup id = some j) (hwrite : JobWrite op id j j') :
    Written op s (s.setJob id j') := by
  refine ⟨⟨rfl, rfl, rfl, rfl, fun i => ?_, fun _ => rfl⟩, fun i ji hi => ?_⟩ <;> rw [setJob_lookup] <;>
    split_ifs with heq
  · rw [heq, hj, Option.map_some, Option.map_some, hwrite.asCreated]
  · rfl
  · subst heq
    obtain rfl := Option.mem_unique hj hi
    exact ⟨j', rfl, .single hwrite⟩
  · exact ⟨ji, hi, .refl⟩

theorem rewritten_setRun {run} (hr : s.runs.lookup r = some run) (heq : run'.asCreated = run.asCreated) :
    Rewritten s (s.setRun r run') where
  deliveries := rfl
  runJobs := rfl
  byJobKey := rfl
  minted := rfl
  jobs _ := rfl
  runs i := by
    rw [setRun_lookup]
    split_ifs with hi
    · rw [hi, hr, Option.map_some, Option.map_some, heq]
    · rfl

theorem refreshed_asCreated (run : RunRecord) (l : List JobRunStatus) (now : Time) :
    (refreshed run l now).asCreated = run.asCreated := by
  unfold refreshed
  split
  · rfl
  · split <;> rfl

theorem written_refreshRun (s : DurableStore) (r : RunID) (now : Time) : Written op s (s.refreshRun r now) := by
  have hruns : ∀ i, ((s.refreshRun r now).runs.lookup i).map (·.asCreated) = (s.runs.lookup i).map (·.asCreated) := by
    intro i
    rw [refreshRun_lookup]
    split_ifs with hi
    · rw [hi, Option.map_map]
      exact congrArg (fun f => (s.runs.lookup r).map f) (funext fun run => refreshed_asCreated run _ now)
    · rfl
  obtain heq | ⟨run, heq⟩ := refreshRun_eq s r now <;> rw [heq] at hruns ⊢
  · exact .refl s
  · exact Rewritten.written ⟨rfl, rfl, rfl, rfl, fun _ => rfl, hruns⟩ rfl

theorem written_skip (h : SkipStep W s s') : Written .claimNextQueuedJob s s' := by
  obtain ⟨found, queued, -, -⟩ := h
  rw [skipJob_eq W s _ queued]
  have hticks : Written .claimNextQueuedJob s { s with ticks := s.ticks + 1 } :=
    Rewritten.written ⟨rfl, rfl, rfl, rfl, fun _ => rfl, fun _ => rfl⟩ rfl
  refine hticks.trans (.trans ?_ (written_refreshRun _ _ _))
  exact written_setJob (s := { s with ticks := s.ticks + 1 }) found (.skip queued _)

theorem written_skips (h : ReflTransGen (SkipStep W) s s') : Written .claimNextQueuedJob s s' := by
  induction h with
  | refl => exact .refl s
  | tail _ hstep ih => exact ih.trans (written_skip hstep)

theorem written_claimNextQueuedJob (W : Wiring) (s : DurableStore) :
    Written .claimNextQueuedJob s (s.claimNextQueuedJob W).2 := by
  obtain ⟨s₁, hskips, herr | ⟨id, job, -, hok⟩⟩ := claimNextQueuedJob_spec W s
  · rw [herr]
    exact written_skips hskips
  · rw [hok]
    exact (written_skips hskips).trans (Rewritten.written ⟨rfl, rfl, rfl, rfl, fun _ => rfl, fun _ => rfl⟩ rfl)

theorem written_unclaim (s : DurableStore) (id : JobRunID) : Written op s (s.unclaim id) :=
  Rewritten.written ⟨rfl, rfl, rfl, rfl, fun _ => rfl, fun _ => rfl⟩ rfl

theorem written_ackJob {id job} (found : s.jobs.lookup id = some job)
    (waiting : job.status = .queued ∨ job.status = .dispatched) (obj : ActiveObject) (now : Time) :
    Written (.ackDispatched id obj now) s (s.ackJob job id obj now) :=
  (written_setJob found (.ack waiting obj now)).trans (written_unclaim _ id)

theorem written_ackDispatched (s : DurableStore) (id : JobRunID) (obj : ActiveObject) (now : Time) :
    Written (.ackDispatched id obj now) s (s.ackDispatched id obj now).2 := by
  have hout := ackDispatched_outcome s id obj now
  generalize s.ackDispatched id obj now = out at hout
  cases hout with
  | refused => exact .refl s
  | acked found waiting => exact written_ackJob found waiting obj now

theorem written_applyObserved (s : DurableStore) (id : JobRunID) (phase : ObservedPhase) (now : Time) :
    Written (.applyObserved id phase now) s (s.applyObserved id phase now).2 := by
  have hout := applyObserved_outcome s id phase now
  generalize s.applyObserved id phase now = out at hout
  cases hout with
  | missing | stale => exact .refl s
  | refreshed => exact written_refreshRun s _ now
  | moved found opened implied forward =>
    exact (written_setJob found (.observe opened implied forward now)).trans (written_refreshRun _ _ now)

theorem written_cancelJobs (now : Time) (s : DurableStore) (ids : List JobRunID) :
    Written (.cancelRun r now) s (cancelJobs now s ids) := by
  induction ids generalizing s with
  | nil => exact .refl s
  | cons id rest ih =>
    rw [cancelJobs]
    cases hjob : s.jobs.lookup id with
    | none => exact (written_unclaim s id).trans (ih _)
    | some job =>
      dsimp only
      rw [transitionJob_stop (Or.inl rfl)]
      cases hst : job.status.isTerminal with
      | true => exact (written_unclaim s id).trans (ih _)
      | false => exact (written_setJob hjob (.cancel hst now)).trans ((written_unclaim _ id).trans (ih _))

theorem written_cancelRun (s : DurableStore) (r : RunID) (now : Time) :
    Written (.cancelRun r now) s (s.cancelRun r now).2 := by
  obtain heq | ⟨run, hrun, heq⟩ := cancelRun_eq s r now <;> rw [heq]
  · exact .refl s
  · have hjobs := written_cancelJobs (r := r) now s (s.jobIDs r)
    obtain ⟨run', hrun', hsame⟩ := hjobs.symm.run hrun
    exact hjobs.trans (Rewritten.written (rewritten_setRun hrun' hsame) rfl)

theorem written_markCollected (s : DurableStore) (id : JobRunID) (now : Time) :
    Written (.markCollected id now) s (s.markCollected id now).2 := by
  obtain heq | ⟨job, hjob, heq⟩ := markCollected_eq s id now <;> rw [heq]
  · exact .refl s
  · exact written_setJob hjob (.collect now)

/-- A call that is none of three others only rewrites progress. -/
theorem apply_cases (W : Wiring) (s : DurableStore) {motive : StoreOp → Prop}
    (recordDelivery : ∀ d, motive (.recordDelivery d)) (createRun : ∀ seed now, motive (.createRun seed now))
    (rerequestJob : ∀ id now, motive (.rerequestJob id now)) (rewrites : ∀ op, Written op s (op.apply W s) → motive op)
    (op : StoreOp) : motive op := by
  cases op with
  | recordDelivery d => exact recordDelivery d
  | createRun seed now => exact createRun seed now
  | claimNextQueuedJob => exact rewrites _ (written_claimNextQueuedJob W s)
  | releaseClaim id => exact rewrites _ (written_unclaim s id)
  | ackDispatched id obj now => exact rewrites _ (written_ackDispatched s id obj now)
  | applyObserved id phase now => exact rewrites _ (written_applyObserved s id phase now)
  | cancelRun r now => exact rewrites _ (written_cancelRun s r now)
  | rerequestJob id now => exact rerequestJob id now
  | markCollected id now => exact rewrites _ (written_markCollected s id now)

end DurableStore

end Forgelet
