import Forgelet.Scheduler.Proofs.IngestorProofs
import Forgelet.Server.Proofs.DrainProofs
import Forgelet.Server.Proofs.PlansProofs

/-!
# Proofs: conditions that do not wait

A condition that is not deferred is evaluated once, when its run is created. `Eager` says that the queued jobs are
those for which it was true: calls that only move jobs keep it, a new attempt inherits it, and a new run gets it from
`buildPlans`, which skips the other jobs.
-/

namespace Forgelet.Server

open DurableStore Relation

variable {W : Wiring} {s s' : DurableStore}

/-- Every queued job is eagerly true. -/
def Eager (s : DurableStore) : Prop :=
  ∀ id job, s.jobs.lookup id = some job → job.status = .queued → EagerlyTrue s job

/-- What a run looks like to an eager condition is the same in two stores. -/
def SameView (s s' : DurableStore) (r : RunID) : Prop :=
  ∀ run', s'.runs.lookup r = some run' → ∃ run, s.runs.lookup r = some run ∧ run'.event = run.event ∧
    ∀ rec cond, checkCondition run.event rec ((s'.jobsOf r).map asQueued) cond =
      checkCondition run.event rec ((s.jobsOf r).map asQueued) cond

theorem EagerlyTrue.carry {job job'} (h : EagerlyTrue s job) (hrun : job'.runID = job.runID)
    (hdeps : job'.dependsOn = job.dependsOn) (hcond : job'.condition = job.condition) (hview : SameView s s' job.runID)
    : EagerlyTrue s' job' := by
  rcases h with hempty | hdeferred | htrue
  · exact .inl (hcond.trans hempty)
  · exact .inr (.inl (hcond ▸ hdeferred))
  · refine .inr (.inr fun run' hrun' => ?_)
    rw [hrun] at hrun' ⊢
    obtain ⟨run, hlook, hev, hsame⟩ := hview run' hrun'
    have hself : List.Forall₂ SameResult ((s'.jobsOf job.runID).map asQueued)
        ((s'.jobsOf job.runID).map asQueued) := List.forall₂_same.mpr fun _ _ => ⟨rfl, rfl⟩
    rw [checkCondition_congr run'.event hdeps hself, hcond, hev, hsame]
    exact htrue run hlook

theorem sameView_of_rewritten (h : Rewritten s s') (r : RunID) : SameView s s' r := by
  intro run' hrun'
  obtain ⟨run, hrun, heq⟩ := h.run hrun'
  refine ⟨run, hrun, (RunRecord.of_asCreated_eq heq).2.1, fun rec cond => ?_⟩
  refine checkCondition_congr run.event rfl ?_ cond
  rw [List.forall₂_map_left_iff, List.forall₂_map_right_iff]
  refine h.forall₂_jobsOf (fun {id j j'} hj hj' => ?_) r
  obtain ⟨j₀, hj₀, hcreated⟩ := h.job hj'
  obtain rfl := Option.mem_unique hj hj₀
  exact ⟨(JobRunRecord.of_asCreated_eq hcreated).2.2.1, rfl⟩

/-- What is queued was queued before. -/
def NotRequeued (_ : JobRunID) (a b : JobRunStatus) : Prop := b = .queued → a = .queued

theorem NotRequeued.refl (id : JobRunID) (a : JobRunStatus) : NotRequeued id a a := fun h => h

variable {id : JobRunID} {j : JobRunRecord}

theorem NotRequeued.trans {a b c} (h : NotRequeued id a b) (h' : NotRequeued id b c) :
    NotRequeued id a c := fun hc => h (h' hc)

theorem Eager.moves (h : Eager s) (hm : Moves NotRequeued s s') : Eager s' := by
  intro id job' hj' hq'
  obtain ⟨job, hj, heq, hback⟩ := hm.job hj'
  obtain ⟨-, hrun, -, -, hdeps, hcond⟩ := JobRunRecord.of_asCreated_eq heq
  exact (h id job hj (hback hq')).carry hrun hdeps hcond (sameView_of_rewritten hm.rewritten _)

theorem moves_observed (s : DurableStore) (id : JobRunID) (phase : ObservedPhase) (now : Time) :
    Moves NotRequeued s (s.applyObserved id phase now).2 := by
  refine moves_applyObserved NotRequeued.refl id phase now fun job target _ _ himp htarget => ?_
  subst htarget
  rcases jobStatusFromPhase_cases himp with h | h | h | h <;> cases h

theorem moves_cancelled (s : DurableStore) (r : RunID) (now : Time) : Moves NotRequeued s (s.cancelRun r now).2 :=
  moves_cancelRun NotRequeued.refl r now fun _ _ _ h => by cases h

theorem moves_swept (order : Nat → MapOrder RunID) (now : JobRunID → Time) (s : DurableStore) :
    Moves NotRequeued s (evaluateDeferredConditions order now s) := by
  refine (moves_evaluateDeferredConditions order now s).mono fun id a b h hq => ?_
  subst hq
  rcases h with heq | hterm
  · exact heq.symm
  · cases hterm

theorem Eager.orphaned (h : Eager s) (hl : Listing s) (ho : Orphaned W s s') : Eager s' := by
  intro id job hj hq
  rcases ho.added hj with hold | ⟨hnot, -⟩
  · refine (h id job hold hq).carry rfl rfl rfl fun run hrun => ?_
    rw [ho.runs] at hrun
    exact ⟨run, hrun, rfl, fun rec cond => by rw [ho.jobsOf_eq hl ⟨run, hrun⟩]⟩
  · -- the run of a new job is not stored
    refine .inr (.inr fun run hrun => absurd ⟨run, ?_⟩ hnot)
    rw [← ho.runs]
    exact hrun

theorem sameView_reattempted (hi : Inv W s) {orig} (found : s.jobs.lookup id = some orig)
    (hstored : s.Stored orig.runID) (keyIndex : GoMap String JobRunID) (now : Time) (r : RunID) :
    SameView s (s.reattempted W orig keyIndex now) r := by
  intro run' hrun'
  rw [reattempted_run] at hrun'
  rw [reattempted_jobsOf hi]
  by_cases heq : r = orig.runID
  · subst heq
    rw [if_pos rfl] at hrun' ⊢
    obtain ⟨run, hrun, rfl⟩ := Option.map_eq_some_iff.mp hrun'
    refine ⟨run, hrun, (RunRecord.of_asCreated_eq (reopened_asCreated run)).2.1, fun rec cond => ?_⟩
    have hmem : orig ∈ s.jobsOf orig.runID :=
      (hi.listing.mem_jobsOf_iff hstored).mpr ⟨id, found, rfl⟩
    have hkey : (nextAttempt (W.ids.mint s.minted) orig now).jobKey = orig.jobKey := rfl
    exact checkCondition_attempt run.event rec hmem hkey cond
  · rw [if_neg heq] at hrun' ⊢
    exact ⟨run', hrun', rfl, fun _ _ => rfl⟩

theorem Eager.rerequestJob (h : Eager s) (hi : Inv W s) (horig : ∀ job, s.jobs.lookup id = some job → EagerlyTrue s job)
    (now : Time) : Eager (s.rerequestJob W id now).2 := by
  have hout := rerequestJob_outcome W s id now
  generalize s.rerequestJob W id now = out at hout
  cases hout with
  | missing | existing => exact h
  | orphan found unstored => exact h.orphaned hi.listing (orphaned_appended hi found unstored now)
  | @attempt orig keyIndex found last stored =>
    have hstored : s.Stored orig.runID := (hi.indexing.stored_iff _).mp (by rw [stored]; rfl)
    have hview := sameView_reattempted hi found hstored keyIndex now
    intro i job hj hq
    rcases reattempted_job hj with ⟨-, rfl⟩ | hold
    · exact (horig orig found).carry rfl rfl rfl (hview _)
    · exact (h i job hold hq).carry rfl rfl rfl (hview _)

section Loop

variable {opts : Options} {d : Delivery} {trust : TrustLevel} {skipTime : JobRunID → Time}
  {jobs : List Compiler.JobInstance} {runs : List JobRunRecord} {st : State} {rec : JobRunRecord}
  {inst : Compiler.JobInstance}

theorem planJobs_invariant {P : DurableStore → Prop} (hP : ∀ s id now, P s → P (s.applyObserved id .skipped now).2)
    (l : List JobRunRecord) (hst : P st.durable) : P (planJobs opts d trust skipTime jobs runs st l).2.durable := by
  induction l generalizing st with
  | nil => exact hst
  | cons rec rest ih =>
    rw [planJobs]
    have hstep : P (planJob opts d trust skipTime jobs runs st rec).2.durable := by
      cases hfind : jobs.find? (·.key = rec.jobKey) with
      | none =>
        rw [planJob, hfind]
        exact hst
      | some inst =>
        have hout := planJob_outcome opts d trust skipTime runs st hfind
        generalize planJob opts d trust skipTime jobs runs st rec = out at hout
        cases hout with
        | failed => exact hst
        | skipped eager => exact hP _ _ _ hst
        | stored eager built => exact hst
    generalize planJob opts d trust skipTime jobs runs st rec = out at hstep
    obtain ⟨result, st'⟩ := out
    cases result with
    | error err => exact hstep
    | ok _ => exact ih hstep

theorem buildPlans_invariant {P : DurableStore → Prop} (hP : ∀ s id now, P s → P (s.applyObserved id .skipped now).2)
    (r : RunID) (hst : P st.durable) : P (buildPlans opts d r trust skipTime st).2.durable := by
  unfold buildPlans
  split
  · exact hst
  · split
    · exact hst
    · exact planJobs_invariant hP _ hst

theorem moves_planJobs (l : List JobRunRecord) :
    Moves NotRequeued st.durable (planJobs opts d trust skipTime jobs runs st l).2.durable :=
  planJobs_invariant (fun _ id now h => h.trans NotRequeued.trans (moves_observed _ id .skipped now)) l
    (Moves.refl NotRequeued.refl _)

theorem planJob_skip (hfind : jobs.find? (·.key = rec.jobKey) = some inst)
    (heager : eagerDecision d.event rec runs inst = .ok false) (hknown : (st.durable.jobs.lookup rec.id).isSome) :
    planJob opts d trust skipTime jobs runs st rec =
      (.ok (), st.withDurable (st.durable.applyObserved rec.id .skipped (skipTime rec.id)).2) := by
  rw [planJob, hfind]
  dsimp only
  rw [heager]
  rw [projectObserved]
  have hout := applyObserved_outcome st.durable rec.id .skipped (skipTime rec.id)
  generalize st.durable.applyObserved rec.id .skipped (skipTime rec.id) = out at hout
  cases hout with
  | missing absent =>
    rw [absent] at hknown
    cases hknown
  | stale | refreshed | moved => rfl

/-- The plan of a job depends on its record only by its id. -/
theorem buildPlan_id {src ev rec' p} (h : buildPlan src rec ev inst = .ok p) :
    buildPlan src rec' ev inst = .ok { p with jobRunID := rec'.id } := by
  rw [buildPlan] at h ⊢
  dsimp only at h ⊢
  split at h
  · cases h
  · cases h
    rfl

theorem planJob_plannable (hid : rec.id ≠ "") (hfind : jobs.find? (·.key = rec.jobKey) = some inst)
    (hplan : Plannable opts d.event rec runs inst) (hknown : (st.durable.jobs.lookup rec.id).isSome) :
    ∃ st', planJob opts d trust skipTime jobs runs st rec = (.ok (), st') ∧ Rewritten st.durable st'.durable := by
  rcases hplan with heager | ⟨heager, p, hbuild, hsteps⟩
  · exact ⟨_, planJob_skip hfind heager hknown, (written_applyObserved ..).toRewritten⟩
  · rw [planJob, hfind]
    dsimp only
    rw [heager]
    rw [storePlan, hbuild]
    dsimp only
    have hdigest : p.digestError = none := by
      rw [Plan.digestError, if_neg (by rw [buildPlan_jobRunID hbuild]; exact hid), if_neg (by simpa using hsteps)]
    rw [hdigest]
    exact ⟨_, rfl, Rewritten.refl _⟩

theorem skipped_not_queued {now} (h : (s.applyObserved id .skipped now).2.jobs.lookup id = some j) :
    j.status ≠ .queued := by
  intro hq
  obtain ⟨job, hjob, -, hback⟩ := (moves_observed s id .skipped now).job h
  have hmoved : s.applyObserved id .skipped now =
      (.ok (), (s.setJob id (observed job .skipped now)).refreshRun job.runID now) := by
    unfold applyObserved
    rw [hjob]
    dsimp only
    rw [hback hq]
    rfl
  rw [hmoved, refreshRun_jobs, setJob_lookup, if_pos rfl, Option.some_inj] at h
  rw [← h] at hq
  cases hq

/-- A job whose condition is false is skipped if the loop gets to it. -/
theorem planJobs_skips {before after : List JobRunRecord}
    (hbefore : ∀ x ∈ before, x.id ≠ "" ∧ ∃ inst, jobs.find? (·.key = x.jobKey) = some inst ∧
      Plannable opts d.event x runs inst)
    (hfind : jobs.find? (·.key = rec.jobKey) = some inst) (heager : eagerDecision d.event rec runs inst = .ok false)
    (hknown : ∀ x ∈ before ++ [rec], (st.durable.jobs.lookup x.id).isSome)
    (hj : (planJobs opts d trust skipTime jobs runs st (before ++ rec :: after)).2.durable.jobs.lookup rec.id = some j)
    : j.status ≠ .queued := by
  induction before generalizing st with
  | nil =>
    rw [List.nil_append, planJobs, planJob_skip hfind heager (hknown rec (by simp))] at hj
    obtain ⟨j₁, hj₁, -, hback⟩ := (moves_planJobs after).job hj
    exact fun hq => skipped_not_queued hj₁ (hback hq)
  | cons first rest ih =>
    rw [List.forall_mem_cons] at hbefore
    obtain ⟨⟨hid, inst', hfind', hplan⟩, hrest⟩ := hbefore
    obtain ⟨st', hstep, hre⟩ : ∃ st', planJob opts d trust skipTime jobs runs st first = (.ok (), st') ∧
          Rewritten st.durable st'.durable :=
      planJob_plannable hid hfind' hplan (hknown first (by simp))
    rw [List.cons_append, planJobs, hstep] at hj
    refine ih hrest (fun x hx => ?_) hj
    obtain ⟨jx, hjx⟩ := Option.isSome_iff_exists.mp (hknown x (.tail _ hx))
    obtain ⟨jx', hjx', -⟩ := hre.symm.job hjx
    rw [hjx']
    rfl

end Loop

section NewRun

variable {opts : Options} {d : Delivery} {r : RunID} {now : Time} {jobs : List Compiler.JobInstance}
  {recs : List JobRunRecord}

theorem CreatedFrom.sameResult (h : CreatedFrom r now jobs recs) : List.Forall₂ SameResult (jobs.map draftOf) recs := by
  rw [List.forall₂_map_left_iff]
  refine h.imp fun inst rec hrec => ?_
  rw [hrec]
  exact ⟨rfl, rfl⟩

theorem CreatedFrom.eagerDecision_eq (h : CreatedFrom r now jobs recs) {inst rec}
    (hrec : rec = newJob rec.id r (intentFor inst) now) (ev : Event) :
    eagerDecision ev rec recs inst = eagerDecision ev (draftOf inst) (jobs.map draftOf) inst := by
  have hdeps : rec.dependsOn = (draftOf inst).dependsOn := by
    rw [hrec]
    rfl
  unfold eagerDecision
  rw [checkCondition_congr ev hdeps h.sameResult]

theorem CreatedFrom.plannable (h : CreatedFrom r now jobs recs) {inst rec}
    (hrec : rec = newJob rec.id r (intentFor inst) now) {ev}
    (hplan : Plannable opts ev (draftOf inst) (jobs.map draftOf) inst) : Plannable opts ev rec recs inst := by
  unfold Plannable at hplan ⊢
  rw [h.eagerDecision_eq hrec]
  rcases hplan with hfalse | ⟨htrue, p, hbuild, hsteps⟩
  · exact .inl hfalse
  · exact .inr ⟨htrue, _, buildPlan_id hbuild, hsteps⟩

theorem CreatedFrom.split {before after rec} (h : CreatedFrom r now jobs (before ++ rec :: after)) :
    ∃ ibefore inst iafter, jobs = ibefore ++ inst :: iafter ∧ CreatedFrom r now ibefore before ∧
      rec = newJob rec.id r (intentFor inst) now := by
  have hleft := List.forall₂_take_append jobs before (rec :: after) h
  have hright := List.forall₂_drop_append jobs before (rec :: after) h
  obtain ⟨inst, iafter, hrec, -, hdrop⟩ := List.forall₂_cons_right_iff.mp hright
  refine ⟨jobs.take before.length, inst, iafter, ?_, hleft, hrec⟩
  rw [← hdrop, List.take_append_drop]

/-- A job that is still queued after the loop was decided to run. -/
theorem CreatedFrom.decided (h : CreatedFrom r now jobs recs) (hkeys : (jobs.map (·.key)).Nodup)
    (hskips : EagerSkips opts d.event jobs) {trust} {skipTime : JobRunID → Time} {st} (hids : ∀ x ∈ recs, x.id ≠ "")
    (hknown : ∀ x ∈ recs, (st.durable.jobs.lookup x.id).isSome) {rec} (hmem : rec ∈ recs)
    (hj : (planJobs opts d trust skipTime jobs recs st recs).2.durable.jobs.lookup rec.id = some j)
    (hq : j.status = .queued) : ∃ inst, rec = newJob rec.id r (intentFor inst) now ∧
      eagerDecision d.event rec recs inst = .ok true := by
  obtain ⟨before, after, hsplit⟩ := List.append_of_mem hmem
  have hparts : CreatedFrom r now jobs (before ++ rec :: after) := hsplit ▸ h
  obtain ⟨ibefore, inst, iafter, hjobs, hbefore, hrec⟩ := hparts.split
  refine ⟨inst, hrec, ?_⟩
  by_contra hdecision
  -- otherwise the loop gets to the job and skips it
  rw [h.eagerDecision_eq hrec] at hdecision
  obtain ⟨hfalse, hplans⟩ := hskips ibefore inst iafter hjobs hdecision
  rw [← h.eagerDecision_eq hrec] at hfalse
  have hinst : inst ∈ jobs := by rw [hjobs]; simp
  have hpassed : ∀ x ∈ before, x.id ≠ "" ∧ ∃ ix, jobs.find? (·.key = x.jobKey) = some ix ∧
      Plannable opts d.event x recs ix := by
    intro x hx
    have hxrecs : x ∈ recs := by rw [hsplit]; exact List.mem_append_left _ hx
    obtain ⟨ix, hz⟩ := hbefore.mem_zip hx
    obtain ⟨hix, hxrec⟩ := hbefore.of_mem_zip hz
    have hixjobs : ix ∈ jobs := by rw [hjobs]; exact List.mem_append_left _ hix
    exact ⟨hids x hxrecs, ix, find_created hkeys hixjobs hxrec, h.plannable hxrec (hplans ix hix)⟩
  have hknown' : ∀ x ∈ before ++ [rec], (st.durable.jobs.lookup x.id).isSome := by
    intro x hx
    refine hknown x ?_
    rw [hsplit]
    rcases List.mem_append.mp hx with hx | hx
    · exact List.mem_append_left _ hx
    · rw [List.mem_singleton.mp hx]
      exact List.mem_append_right _ (.head _)
  have hloop : planJobs opts d trust skipTime jobs recs st recs =
      planJobs opts d trust skipTime jobs recs st (before ++ rec :: after) := by rw [← hsplit]
  rw [hloop] at hj
  exact planJobs_skips hpassed (find_created hkeys hinst hrec) hfalse hknown' hj hq

theorem eagerlyTrue_committed (hm : Minted opts.wiring s) {record inst job}
    (hjob : job = newJob job.id (opts.wiring.ids.mint s.minted) (intentFor inst) now)
    (hdecision : eagerDecision d.event job (newJobs opts.wiring s (jobs.map intentFor) now) inst = .ok true) :
    EagerlyTrue (committed opts.wiring s record (seedFor d jobs) now) job := by
  have hcond : job.condition = inst.cond := by
    rw [hjob]
    rfl
  have hrun : job.runID = opts.wiring.ids.mint s.minted := by
    rw [hjob]
    rfl
  unfold eagerDecision at hdecision
  rw [← hcond] at hdecision
  by_cases hempty : job.condition = ""
  · exact .inl hempty
  · cases hdeferred : isDeferredCondition job.condition with
    | true => exact .inr (.inl hdeferred)
    | false =>
      rw [if_pos ⟨hempty, hdeferred⟩] at hdecision
      refine .inr (.inr fun run hlook => ?_)
      rw [hrun, committed_run, if_pos rfl, Option.some_inj] at hlook
      rw [← hlook, hrun, committed_jobsOf_new hm]
      refine Eq.trans (checkCondition_congr d.event rfl ?_ job.condition) hdecision
      -- the new jobs are queued
      rw [List.forall₂_map_right_iff]
      refine List.forall₂_same.mpr fun j hj => ?_
      obtain ⟨intent, -, i, -, -, rfl⟩ := mem_newJobs hj
      exact ⟨rfl, rfl⟩

theorem sameView_committed (hi : Inv W s) (record : DeliveryRecord) (seed : RunSeed) (hr : r ≠ W.ids.mint s.minted) :
    SameView s (committed W s record seed now) r := by
  intro run hrun
  rw [committed_run, if_neg hr] at hrun
  refine ⟨run, hrun, rfl, fun rec cond => ?_⟩
  rw [committed_jobsOf_old hi.minted hi.listing hr]

/-- After `buildPlans` the jobs of a new run that are still queued are eagerly true. -/
theorem eager_buildPlans (hi : Inv opts.wiring s) (h : Eager s)
    (hmatched : opts.src.matchedJobs d.event d.payload = .ok jobs) (hkeys : (jobs.map (·.key)).Nodup)
    (hskips : EagerSkips opts d.event jobs) {record st}
    (hst : st.durable = committed opts.wiring s record (seedFor d jobs) now) (trust : TrustLevel)
    (skipTime : JobRunID → Time) :
    Eager (buildPlans opts d (opts.wiring.ids.mint s.minted) trust skipTime st).2.durable := by
  rw [buildPlans_committed hi.minted hmatched hst]
  set recs := newJobs opts.wiring s (jobs.map intentFor) now
  have hcreated : CreatedFrom (opts.wiring.ids.mint s.minted) now jobs recs :=
    drafts_intentFor opts.wiring _ now _ jobs
  have hids : ∀ x ∈ recs, x.id ≠ "" := by
    intro x hx
    obtain ⟨intent, -, i, -, -, rfl⟩ := mem_newJobs hx
    exact opts.wiring.ids.mint_ne_empty i
  have hknown : ∀ x ∈ recs, (st.durable.jobs.lookup x.id).isSome := by
    intro x hx
    have hlook : (committed opts.wiring s record (seedFor d jobs) now).jobs.lookup x.id = some x :=
      newJobs_lookup hi.minted hx
    rw [hst, hlook]
    rfl
  intro id job hj hq
  obtain ⟨job₀, hj₀, heq, hback⟩ := (moves_planJobs recs).job hj
  obtain ⟨-, hrun, -, -, hdeps, hcond⟩ := JobRunRecord.of_asCreated_eq heq
  have htrue : EagerlyTrue st.durable job₀ := by
    rw [hst] at hj₀ ⊢
    rcases committed_job hi.minted hj₀ with ⟨-, hnew, hid₀⟩ | ⟨hold, hj₀⟩
    · rw [← hid₀] at hj
      obtain ⟨inst, hjob, hdecision⟩ := hcreated.decided hkeys hskips hids hknown hnew hj hq
      exact eagerlyTrue_committed hi.minted hjob hdecision
    · exact (h id job₀ hj₀ (hback hq)).carry rfl rfl rfl (sameView_committed hi record _ hold)
  exact htrue.carry hrun hdeps hcond (sameView_of_rewritten (moves_planJobs recs).rewritten _)

end NewRun

end Forgelet.Server
