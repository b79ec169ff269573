import Forgelet.Controller.JobRun

/-!
# Proofs: what the controller projects

A Reconcile keeps the observed phases of all JobRuns, or writes a phase and projects it, or writes a new phase and
returns the error of the projection. The last one is not made up for: the next Reconcile finds the status as the pod
is.
-/

namespace Forgelet.Controller

variable {w w' : Cluster} {name : String} {jr : JobRun} {calls : Calls}

/-! ## What one Reconcile does -/

/-- Every read succeeds, up to the pod of the job run. -/
structure FindsPod (calls : Calls) (w : Cluster) (name : String) (jr : JobRun) (pod : Pod) : Prop where
  noFault : calls.getJobRun = none ∧ calls.getClass = none ∧ calls.getPod = none
  jobRun : w.jobRuns.lookup name = some jr
  named : ∃ id, idFromCRName name = .ok id
  cls : ∃ cls, w.classes.lookup jr.spec.runnerClass = some cls
  pod : w.pods.lookup (name ++ podSuffix) = some pod

/-- The Reconcile writes a new phase of the JobRun and does not project it. -/
def LosesPhase (calls : Calls) (w : Cluster) (name : String) : Prop :=
  ∃ jr pod, FindsPod calls w name jr pod ∧ jr.status.phase ≠ mapPodPhase pod.phase ∧
    phaseRank jr.status.phase ≤ phaseRank (mapPodPhase pod.phase) ∧ calls.updateStatus = none ∧
    (jr.spec.planID = "" ∨ calls.applyObserved ≠ none)

/-- Every JobRun of `w'` has the plan and phase it had in `w`, and nothing was projected. -/
structure KeepsPhases (w w' : Cluster) : Prop where
  jobRuns : ∀ name jr', w'.jobRuns.lookup name = some jr' → ∃ jr, w.jobRuns.lookup name = some jr ∧
    jr.spec = jr'.spec ∧ jr.status.phase = jr'.status.phase
  projected : w'.projected = w.projected

theorem KeepsPhases.refl (w : Cluster) : KeepsPhases w w :=
  ⟨fun _ jr' h => ⟨jr', h, rfl, rfl⟩, rfl⟩

section

variable (hjr : w.jobRuns.lookup name = some jr)
include hjr

theorem KeepsPhases.insert {status} (hphase : status.phase = jr.status.phase) :
    KeepsPhases w { w with jobRuns := w.jobRuns.insert name { jr with status := status } } := by
  refine ⟨fun name' jr' h => ?_, rfl⟩
  rw [GoMap.lookup_insert_ite] at h
  split_ifs at h with heq
  · cases h
    exact ⟨jr, heq ▸ hjr, rfl, hphase.symm⟩
  · exact ⟨jr', h, rfl, rfl⟩

theorem updateConditions_keepsPhases {status reason message}
    (h : updateConditions calls w name jr status reason message = .ok w') : KeepsPhases w w' := by
  have hwrite : updateConditions.write calls w name jr status reason message = .ok w' → KeepsPhases w w' := by
    intro hw
    unfold updateConditions.write at hw
    dsimp only at hw
    split at hw
    · cases hw
    · rename_i hupdate
      cases hw
      unfold updateStatus at hupdate
      split at hupdate
      · cases hupdate
      · cases hupdate
        exact KeepsPhases.insert hjr rfl
  unfold updateConditions at h
  split at h
  · split at h
    · cases h
      exact KeepsPhases.refl w
    · exact hwrite h
  · exact hwrite h

theorem createPod_keepsPhases {cls} :
    KeepsPhases w (createPod calls w name jr cls).1 := by
  unfold createPod
  split
  · exact KeepsPhases.refl w
  · rename_i w₁ hcond
    have h₁ := updateConditions_keepsPhases hjr hcond
    split
    · exact h₁
    · split
      · exact h₁
      · exact h₁
      · exact ⟨h₁.jobRuns, h₁.projected⟩

end

/-- What a reconciliation can do to the phases. -/
inductive Outcome (calls : Calls) (w : Cluster) (name : String) : Cluster × Except Err Result → Prop
  | keeps {w' : Cluster} (r : Except Err Result) : KeepsPhases w w' → Outcome calls w name (w', r)
  | loses {w' : Cluster} (err : Err) : LosesPhase calls w name → Outcome calls w name (w', .error err)
  | projects {jr : JobRun} {pod : Pod} {status : JobRunStatus} (r : Except Err Result) :
      FindsPod calls w name jr pod → status.phase = mapPodPhase pod.phase →
      Outcome calls w name
        ({ w with
            jobRuns := w.jobRuns.insert name { jr with status := status }
            projected := w.projected ++
              [{ id := jr.spec.planID, phase := toModelPhase status.phase, now := calls.now }] }, r)

theorem observePod_outcome {pod} (h : FindsPod calls w name jr pod) :
    Outcome calls w name (observePod calls w name jr pod) := by
  unfold observePod
  by_cases hrank : phaseRank (mapPodPhase pod.phase) < phaseRank jr.status.phase
  · rw [if_pos hrank]
    exact .keeps _ (.refl w)
  rw [if_neg hrank]
  by_cases hsame : jr.status.phase = mapPodPhase pod.phase ∧
      jr.status.podName = name ++ podSuffix ∧ jr.status.podUID = pod.uid
  · rw [if_pos hsame]
    exact .keeps _ (.refl w)
  rw [if_neg hsame]
  cases hupdate : calls.updateStatus with
  | some err =>
    simp only [updateStatus, hupdate]
    exact .keeps _ (.refl w)
  | none =>
    simp only [updateStatus, hupdate]
    -- the status is written; where the phase is the old one, no phase can be lost
    have hwritten : ∀ err, (jr.spec.planID = "" ∨ calls.applyObserved ≠ none) → Outcome calls w name
          ({ w with
              jobRuns := w.jobRuns.insert name
                { jr with
                  status := observedStatus jr (mapPodPhase pod.phase) (name ++ podSuffix) pod.uid calls.now } },
            .error err) := by
      intro err hfail
      by_cases hnew : jr.status.phase = mapPodPhase pod.phase
      · exact .keeps _ (KeepsPhases.insert h.jobRun hnew.symm)
      · exact .loses err ⟨jr, pod, h, hnew, by omega, hupdate, hfail⟩
    split
    · rename_i hplan
      exact hwritten _ (.inl hplan)
    · cases hobserved : calls.applyObserved with
      | some err =>
        simp only [applyObserved, hobserved]
        exact hwritten _ (.inr (by simp [hobserved]))
      | none =>
        simp only [applyObserved, hobserved]
        exact .projects _ h rfl

theorem reconcile_outcome (calls : Calls) (w : Cluster) (name : String) :
    Outcome calls w name (reconcile calls w name) := by
  unfold reconcile
  split
  · exact .keeps _ (.refl w)
  · exact .keeps _ (.refl w)
  · rename_i jr hget hjr
    split
    · exact .keeps _ (.refl w)
    · rename_i id hid
      split
      · exact .keeps _ (.refl w)
      · split
        · exact .keeps _ (.refl w)
        · rename_i hcond
          exact .keeps _ (updateConditions_keepsPhases hjr hcond)
      · rename_i cls hgetClass hcls
        split
        · exact .keeps _ (.refl w)
        · split_ifs
          · exact .keeps _ (.refl w)
          · exact .keeps _ (createPod_keepsPhases hjr)
        · rename_i pod hgetPod hpod
          exact observePod_outcome ⟨⟨hget, hgetClass, hgetPod⟩, hjr, ⟨id, hid⟩, ⟨cls, hcls⟩, hpod⟩

/-! ## Runs -/

/-- The phase of every JobRun that has one was projected. -/
def PhasesProjected (w : Cluster) : Prop :=
  ∀ name jr, w.jobRuns.lookup name = some jr → jr.status.phase ≠ .unset →
    ∃ p ∈ w.projected, p.id = jr.spec.planID ∧ p.phase = toModelPhase jr.status.phase

theorem KeepsPhases.phasesProjected (h : KeepsPhases w w') (hw : PhasesProjected w) : PhasesProjected w' := by
  intro name jr' hjr' hset
  obtain ⟨jr, hjr, hspec, hphase⟩ := h.jobRuns name jr' hjr'
  rw [h.projected, ← hspec, ← hphase]
  exact hw name jr hjr (by rwa [hphase])

theorem phasesProjected_insert {p : Projected} (hw : PhasesProjected w) (hid : p.id = jr.spec.planID)
    (hphase : p.phase = toModelPhase jr.status.phase) :
    PhasesProjected { w with jobRuns := w.jobRuns.insert name jr, projected := w.projected ++ [p] } := by
  intro name' jr' hjr' hset
  rw [GoMap.lookup_insert_ite] at hjr'
  split_ifs at hjr'
  · cases hjr'
    exact ⟨p, List.mem_append_right _ (List.mem_singleton_self p), hid, hphase⟩
  · obtain ⟨q, hq, hrest⟩ := hw name' jr' hjr' hset
    exact ⟨q, List.mem_append_left _ hq, hrest⟩

/-- Only a Reconcile that loses a phase leaves one that was not projected. -/
theorem Outcome.phasesProjected {out} (h : Outcome calls w name out) (hw : PhasesProjected w) :
    PhasesProjected out.1 ∨ (LosesPhase calls w name ∧ ∃ err, out.2 = .error err) := by
  cases h with
  | keeps r hkeeps => exact .inl (hkeeps.phasesProjected hw)
  | loses err hloses => exact .inr ⟨hloses, err, rfl⟩
  | projects r _ _ => exact .inl (phasesProjected_insert hw rfl rfl)

theorem phasesProjected_changes (hw : PhasesProjected w) (h : Changes w w') : PhasesProjected w' := by
  cases h with
  | createJobRun name jr hunset =>
    intro name' jr' hjr' hset
    rw [GoMap.lookup_insert_ite] at hjr'
    split_ifs at hjr'
    · cases hjr'
      exact absurd hunset hset
    · exact hw name' jr' hjr' hset
  | deleteJobRun name =>
    intro name' jr' hjr' hset
    rw [GoMap.lookup_erase_ite] at hjr'
    split_ifs at hjr'
    exact hw name' jr' hjr' hset
  | classes | pods => exact hw

theorem phasesProjected_reaches {start}
    (hstart : ∀ name jr, start.jobRuns.lookup name = some jr → jr.status.phase = .unset)
    (h : Reaches (fun calls w name => ¬ LosesPhase calls w name) start w) : PhasesProjected w := by
  induction h with
  | refl => exact fun name jr hjr hset => absurd (hstart name jr hjr) hset
  | reconcile calls name _ hok ih =>
    rcases (reconcile_outcome calls _ name).phasesProjected ih with hgood | ⟨hloses, -⟩
    · exact hgood
    · exact absurd hloses hok
  | changes _ hchange ih => exact phasesProjected_changes ih hchange

theorem mapPodPhase_ne_unset (p : PodPhase) : mapPodPhase p ≠ .unset := by
  cases p <;> decide

/-- From JobRuns without a status, while no Reconcile writes a new phase that it fails to project, a Reconcile that
returns without error leaves the JobRun in the phase of its pod only if that phase was projected. -/
theorem reconcile_phase_projected {start w : Cluster}
    (hstart : ∀ name jr, start.jobRuns.lookup name = some jr → jr.status.phase = .unset)
    (hrun : Reaches (fun calls w name => ¬ LosesPhase calls w name) start w) {calls : Calls} {name : String}
    {w' : Cluster} {r : Result} {pod : Pod} {jr' : JobRun} (hstep : reconcile calls w name = (w', .ok r))
    (_hpod : w.pods.lookup (name ++ podSuffix) = some pod) (hjr' : w'.jobRuns.lookup name = some jr')
    (hphase : jr'.status.phase = mapPodPhase pod.phase) :
    ∃ p ∈ w'.projected, p.id = jr'.spec.planID ∧ p.phase = toModelPhase (mapPodPhase pod.phase) := by
  have hout := (reconcile_outcome calls w name).phasesProjected (phasesProjected_reaches hstart hrun)
  rw [hstep] at hout
  rcases hout with hgood | ⟨-, err, herr⟩
  · rw [← hphase]
    exact hgood name jr' hjr' (hphase ▸ mapPodPhase_ne_unset pod.phase)
  · cases herr

/-- A job run that has no pod yet. -/
def newJobRun : JobRun where
  generation := 1
  spec := { runID := "r", jobKey := "build", runnerClass := "linux", planID := "1", planDigest := "d",
            attempt := 1 }
  status := { phase := .unset, podName := "", podUID := "", startedAt := none, finishedAt := none,
              conditions := [] }

/-- The cluster with this JobRun, its class, and its pod running. -/
def runningPod : Cluster where
  jobRuns := (∅ : GoMap String JobRun).insert "jobrun-1" newJobRun
  classes := (∅ : GoMap String RunnerClass).insert "linux" { image := "ci", resources := "", nodeSelector := ∅ }
  pods := (∅ : GoMap String Pod).insert "jobrun-1-pod"
    { buildPod "jobrun-1" "u1" newJobRun { image := "ci", resources := "", nodeSelector := ∅ } with
      phase := .running }
  projected := []

/-- Calls of which only that of the projection may fail. -/
def callsWith (applyObserved : Option Err) : Calls where
  now := 7
  podUID := "u2"
  getJobRun := none
  getClass := none
  getPod := none
  setOwner := none
  createPod := none
  updateStatus := none
  applyObserved := applyObserved

/-- The projection fails once, and `running` is never projected. -/
theorem reconcile_loses_running : ∃ w w' r pod jr', Reaches (fun _ _ _ => True) runningPod w ∧
      reconcile (callsWith none) w "jobrun-1" = (w', .ok r) ∧
      w.pods.lookup "jobrun-1-pod" = some pod ∧ w'.jobRuns.lookup "jobrun-1" = some jr' ∧
      jr'.status.phase = mapPodPhase pod.phase ∧ jr'.status.phase = .running ∧ w'.projected = [] :=
  ⟨_, _, _, _, _, .reconcile (callsWith (some (.errorf "503"))) "jobrun-1" .refl trivial, rfl, rfl, rfl,
    rfl, rfl, rfl⟩

/-- The phase that the second Reconcile finds was projected by the first. -/
theorem reconcile_phase_projected_running :
    ∃ w' r jr', reconcile (callsWith none) (reconcile (callsWith none) runningPod "jobrun-1").1 "jobrun-1" =
        (w', .ok r) ∧ w'.jobRuns.lookup "jobrun-1" = some jr' ∧
      ∃ p ∈ w'.projected, p.id = jr'.spec.planID ∧ p.phase = .running := by
  have hstart : ∀ name jr, runningPod.jobRuns.lookup name = some jr → jr.status.phase = .unset := by
    intro name jr hjr
    simp only [runningPod, GoMap.lookup_insert_ite, AList.lookup_empty] at hjr
    split_ifs at hjr
    cases hjr
    rfl
  have hkept : ¬ LosesPhase (callsWith none) runningPod "jobrun-1" := by
    rintro ⟨jr, pod, hfinds, -, -, -, hplan | hfault⟩
    · cases hfinds.jobRun
      exact absurd hplan (by decide)
    · exact hfault rfl
  have hstep : reconcile (callsWith none) (reconcile (callsWith none) runningPod "jobrun-1").1 "jobrun-1" =
      ((reconcile (callsWith none) runningPod "jobrun-1").1, .ok ⟨0⟩) := rfl
  exact ⟨_, _, _, hstep, rfl, reconcile_phase_projected hstart
    (.reconcile (callsWith none) "jobrun-1" .refl hkept) hstep rfl rfl rfl⟩

/-! ## The phases of one JobRun -/

/-- What becomes of the cluster while the JobRun `name` is reconciled without error, under the condition `ok`. -/
inductive Watches (ok : Calls → Cluster → Prop) (name : String) (w : Cluster) : Cluster → Prop
  | refl : Watches ok name w w
  | reconcile {w₁ w₂ r} (h : Watches ok name w w₁) (calls : Calls) (hok : ok calls w₁)
      (hstep : reconcile calls w₁ name = (w₂, .ok r)) : Watches ok name w w₂
  | pods {w₁} (h : Watches ok name w w₁) (pods : GoMap String Pod) : Watches ok name w { w₁ with pods := pods }
  | classes {w₁} (h : Watches ok name w w₁) (classes : GoMap String RunnerClass) :
      Watches ok name w { w₁ with classes := classes }

/-- The Reconcile finds an ended JobRun, and its pod ended the other way. -/
def FindsOther (name : String) (calls : Calls) (w : Cluster) : Prop :=
  ∃ jr pod, FindsPod calls w name jr pod ∧ jr.terminal ∧ phaseRank (mapPodPhase pod.phase) = 2 ∧
    mapPodPhase pod.phase ≠ jr.status.phase

theorem terminal_iff : jr.terminal ↔ phaseRank jr.status.phase = 2 := by
  unfold JobRun.terminal
  cases jr.status.phase <;> simp [phaseRank]

/-- A Reconcile leaves the phase, or writes that of the pod if its rank is not lower. -/
theorem reconcile_phase {r jr'} (h : reconcile calls w name = (w', .ok r)) (hjr' : w'.jobRuns.lookup name = some jr') :
    ∃ jr, w.jobRuns.lookup name = some jr ∧
      (jr'.status.phase = jr.status.phase ∨ ∃ pod, FindsPod calls w name jr pod ∧
        phaseRank jr.status.phase ≤ phaseRank (mapPodPhase pod.phase) ∧ jr'.status.phase = mapPodPhase pod.phase) := by
  have hout := reconcile_outcome calls w name
  rw [h] at hout
  cases hout with
  | keeps _ hkeeps =>
    obtain ⟨jr, hjr, -, hphase⟩ := hkeeps.jobRuns name jr' hjr'
    exact ⟨jr, hjr, .inl hphase.symm⟩
  | @projects jr pod status _ hfinds hstatus =>
    refine ⟨jr, hfinds.jobRun, ?_⟩
    by_cases hrank : phaseRank (mapPodPhase pod.phase) < phaseRank jr.status.phase
    · -- such a pod is left out of account
      obtain ⟨⟨hget, hgetClass, hgetPod⟩, hjr, ⟨id, hid⟩, ⟨cls, hcls⟩, hpod⟩ := hfinds
      simp [reconcile, observePod, *] at h
      simpa using congrArg Cluster.projected h.1
    · rw [GoMap.lookup_insert_ite, if_pos rfl] at hjr'
      cases hjr'
      exact .inr ⟨pod, hfinds, not_lt.mp hrank, hstatus⟩

/-- The phase of a JobRun never moves to one of lower rank, and an ended JobRun stays as it ended while no Reconcile
finds its pod ended the other way. -/
theorem phase_moves_forward {ok : Calls → Cluster → Prop} {jr' : JobRun} (h : Watches ok name w w')
    (hjr : w.jobRuns.lookup name = some jr) (hjr' : w'.jobRuns.lookup name = some jr') :
    phaseRank jr.status.phase ≤ phaseRank jr'.status.phase ∧
      ((∀ calls w, ok calls w → ¬ FindsOther name calls w) → jr.terminal →
        jr'.status.phase = jr.status.phase) := by
  induction h generalizing jr' with
  | refl =>
    obtain rfl := Option.mem_unique hjr hjr'
    exact ⟨le_rfl, fun _ _ => rfl⟩
  | pods _ pods ih => exact ih hjr'
  | classes _ classes ih => exact ih hjr'
  | reconcile _ calls hok hstep ih =>
    obtain ⟨jr₁, hjr₁, hsame | ⟨pod, hfinds, hrank, hphase⟩⟩ := reconcile_phase hstep hjr'
    · rw [hsame]
      exact ih hjr₁
    · obtain ⟨hle, hstay⟩ := ih hjr₁
      refine ⟨hphase ▸ le_trans hle hrank, fun hother hterm => ?_⟩
      have hold := hstay hother hterm
      have hterm₁ : phaseRank jr₁.status.phase = 2 := by rw [hold]; exact terminal_iff.mp hterm
      by_contra hne
      refine hother calls _ hok ⟨jr₁, pod, hfinds, terminal_iff.mpr hterm₁, ?_, ?_⟩
      · have : phaseRank (mapPodPhase pod.phase) ≤ 2 := by cases pod.phase <;> decide
        omega
      · rw [← hphase, hold]
        exact hne

/-- The pod of the job run, in a given phase. -/
def podIn (phase : PodPhase) : GoMap String Pod :=
  (∅ : GoMap String Pod).insert "jobrun-1-pod"
    { buildPod "jobrun-1" "u1" newJobRun { image := "ci", resources := "", nodeSelector := ∅ } with phase := phase }

/-- The cluster in which the JobRun was reconciled when its pod was in this phase. -/
def reconciledAt (phase : PodPhase) : Cluster :=
  (reconcile (callsWith none) { runningPod with pods := podIn phase } "jobrun-1").1

/-- The phase stays when the pod of a job that succeeded is deleted. -/
theorem phase_moves_forward_deleted : ∃ w' jr', Watches (fun calls w => ¬ FindsOther "jobrun-1" calls w) "jobrun-1"
    (reconciledAt .succeeded) w' ∧ w'.pods = ∅ ∧ w'.jobRuns.lookup "jobrun-1" = some jr' ∧
      jr'.status.phase = .succeeded := by
  have hrun : Watches (fun calls w => ¬ FindsOther "jobrun-1" calls w) "jobrun-1" (reconciledAt .succeeded) _ :=
    .reconcile (.pods .refl ∅) (callsWith none) (fun ⟨_, _, hfinds, _⟩ => by cases hfinds.pod) rfl
  exact ⟨_, _, hrun, rfl, rfl, (phase_moves_forward hrun rfl rfl).2 (fun _ _ h => h) rfl⟩

/-- A JobRun that succeeded is failed when its pod is found failed. -/
theorem ended_phase_changes : ∃ w' jr jr', Watches (fun _ _ => True) "jobrun-1" (reconciledAt .succeeded) w' ∧
    (reconciledAt .succeeded).jobRuns.lookup "jobrun-1" = some jr ∧ jr.status.phase = .succeeded ∧
    w'.jobRuns.lookup "jobrun-1" = some jr' ∧ jr'.status.phase = .failed :=
  ⟨_, _, _, .reconcile (.pods .refl (podIn .failed)) (callsWith none) trivial rfl, rfl, rfl, rfl, rfl⟩

end Forgelet.Controller
