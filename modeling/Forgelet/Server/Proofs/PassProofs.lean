import Mathlib.Data.List.Dedup
import Forgelet.Server.Sweep
import Forgelet.Store.Proofs.MovesProofs

/-!
# Proofs: the passes of the sweep

What one pass of `evaluateDeferredConditions` does on a store whose calls may fail: it leaves the store as it is if
every call of `ApplyObserved` that it comes to fails, and takes a job off the queue otherwise. So the loop ends on a
store that does not fail, and then every queued job with a deferred condition whose dependencies are terminal has a
condition that is true.
-/

namespace Forgelet.Server

open DurableStore Progress

variable {j rec : JobRunRecord} {P : DurableStore → Prop}

/-! ## The queue -/

theorem countQueuedJobs_eq (s : DurableStore) :
    s.countQueuedJobs = s.jobs.entries.countP fun e => e.2.status = .queued := by
  unfold countQueuedJobs queuedJobs
  rw [← List.countP_eq_length_filter, List.countP_map]
  rfl

variable {id : JobRunID} {acc : DurableStore × Bool}

/-- Writing over a queued record takes a job off the queue. -/
theorem countQueuedJobs_setJob {s : DurableStore} (hj : s.jobs.lookup id = some j) (j' : JobRunRecord)
    (hnot : j'.status ≠ .queued) :
    (s.setJob id j').countQueuedJobs + (if j.status = .queued then 1 else 0) = s.countQueuedJobs := by
  have hcount := GoMap.countP_insert s.jobs j' (fun j => decide (j.status = .queued)) hj
  rw [countQueuedJobs_eq, countQueuedJobs_eq]
  simp only [hnot, decide_false, Bool.false_eq_true, if_false, Nat.add_zero, decide_eq_true_eq] at hcount
  exact hcount

theorem countQueuedJobs_congr {s s' : DurableStore} (h : s'.jobs = s.jobs) :
    s'.countQueuedJobs = s.countQueuedJobs := by
  rw [countQueuedJobs_eq, countQueuedJobs_eq, h]

theorem countQueuedJobs_applyObserved (s : DurableStore) (id : JobRunID) (phase : ObservedPhase) (now : Time) :
    (s.applyObserved id phase now).2.countQueuedJobs ≤ s.countQueuedJobs := by
  have hout := applyObserved_outcome s id phase now
  generalize s.applyObserved id phase now = out at hout
  cases hout with
  | missing | stale => exact Nat.le_refl _
  | refreshed => exact Nat.le_of_eq (countQueuedJobs_congr (refreshRun_jobs ..))
  | @moved job target found opened implied forward =>
    have hnot : (observed job target now).status ≠ .queued := by
      rw [observed_status]
      rcases jobStatusFromPhase_cases implied with rfl | rfl | rfl | rfl <;> simp
    have hcount := countQueuedJobs_setJob found _ hnot
    rw [countQueuedJobs_congr (refreshRun_jobs _ job.runID now)]
    omega

theorem countQueuedJobs_ended {s : DurableStore} {job : JobRunRecord} (hj : s.jobs.lookup id = some job)
    (hq : job.status = .queued) {phase : ObservedPhase} (hphase : phase = .failed ∨ phase = .skipped) (now : Time) :
    (s.applyObserved id phase now).2.countQueuedJobs < s.countQueuedJobs := by
  obtain ⟨target, hnot, heq⟩ : ∃ target, target ≠ .queued ∧ s.applyObserved id phase now =
      (.ok (), (s.setJob id (observed job target now)).refreshRun job.runID now) := by
    unfold applyObserved
    rw [hj]
    dsimp only
    rw [hq]
    rcases hphase with rfl | rfl
    · exact ⟨.failed, by simp, rfl⟩
    · exact ⟨.skipped, by simp, rfl⟩
  have hcount := countQueuedJobs_setJob hj (observed job target now) (by rw [observed_status]; exact hnot)
  rw [heq, countQueuedJobs_congr (refreshRun_jobs _ job.runID now)]
  rw [if_pos hq] at hcount
  omega

/-! ## The body -/

/-- The status stays or becomes terminal. -/
def StaysOrEnds (_ : JobRunID) (a b : JobRunStatus) : Prop := b = a ∨ b.isTerminal

theorem StaysOrEnds.trans {a b c} (h : StaysOrEnds id a b) (h' : StaysOrEnds id b c) : StaysOrEnds id a c := by
  rcases h' with rfl | hc
  · exact h
  · exact .inr hc

/-- What the body of the sweep may do to the store: nothing, or end one job. -/
inductive SweepOutcome (now : JobRunID → Time) (ev : Event) (all : List JobRunRecord)
    (acc : DurableStore × Bool) (rec : JobRunRecord) : DurableStore × Bool → Prop
  | waits (unchecked : rec.condition = "" ∨ isDeferredCondition rec.condition = false ∨
      conditionReady all rec = false) : SweepOutcome now ev all acc rec acc
  | holds (holds : checkCondition ev rec all rec.condition = .ok true) : SweepOutcome now ev all acc rec acc
  | ended {phase} (phase_eq : phase = .failed ∨ phase = .skipped) :
      SweepOutcome now ev all acc rec ((acc.1.applyObserved rec.id phase (now rec.id)).2, true)

theorem projectObserved_store (s : DurableStore) (id : JobRunID) (phase : ObservedPhase) (now : Time) :
    (projectObserved s id phase now).2 = (s.applyObserved id phase now).2 := by
  unfold projectObserved
  cases s.applyObserved id phase now with
  | mk result s' => cases result <;> rfl

section Body

variable {faults : SweepFaults} {now : JobRunID → Time} {ev : Event} {all : List JobRunRecord} {s : DurableStore}

theorem sweepJob_outcome (acc : DurableStore × Bool) (rec : JobRunRecord) :
    SweepOutcome now ev all acc rec (sweepJob now ev all acc rec) := by
  unfold sweepJob
  split
  · rename_i h
    simp only [Bool.or_eq_true, decide_eq_true_eq, Bool.not_eq_true'] at h
    rcases h with hempty | heager
    · exact .waits (.inl hempty)
    · exact .waits (.inr (.inl heager))
  · split
    · rename_i h
      exact .waits (.inr (.inr (by simpa using h)))
    · split
      · rw [projectObserved_store]
        exact .ended (.inl rfl)
      · rw [projectObserved_store]
        exact .ended (.inr rfl)
      · rename_i h
        exact .holds h

theorem due_phase {phase} (h : due ev all rec = some phase) : phase = .failed ∨ phase = .skipped := by
  unfold due at h
  split_ifs at h
  cases hcheck : checkCondition ev rec all rec.condition with
  | error err =>
    rw [hcheck] at h
    exact .inl (Option.some.inj h).symm
  | ok holds =>
    rw [hcheck] at h
    cases holds with
    | false => exact .inr (Option.some.inj h).symm
    | true => cases h

theorem sweepJobOn_none (acc : DurableStore × Bool) (rec : JobRunRecord) :
    sweepJobOn .none now ev all acc rec = sweepJob now ev all acc rec := by
  unfold sweepJobOn sweepJob due
  by_cases hwaits : (decide (rec.condition = "") || !isDeferredCondition rec.condition) = true
  · rw [if_pos hwaits, if_pos hwaits]
  · rw [if_neg hwaits, if_neg hwaits]
    by_cases hready : (!conditionReady all rec)
    · rw [if_pos hready, if_pos hready]
    · rw [if_neg hready, if_neg hready]
      cases checkCondition ev rec all rec.condition with
      | error err => rfl
      | ok holds => cases holds <;> rfl

theorem due_of_ready (hne : rec.condition ≠ "") (hdeferred : isDeferredCondition rec.condition)
    (hready : conditionReady all rec) (hdue : due ev all rec = none) :
    checkCondition ev rec all rec.condition = .ok true := by
  unfold due at hdue
  rw [hdeferred, hready, if_neg (by simpa using hne), if_neg (by simp)] at hdue
  cases hcheck : checkCondition ev rec all rec.condition with
  | error err =>
    rw [hcheck] at hdue
    cases hdue
  | ok holds =>
    rw [hcheck] at hdue
    cases holds with
    | false => cases hdue
    | true => rfl

/-- A visit of a queued job, where `phase` says what is due. -/
def visit (faults : SweepFaults) (now : JobRunID → Time) (phase : JobRunRecord → Option ObservedPhase)
    (acc : DurableStore × Bool) (rec : JobRunRecord) : DurableStore × Bool :=
  match phase rec with
  | none => acc
  | some phase => (if faults.project rec.id then acc.1 else (acc.1.applyObserved rec.id phase (now rec.id)).2, true)

theorem sweepJobOn_eq_visit (acc : DurableStore × Bool) (rec : JobRunRecord) :
    sweepJobOn faults now ev all acc rec = visit faults now (due ev all) acc rec := by
  unfold sweepJobOn visit
  cases due ev all rec with
  | none => rfl
  | some phase => simp only [projectObserved_store]

section Visit

variable {phase : JobRunRecord → Option ObservedPhase}

theorem visit_none (h : phase rec = none) (acc : DurableStore × Bool) : visit faults now phase acc rec = acc := by
  unfold visit
  rw [h]

theorem visit_some {p} (h : phase rec = some p) (acc : DurableStore × Bool) :
    visit faults now phase acc rec =
      (if faults.project rec.id then acc.1 else (acc.1.applyObserved rec.id p (now rec.id)).2, true) := by
  unfold visit
  rw [h]

theorem visit_reports : Reports (visit faults now phase) := by
  intro acc rec
  cases hphase : phase rec with
  | none => exact .inl (visit_none hphase acc)
  | some p => exact .inr (by rw [visit_some hphase])

theorem visit_idle (hfails : (phase rec).isSome → faults.project rec.id) (b : Bool) :
    visit faults now phase (s, b) rec = (s, b || (phase rec).isSome) := by
  cases hphase : phase rec with
  | none => rw [visit_none hphase, Option.isSome_none, Bool.or_false]
  | some p =>
    rw [hphase] at hfails
    rw [visit_some hphase, if_pos (hfails rfl), Option.isSome_some, Bool.or_true]

variable (hends : ∀ {rec p}, phase rec = some p → p = .failed ∨ p = .skipped)
include hends

theorem visit_invariant (hP : ∀ t id p now, p = .failed ∨ p = .skipped → P t → P (t.applyObserved id p now).2)
    (hacc : P acc.1) (rec : JobRunRecord) : P (visit faults now phase acc rec).1 := by
  cases hphase : phase rec with
  | none =>
    rw [visit_none hphase]
    exact hacc
  | some p =>
    rw [visit_some hphase]
    split_ifs
    · exact hacc
    · exact hP _ _ _ _ (hends hphase) hacc

/-- The first visit with an effect takes the job off the queue. -/
theorem visit_changes (hj : s.jobs.lookup rec.id = some rec) (hq : rec.status = .queued) (b : Bool) :
    (visit faults now phase (s, b) rec).1 = s ∧ ((phase rec).isSome → faults.project rec.id) ∨
      (visit faults now phase (s, b) rec).1.countQueuedJobs < s.countQueuedJobs := by
  cases hphase : phase rec with
  | none =>
    rw [visit_none hphase]
    exact .inl ⟨rfl, fun h => by cases h⟩
  | some p =>
    rw [visit_some hphase]
    split_ifs with hproject
    · exact .inl ⟨rfl, fun _ => hproject⟩
    · exact .inr (countQueuedJobs_ended hj hq (hends hphase) _)

end Visit

theorem sweepJob_invariant
    (hP : ∀ s id phase now, phase = .failed ∨ phase = .skipped → P s → P (s.applyObserved id phase now).2)
    (hacc : P acc.1) (rec : JobRunRecord) : P (sweepJob now ev all acc rec).1 := by
  rw [← sweepJobOn_none, sweepJobOn_eq_visit]
  exact visit_invariant due_phase hP hacc rec

end Body

/-! ## The loops over jobs and runs -/

section Pass

variable {faults : SweepFaults} {now : JobRunID → Time} {order : MapOrder RunID} {s : DurableStore}

theorem sweepPassOn_none : sweepPassOn .none order now s = sweepPass order now s := by
  have hrun : sweepRunOn .none now s.listQueuedJobs = sweepRun now s.listQueuedJobs := by
    funext acc r
    have hjob : ∀ ev all, sweepJobOn .none now ev all = sweepJob now ev all :=
      fun ev all => funext fun acc => funext fun rec => sweepJobOn_none acc rec
    unfold sweepRunOn sweepRun
    simp only [hjob]
    rfl
  unfold sweepPassOn sweepPass
  dsimp only
  rw [hrun]
  rfl

theorem listed_queued (hkeyed : Keyed s) (h : rec ∈ s.listQueuedJobs) :
    s.jobs.lookup rec.id = some rec ∧ rec.status = .queued := by
  obtain ⟨⟨id, hid⟩, hq⟩ := mem_listQueuedJobs.mp h
  rw [hkeyed hid]
  exact ⟨hid, hq⟩

theorem dueIn_phase {phase} (h : dueIn faults s rec = some phase) : phase = .failed ∨ phase = .skipped := by
  unfold dueIn at h
  split_ifs at h
  obtain ⟨run, -, hdue⟩ := Option.bind_eq_some_iff.mp h
  exact due_phase hdue

/-- What a pass keeps that every visit of a queued job keeps, among the jobs its run had. -/
theorem sweepRunOn_keeps {queued r} (hacc : P acc.1)
    (hvisit : ∀ {u : DurableStore} {rec : JobRunRecord} {run : RunRecord} (progress : Bool), P u →
      rec ∈ queued → rec.runID = r → acc.1.runs.lookup r = some run →
      P (sweepJobOn faults now run.event (acc.1.jobsOf r) (u, progress) rec).1) :
    P (sweepRunOn faults now queued acc r).1 := by
  unfold sweepRunOn getRun listJobRuns
  split_ifs
  · exact hacc
  · cases hrun : acc.1.runs.lookup r with
    | none => exact hacc
    | some run =>
      refine List.foldlRecOn (motive := fun acc' : DurableStore × Bool => P acc'.1) _ _ hacc
        fun acc' hacc' rec hrec => ?_
      obtain ⟨hmem, hof⟩ := List.mem_filter.mp hrec
      exact hvisit acc'.2 hacc' hmem (of_decide_eq_true hof) hrun

theorem sweepPassOn_keeps (hs : P s)
    (hvisit : ∀ {t u : DurableStore} {rec : JobRunRecord} {run : RunRecord} (progress : Bool),
      P t → P u → rec ∈ s.listQueuedJobs → t.runs.lookup rec.runID = some run →
      P (sweepJobOn faults now run.event (t.jobsOf rec.runID) (u, progress) rec).1) :
    P (sweepPassOn faults order now s).1 := by
  unfold sweepPassOn
  split_ifs
  · exact hs
  · refine List.foldlRecOn (motive := fun acc : DurableStore × Bool => P acc.1) (b := (s, false)) _ _ hs
      fun acc hacc r _ => sweepRunOn_keeps hacc fun progress hu hmem hof hrun => ?_
    subst hof
    exact hvisit progress hacc hu hmem hrun

theorem sweepPass_keeps (order : MapOrder RunID) (hs : P s)
    (hvisit : ∀ {t u : DurableStore} {rec : JobRunRecord} {run : RunRecord} (progress : Bool),
      P t → P u → rec ∈ s.listQueuedJobs → t.runs.lookup rec.runID = some run →
      P (sweepJob now run.event (t.jobsOf rec.runID) (u, progress) rec).1)
    : P (sweepPass order now s).1 := by
  rw [← sweepPassOn_none]
  refine sweepPassOn_keeps hs fun progress ht hu hmem hrun => ?_
  rw [sweepJobOn_none]
  exact hvisit progress ht hu hmem hrun

section Invariant

variable (hP : ∀ s id phase now, phase = .failed ∨ phase = .skipped → P s → P (s.applyObserved id phase now).2)
include hP

theorem sweepRunOn_invariant {queued} (hacc : P acc.1) (r : RunID) : P (sweepRunOn faults now queued acc r).1 :=
  sweepRunOn_keeps hacc fun _ hu _ _ _ => by
    rw [sweepJobOn_eq_visit]
    exact visit_invariant due_phase hP hu _

theorem sweepPassOn_invariant (hs : P s) : P (sweepPassOn faults order now s).1 :=
  sweepPassOn_keeps hs fun _ _ hu _ _ => by
    rw [sweepJobOn_eq_visit]
    exact visit_invariant due_phase hP hu _

theorem sweepPass_invariant (order : MapOrder RunID) (hs : P s) : P (sweepPass order now s).1 := by
  rw [← sweepPassOn_none]
  exact sweepPassOn_invariant hP hs

end Invariant

theorem countQueuedJobs_le (n : Nat) (s : DurableStore) (id : JobRunID) (phase : ObservedPhase) (now : Time)
    (_ : phase = .failed ∨ phase = .skipped) (h : s.countQueuedJobs ≤ n) :
    (s.applyObserved id phase now).2.countQueuedJobs ≤ n :=
  Nat.le_trans (countQueuedJobs_applyObserved ..) h

theorem sweepPassOn_le : (sweepPassOn faults order now s).1.countQueuedJobs ≤ s.countQueuedJobs :=
  sweepPassOn_invariant (P := fun t => t.countQueuedJobs ≤ s.countQueuedJobs) (countQueuedJobs_le _) (Nat.le_refl _)

/-- The loop over a run visits jobs with what is due at its beginning. -/
theorem sweepRunOn_eq (hlist : faults.list = false) (queued : List JobRunRecord) (b : Bool) (r : RunID) :
    sweepRunOn faults now queued (s, b) r =
      (queued.filter (·.runID = r)).foldl (visit faults now (dueIn faults s)) (s, b) := by
  have hnone : (∀ rec, rec.runID = r → dueIn faults s rec = none) →
      (queued.filter (·.runID = r)).foldl (visit faults now (dueIn faults s)) (s, b) = (s, b) := by
    intro h
    refine (List.foldl_ext _ (fun acc _ => acc) _ fun acc rec hrec => ?_).trans (List.foldl_fixed _)
    exact visit_none (h rec (of_decide_eq_true (List.mem_filter.mp hrec).2)) acc
  unfold sweepRunOn getRun listJobRuns
  cases hfault : faults.run r with
  | true =>
    refine (hnone fun rec hof => ?_).symm
    simp [dueIn, hof, hfault]
  | false =>
    cases hrun : s.runs.lookup r with
    | none =>
      refine (hnone fun rec hof => ?_).symm
      subst hof
      simp [dueIn, hrun]
    | some run =>
      refine List.foldl_ext _ _ _ fun acc rec hrec => ?_
      obtain rfl := of_decide_eq_true (List.mem_filter.mp hrec).2
      have hdue : dueIn faults s rec = due run.event (s.jobsOf rec.runID) rec := by simp [dueIn, hlist, hfault, hrun]
      rw [sweepJobOn_eq_visit]
      unfold visit
      rw [hdue]

theorem sweepRunOn_reports (hlist : faults.list = false) (queued : List JobRunRecord) :
    Reports (sweepRunOn faults now queued) := by
  rintro ⟨s, b⟩ r
  rw [sweepRunOn_eq hlist]
  exact foldl_reports visit_reports _ _

theorem mem_runs (order : MapOrder RunID) (h : rec ∈ s.listQueuedJobs) :
    rec.runID ∈ order.arrange (s.listQueuedJobs.map (·.runID)).dedup := by
  rw [(order.perm _).mem_iff, List.mem_dedup]
  exact List.mem_map_of_mem h

/-- A pass where everything that is due fails leaves the store. -/
theorem sweepPassOn_idle (hfails : ∀ rec ∈ s.listQueuedJobs, (dueIn faults s rec).isSome → faults.project rec.id) :
    sweepPassOn faults order now s = (s, s.listQueuedJobs.any fun rec => (dueIn faults s rec).isSome) := by
  unfold sweepPassOn
  split_ifs with hlist
  · have hnone : ∀ rec, (dueIn faults s rec).isSome = false := by
      intro rec
      unfold dueIn
      rw [hlist]
      rfl
    simp [hnone]
  · have hrun : ∀ r b, sweepRunOn faults now s.listQueuedJobs (s, b) r =
        (s, b || (s.listQueuedJobs.filter (·.runID = r)).any fun rec => (dueIn faults s rec).isSome) := by
      intro r b
      rw [sweepRunOn_eq (by simpa using hlist)]
      exact foldl_idle (fun rec hrec b => visit_idle (hfails rec (List.mem_filter.mp hrec).1) b) b
    rw [foldl_idle fun r _ b => hrun r b, Bool.false_or]
    congr 1
    -- the runs that are visited are those of the queued jobs
    rw [Bool.eq_iff_iff, List.any_eq_true, List.any_eq_true]
    constructor
    · rintro ⟨r, -, hany⟩
      obtain ⟨rec, hrec, hdue⟩ := List.any_eq_true.mp hany
      exact ⟨rec, (List.mem_filter.mp hrec).1, hdue⟩
    · rintro ⟨rec, hrec, hdue⟩
      exact ⟨rec.runID, mem_runs order hrec, List.any_eq_true.mpr ⟨rec, List.mem_filter.mpr ⟨hrec, by simp⟩, hdue⟩⟩

theorem sweepPassOn_lowers (hkeyed : Keyed s) (hprogress : (sweepPassOn faults order now s).2) (hidle : ¬ Idle faults s)
    : (sweepPassOn faults order now s).1.countQueuedJobs < s.countQueuedJobs := by
  by_cases hfails : ∀ rec ∈ s.listQueuedJobs, (dueIn faults s rec).isSome → faults.project rec.id
  · rw [sweepPassOn_idle hfails] at hprogress
    exact absurd ⟨List.any_eq_true.mp hprogress, hfails⟩ hidle
  · unfold sweepPassOn at hprogress ⊢
    split_ifs at hprogress ⊢ with hlist
    have hrun : ∀ r b, (sweepRunOn faults now s.listQueuedJobs (s, b) r).1 = s ∧
        (∀ rec ∈ s.listQueuedJobs.filter (·.runID = r), (dueIn faults s rec).isSome →
          faults.project rec.id) ∨
        (sweepRunOn faults now s.listQueuedJobs (s, b) r).1.countQueuedJobs < s.countQueuedJobs := by
      intro r b
      rw [sweepRunOn_eq (by simpa using hlist)]
      refine foldl_changes (μ := countQueuedJobs) (fun rec hrec b => ?_) (fun rec _ acc => ?_) b
      · obtain ⟨hj, hq⟩ := listed_queued hkeyed (List.mem_filter.mp hrec).1
        exact visit_changes dueIn_phase hj hq b
      · exact visit_invariant (P := fun t => t.countQueuedJobs ≤ _) dueIn_phase (countQueuedJobs_le _)
          (Nat.le_refl _) rec
    rcases foldl_changes (μ := countQueuedJobs) (fun r _ b => hrun r b)
      (fun r _ acc => sweepRunOn_invariant (P := fun t => t.countQueuedJobs ≤ _)
        (countQueuedJobs_le _) (Nat.le_refl _) r)
      false with ⟨-, hall⟩ | hlt
    · refine absurd (fun rec hrec hdue => ?_) hfails
      exact hall rec.runID (mem_runs order hrec) rec (List.mem_filter.mpr ⟨hrec, by simp⟩) hdue
    · exact hlt

theorem not_idle_none (s : DurableStore) : ¬ Idle .none s := by
  rintro ⟨⟨rec, hrec, hdue⟩, hfails⟩
  exact Bool.false_ne_true (hfails rec hrec hdue)

end Pass

/-! ## The loop -/

/-- The condition of a job need not be evaluated by the sweep, or is true. -/
def Swept (s : DurableStore) : Prop :=
  ∀ {id job run}, s.jobs.lookup id = some job → job.status = .queued → job.condition ≠ "" →
    isDeferredCondition job.condition → s.runs.lookup job.runID = some run →
    conditionReady (s.jobsOf job.runID) job →
    checkCondition run.event job (s.jobsOf job.runID) job.condition = .ok true

theorem swept_of_quiet {order} {now : JobRunID → Time} {s s'} (h : sweepPass order now s = (s', false)) :
    s' = s ∧ Swept s := by
  rw [← sweepPassOn_none] at h
  obtain ⟨heq, hruns⟩ := quiet_of_foldl (sweepRunOn_reports rfl _) h
  refine ⟨heq, fun {id job run} hj hq hne hdeferred hrun hready => ?_⟩
  have hmem : job ∈ s.listQueuedJobs := mem_listQueuedJobs.mpr ⟨⟨id, hj⟩, hq⟩
  have hquiet := hruns job.runID (mem_runs order hmem)
  rw [sweepRunOn_eq rfl] at hquiet
  have hjob := (quiet_of_foldl visit_reports hquiet).2 job (List.mem_filter.mpr ⟨hmem, by simp⟩)
  have hdueIn : dueIn .none s job = due run.event (s.jobsOf job.runID) job := by simp [dueIn, SweepFaults.none, hrun]
  refine due_of_ready hne hdeferred hready ?_
  cases hdue : due run.event (s.jobsOf job.runID) job with
  | none => rfl
  | some phase =>
    rw [visit_some (hdueIn.trans hdue)] at hjob
    cases congrArg Prod.snd hjob

section Evaluate

variable {W : Wiring} (order : Nat → MapOrder RunID) (now : JobRunID → Time) {s : DurableStore}

theorem evaluateDeferredConditions_invariant (hP : ∀ s id phase now, phase = .failed ∨ phase = .skipped → P s →
      P (s.applyObserved id phase now).2) (hs : P s) : P (evaluateDeferredConditions order now s) :=
  untilQuiet_invariant (fun n _ hs => sweepPass_invariant hP (order n) hs) _ hs

theorem inv_evaluateDeferredConditions (hi : Inv W s) : Inv W (evaluateDeferredConditions order now s) :=
  evaluateDeferredConditions_invariant order now
    (fun _ id phase now _ hi => inv_step hi (.applyObserved id phase now)) hi

theorem moves_evaluateDeferredConditions (s : DurableStore) :
    Moves StaysOrEnds s (evaluateDeferredConditions order now s) := by
  have hrefl : ∀ id a, StaysOrEnds id a a := fun _ _ => .inl rfl
  refine evaluateDeferredConditions_invariant order now (P := Moves StaysOrEnds s)
    (fun t id phase now hphase ht => ht.trans StaysOrEnds.trans ?_) (Moves.refl hrefl s)
  refine moves_applyObserved hrefl id phase now fun job target _ _ himp => .inr ?_
  rcases hphase with rfl | rfl
  all_goals
    cases himp
    rfl

theorem swept_evaluateDeferredConditions (hi : Inv W s) : Swept (evaluateDeferredConditions order now s) := by
  obtain ⟨n, s₀, -, hquiet⟩ := Progress.untilQuiet_quiet (P := Inv W) (μ := countQueuedJobs)
    (fun n t ht => sweepPass_invariant (P := Inv W)
      (fun _ id phase now _ hi => inv_step hi (.applyObserved id phase now)) (order n) ht)
    (fun n t ht hprogress => by
      rw [← sweepPassOn_none] at hprogress ⊢
      exact sweepPassOn_lowers (fun hjob => ht.minted.job_id hjob) hprogress (not_idle_none t)) hi
    (Nat.lt_succ_self s.countQueuedJobs)
  obtain ⟨heq, hswept⟩ := swept_of_quiet hquiet
  rw [evaluateDeferredConditions, heq]
  exact hswept

end Evaluate

end Forgelet.Server
