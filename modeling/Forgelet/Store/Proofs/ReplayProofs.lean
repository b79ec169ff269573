import Forgelet.Store.Proofs.HistoryProofs

/-!
# Proofs: repeated and reordered observations

An observation that is repeated is no change for a job that has ended. It is one for a running job, whose start time is
written again, and for a run that was not refreshed since. The status a job ends with does not depend on the order of
its observations.
-/

namespace Forgelet.DurableStore

open Relation

variable {W : Wiring} {s s' s'' : DurableStore} {id : JobRunID} {phase p : ObservedPhase} {t now : Time}

/-! ## Repeated observations -/

/-- `ApplyObserved` takes the observation: the job is open, and it is no step back. -/
def Accepts (s : DurableStore) (id : JobRunID) (phase : ObservedPhase) : Prop :=
  ∃ job, s.jobs.lookup id = some job ∧ job.status.isTerminal = false ∧
    ∀ target, jobStatusFromPhase phase = some target → canAdvanceJob job.status target

/-- The last accepted observation of the job `id` is `phase` at the time `t`. -/
inductive LastAccepted (W : Wiring) (id : JobRunID) (phase : ObservedPhase) (t : Time) : DurableStore → Prop
  | accepted {s : DurableStore} (reach : Reachable W s) (accepts : Accepts s id phase) :
      LastAccepted W id phase t (s.applyObserved id phase t).2
  | later {s : DurableStore} (h : LastAccepted W id phase t s) (op : StoreOp)
      (dropped : ∀ p now, op = .applyObserved id p now → ¬ Accepts s id p) : LastAccepted W id phase t (op.apply W s)

/-- The phases that imply no status, `running`, and the last ones. -/
def observedRank (phase : ObservedPhase) : Nat := ((jobStatusFromPhase phase).map jobRank).getD 0

theorem LastAccepted.reachable (h : LastAccepted W id phase t s) : Reachable W s := by
  induction h with
  | accepted reach _ => exact reach.tail ⟨.applyObserved id phase t, rfl⟩
  | later _ op _ ih => exact ih.tail ⟨op, rfl⟩

/-- The record after the status `target` was observed at the time `t`. -/
def Observed (target : JobRunStatus) (t : Time) (job : JobRunRecord) : Prop :=
  job.status.isTerminal ∨ (target = .running ∧ job.status = .running ∧ job.startedAt = some t)

variable {target : JobRunStatus} {job : JobRunRecord}

theorem observed_observed (job : JobRunRecord) (himp : jobStatusFromPhase phase = some target) :
    Observed target t (observed job target t) := by
  rcases jobStatusFromPhase_cases himp with rfl | rfl | rfl | rfl
  · exact .inr ⟨rfl, rfl, rfl⟩
  all_goals exact .inl rfl

theorem JobWrite.observed {op job'} (h : JobWrite op id job job') (hop : ∀ p now, op ≠ .applyObserved id p now)
    (hjob : Observed target t job) : Observed target t job' := by
  cases h with
  | skip queued now => exact .inl rfl
  | ack waiting obj now =>
    rcases hjob with hend | ⟨-, hrun, -⟩
    · rcases waiting with hq | hd
      · rw [hq] at hend
        cases hend
      · rw [hd] at hend
        cases hend
    · rw [hrun] at waiting
      rcases waiting with hq | hd
      · cases hq
      · cases hd
  | observe opened implied forward now => exact absurd rfl (hop _ now)
  | cancel opened now => exact .inl rfl
  | collect now => exact hjob

theorem LastAccepted.record (h : LastAccepted W id phase t s) : ∃ job, s.jobs.lookup id = some job ∧
    ∀ target, jobStatusFromPhase phase = some target → Observed target t job := by
  induction h with
  | @accepted s reach accepts =>
    obtain ⟨job, hjob, hopen, hadv⟩ := accepts
    cases himp : jobStatusFromPhase phase with
    | none =>
      simp [applyObserved, hjob, hopen, himp]
    | some target =>
      refine ⟨observed job target t, ?_, fun target' htarget => ?_⟩
      · simp [applyObserved, hjob, hopen, himp, hadv target himp, setJob_lookup]
      · cases htarget
        exact observed_observed job himp
  | @later s h op dropped ih =>
    obtain ⟨job, hjob, hobs⟩ := ih
    by_cases hop : ∃ p now, op = .applyObserved id p now
    · -- the record is not written by an observation that is dropped
      obtain ⟨p, now, rfl⟩ := hop
      have hnot := dropped p now rfl
      rw [StoreOp.apply]
      have hout := applyObserved_outcome s id p now
      generalize s.applyObserved id p now = out at hout
      cases hout with
      | missing | stale => exact ⟨job, hjob, hobs⟩
      | refreshed => exact ⟨job, by rw [refreshRun_jobs, hjob], hobs⟩
      | moved found opened implied forward =>
        refine absurd ⟨_, found, opened, fun target htarget => ?_⟩ hnot
        obtain rfl := Option.mem_unique implied htarget
        exact forward
    · obtain ⟨job', hjob', hwrites⟩ := carried_apply (inv_reachable h.reachable) op id job hjob
      refine ⟨job', hjob', fun target htarget => ?_⟩
      clear hjob'
      induction hwrites with
      | refl => exact hobs target htarget
      | tail _ hwrite ih => exact hwrite.observed (fun p now heq => hop ⟨p, now, heq⟩) ih

/-- While a job of the run is open, a refresh writes nothing but that the run has started. -/
theorem refreshRun_eq_iff (now : Time) {r : RunID}
    (hopen : s.Stored r → ∃ st ∈ s.statusesOf r, st.isTerminal = false) :
    s.refreshRun r now = s ↔ ∀ run, s.runs.lookup r = some run → run.status = .queued →
      .running ∉ s.statusesOf r ∧ .dispatched ∉ s.statusesOf r := by
  unfold refreshRun
  cases hrun : s.runs.lookup r with
  | none => exact iff_of_true rfl nofun
  | some run =>
    dsimp only
    rw [← statusesOf, aggregateRunStatus_open (hopen ⟨run, hrun⟩)]
    cases hstatus : run.status with
    | queued =>
      rw [if_neg (by decide)]
      by_cases hstarted : .running ∈ s.statusesOf r ∨ .dispatched ∈ s.statusesOf r
      · refine iff_of_false (fun hsame => ?_) fun h => ?_
        · rw [if_pos hstarted, if_pos (by decide)] at hsame
          have hlook := congrArg (fun s : DurableStore => (s.runs.lookup r).map (·.status)) hsame
          simp [setRun_lookup, hrun, hstatus] at hlook
        · obtain ⟨hrunning, hdispatched⟩ := h run rfl hstatus
          exact hstarted.elim hrunning hdispatched
      · rw [if_neg hstarted, if_neg (by decide)]
        exact iff_of_true rfl fun _ _ _ => not_or.mp hstarted
    | running =>
      refine iff_of_true ?_ fun run' hrun' hqueued => ?_
      · rw [if_neg (by decide)]
        split
        · exact if_neg (by decide)
        · exact if_neg (by decide)
      · cases hrun'
        rw [hstatus] at hqueued
        cases hqueued
    | succeeded | failed | cancelled =>
      refine iff_of_true (if_pos rfl) fun run' hrun' hqueued => ?_
      cases hrun'
      rw [hstatus] at hqueued
      cases hqueued

/-- When the last accepted observation of a job was `p` or a later phase, observing `p` again leaves the store as it is
exactly when the job has ended, or `p` implies no status and the run is not queued while one of its jobs has started. -/
theorem replay_unchanged_iff (h : LastAccepted W id phase t s) (hp : p = phase ∨ observedRank p < observedRank phase)
    (hlater : t < now) : ∃ job, s.jobs.lookup id = some job ∧
      ((s.applyObserved id p now).2 = s ↔ job.status.isTerminal ∨ (jobStatusFromPhase p = none ∧
        ∀ run, s.runs.lookup job.runID = some run → run.status = .queued →
          .running ∉ s.statusesOf job.runID ∧ .dispatched ∉ s.statusesOf job.runID)) := by
  obtain ⟨job, hjob, hobs⟩ := h.record
  refine ⟨job, hjob, ?_⟩
  cases hopen : job.status.isTerminal with
  | true => simp [applyObserved, hjob, hopen]
  | false =>
    have hlisted : s.Stored job.runID → ∃ st ∈ s.statusesOf job.runID, st.isTerminal = false := by
      intro hstored
      have hmem := (inv_reachable h.reachable).listing.complete hstored hjob rfl
      exact ⟨_, List.mem_map_of_mem (mem_jobsOf.mpr ⟨id, hmem, hjob⟩), hopen⟩
    rw [← refreshRun_eq_iff now hlisted]
    cases himp : jobStatusFromPhase p with
    | none => simp [applyObserved, hjob, hopen, himp]
    | some target =>
      refine iff_of_false (fun hsame => ?_) (by simp)
      -- an open job was seen running at `t`, and `p` is the same phase
      have hlast : target = .running ∧ job.status = .running ∧ job.startedAt = some t := by
        have hrunning : ∀ target', jobStatusFromPhase phase = some target' → target' = .running ∧
            job.status = .running ∧ job.startedAt = some t := by
          intro target' himp'
          exact (hobs target' himp').resolve_left (by simp [hopen])
        rcases hp with rfl | hlt
        · exact hrunning target himp
        · cases himp' : jobStatusFromPhase phase with
          | none => simp [observedRank, himp'] at hlt
          | some target' =>
            obtain ⟨rfl, -, -⟩ := hrunning target' himp'
            rcases jobStatusFromPhase_cases himp with rfl | rfl | rfl | rfl
            all_goals simp [observedRank, himp, himp', jobRank] at hlt
      obtain ⟨rfl, hrun, hstart⟩ := hlast
      have hnew : (s.applyObserved id p now).2.jobs.lookup id = some (observed job .running now) := by
        simp [applyObserved, hjob, himp, canAdvanceJob, hrun, JobRunStatus.isTerminal, setJob_lookup]
      rw [hsame, hjob, Option.some_inj] at hnew
      have htime := congrArg JobRunRecord.startedAt hnew
      rw [hstart] at htime
      exact hlater.ne (Option.some.inj htime)

theorem dispatched_accepts (phase : ObservedPhase) : Accepts (afterOps Wiring.unary (skipOps.take 4)) "ii" phase := by
  refine ⟨_, rfl, rfl, fun target htarget => ?_⟩
  rcases jobStatusFromPhase_cases htarget with rfl | rfl | rfl | rfl
  all_goals rfl

/-- Running, observed after the failure, changes nothing. -/
theorem replay_unchanged_failed :
    (((afterOps Wiring.unary (skipOps.take 4)).applyObserved "ii" .failed 2).2.applyObserved "ii" .running 3).2 =
      ((afterOps Wiring.unary (skipOps.take 4)).applyObserved "ii" .failed 2).2 := by
  obtain ⟨job, hjob, hiff⟩ := replay_unchanged_iff (p := .running)
    (.accepted (reachable_afterOps _ (skipOps.take 4)) (dispatched_accepts .failed)) (.inr (by decide))
    (show (2 : Time) < 3 by decide)
  cases hjob
  exact hiff.mpr (.inl rfl)

/-- A running job that is observed running again at the time 3 starts at the time 3. -/
theorem replay_running_restarts : ∃ s, LastAccepted Wiring.unary "ii" .running 2 s ∧
    (s.jobs.lookup "ii").map (·.startedAt) = some (some 2) ∧
    ((s.applyObserved "ii" .running 3).2.jobs.lookup "ii").map (·.startedAt) = some (some 3) :=
  ⟨_, .accepted (reachable_afterOps _ (skipOps.take 4)) (dispatched_accepts _), by decide, by decide⟩

/-! ## Reordered observations -/

/-- The status of a job after `ApplyObserved`. -/
def advance (status : JobRunStatus) (phase : ObservedPhase) : JobRunStatus :=
  match jobStatusFromPhase phase with
  | none => status
  | some target => if !status.isTerminal && canAdvanceJob status target then target else status

/-- These phases are observed of the job `id`, which no other call touches. -/
inductive Observes (W : Wiring) (id : JobRunID) : DurableStore → List ObservedPhase → DurableStore → Prop
  | nil (s : DurableStore) : Observes W id s [] s
  | observe {s s' phases} (phase : ObservedPhase) (now : Time)
      (h : Observes W id (s.applyObserved id phase now).2 phases s') : Observes W id s (phase :: phases) s'
  | other {s s' phases} (op : StoreOp) (same : (op.apply W s).jobs.lookup id = s.jobs.lookup id)
      (h : Observes W id (op.apply W s) phases s') : Observes W id s phases s'

/-- The phase is a last one, of this status. -/
def EndsAs (phase : ObservedPhase) (status : JobRunStatus) : Prop :=
  jobStatusFromPhase phase = some status ∧ status.isTerminal

theorem applyObserved_advance (hjob : s.jobs.lookup id = some job) (phase : ObservedPhase) (now : Time) :
    ∃ job', (s.applyObserved id phase now).2.jobs.lookup id = some job' ∧
      job'.status = advance job.status phase := by
  unfold applyObserved advance
  simp only [hjob]
  cases hterm : job.status.isTerminal with
  | true => cases jobStatusFromPhase phase <;> exact ⟨job, by simpa using hjob, by simp⟩
  | false =>
    cases himp : jobStatusFromPhase phase with
    | none => exact ⟨job, by simpa using hjob, rfl⟩
    | some target =>
      cases hadv : canAdvanceJob job.status target with
      | false => exact ⟨job, by simpa [hadv] using hjob, by simp [hadv]⟩
      | true => exact ⟨observed job target now, by simp [hadv, setJob_lookup], by simp [hadv, observed_status]⟩

theorem Observes.status {phases} (h : Observes W id s phases s') (hjob : s.jobs.lookup id = some job) :
    ∃ job', s'.jobs.lookup id = some job' ∧ job'.status = phases.foldl advance job.status := by
  induction h generalizing job with
  | nil s => exact ⟨job, hjob, rfl⟩
  | observe phase now _ ih =>
    obtain ⟨job₁, hjob₁, hstatus⟩ := applyObserved_advance hjob phase now
    rw [List.foldl_cons, ← hstatus]
    exact ih hjob₁
  | other op same _ ih => exact ih (same.trans hjob)

theorem foldl_advance_terminal {status} (hterm : status.isTerminal) (phases : List ObservedPhase) :
    phases.foldl advance status = status := by
  induction phases with
  | nil => rfl
  | cons phase rest ih =>
    have hstay : advance status phase = status := by
      unfold advance
      cases jobStatusFromPhase phase <;> simp [hterm]
    rw [List.foldl_cons, hstay, ih]

theorem advance_of_ends {status} (hopen : status.isTerminal = false) (h : EndsAs phase target) :
    advance status phase = target := by
  have hadv : canAdvanceJob status target := by
    rcases jobStatusFromPhase_cases h.1 with rfl | rfl | rfl | rfl <;> revert hopen <;> cases status <;> decide
  simp [advance, h.1, hopen, hadv]

theorem advance_of_not_ends {status} (hopen : status.isTerminal = false) (h : ∀ st, ¬ EndsAs phase st) :
    advance status phase = if phase = .running then .running else status := by
  cases phase with
  | pending | other => rfl
  | running => revert hopen; cases status <;> decide
  | _ => exact absurd ⟨rfl, rfl⟩ (h _)

/-- An open job ends as the last phases say, or is running if it was seen so. -/
theorem foldl_advance {status : JobRunStatus} (hopen : status.isTerminal = false) {phases : List ObservedPhase}
    (hone : ∀ p ∈ phases, ∀ q ∈ phases, ∀ st st', EndsAs p st → EndsAs q st' → p = q) :
    (∀ p ∈ phases, ∀ st, EndsAs p st → phases.foldl advance status = st) ∧
      ((∀ p ∈ phases, ∀ st, ¬ EndsAs p st) →
        phases.foldl advance status = if .running ∈ phases then .running else status) := by
  induction phases generalizing status with
  | nil => simp
  | cons phase rest ih =>
    rw [List.foldl_cons]
    by_cases hend : ∃ st, EndsAs phase st
    · -- the first last phase settles the status, and there is no other one
      obtain ⟨target, hend⟩ := hend
      rw [advance_of_ends hopen hend, foldl_advance_terminal hend.2]
      refine ⟨fun p hp st hst => ?_, fun hnot => absurd hend (hnot phase (.head _) target)⟩
      obtain rfl := hone p hp phase (.head _) st target hst hend
      exact Option.mem_unique hend.1 hst.1
    · have hnot : ∀ st, ¬ EndsAs phase st := fun st h => hend ⟨st, h⟩
      have hnext : (advance status phase).isTerminal = false := by
        rw [advance_of_not_ends hopen hnot]
        split_ifs
        · rfl
        · exact hopen
      obtain ⟨hends, hopens⟩ := ih hnext fun p hp q hq => hone p (.tail _ hp) q (.tail _ hq)
      refine ⟨fun p hp st hst => ?_, fun hnone => ?_⟩
      · rcases List.mem_cons.mp hp with rfl | hp
        · exact absurd hst (hnot st)
        · exact hends p hp st hst
      · rw [hopens fun p hp => hnone p (.tail _ hp), advance_of_not_ends hopen hnot]
        by_cases hrun : phase = .running
        · simp [hrun]
        · simp [hrun, Ne.symm hrun]

/-- The status of a waiting job after some observations does not depend on their order or number, as long as the last
phases among them agree. -/
theorem projection_confluent {phases phases' : List ObservedPhase} {job : JobRunRecord}
    (hjob : s.jobs.lookup id = some job) (hwaiting : job.status = .queued ∨ job.status = .dispatched)
    (hone : ∀ p ∈ phases, ∀ q ∈ phases, ∀ st st', EndsAs p st → EndsAs q st' → p = q)
    (hsame : ∀ p, p ∈ phases' ↔ p ∈ phases) (h : Observes W id s phases s') (h' : Observes W id s phases' s'') :
    ∃ job' job'', s'.jobs.lookup id = some job' ∧ s''.jobs.lookup id = some job'' ∧ job''.status = job'.status ∧
      (∀ p ∈ phases, ∀ st, EndsAs p st → job'.status = st) ∧
      ((∀ p ∈ phases, ∀ st, ¬ EndsAs p st) → job'.status = if .running ∈ phases then .running else job.status) := by
  have hopen : job.status.isTerminal = false := by rcases hwaiting with hq | hd <;> simp [*, JobRunStatus.isTerminal]
  obtain ⟨job', hjob', hstatus⟩ := h.status hjob
  obtain ⟨job'', hjob'', hstatus'⟩ := h'.status hjob
  obtain ⟨hends, hopens⟩ := foldl_advance hopen hone
  obtain ⟨hends', hopens'⟩ := foldl_advance hopen fun p hp q hq => hone p ((hsame p).mp hp) q ((hsame q).mp hq)
  rw [← hstatus] at hends hopens
  rw [← hstatus'] at hends' hopens'
  refine ⟨job', job'', hjob', hjob'', ?_, hends, hopens⟩
  by_cases hend : ∃ p ∈ phases, ∃ st, EndsAs p st
  · obtain ⟨p, hp, st, hst⟩ := hend
    rw [hends p hp st hst, hends' p ((hsame p).mpr hp) st hst]
  · push Not at hend
    rw [hopens hend, hopens' fun p hp => hend p ((hsame p).mp hp)]
    simp [hsame]

/-- A dispatched job that is observed running and failed has failed, in either order. -/
theorem projection_confluent_failed : ∃ s s' s'' job', Observes Wiring.unary "ii" s [.running, .failed] s' ∧
    Observes Wiring.unary "ii" s [.failed, .running, .failed] s'' ∧ s''.jobs.lookup "ii" = some job' ∧
      job'.status = .failed := by
  let s := afterOps Wiring.unary (skipOps.take 4)
  have hjob : s.jobs.lookup "ii" = some _ := rfl
  have h : Observes Wiring.unary "ii" s [.running, .failed] _ := .observe _ 2 (.observe _ 3 (.nil _))
  have h' : Observes Wiring.unary "ii" s [.failed, .running, .failed] _ :=
    .observe _ 2 (.observe _ 3 (.observe _ 4 (.nil _)))
  obtain ⟨job', job'', -, hjob'', hsame, hends, -⟩ :=
    projection_confluent hjob (.inr rfl) (by simp [EndsAs, jobStatusFromPhase, JobRunStatus.isTerminal]) (by simp) h h'
  exact ⟨s, _, _, job'', h, h', hjob'', hsame.trans (hends .failed (by decide) .failed ⟨rfl, rfl⟩)⟩

end Forgelet.DurableStore
