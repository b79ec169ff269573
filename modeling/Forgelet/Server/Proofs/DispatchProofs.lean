import Forgelet.Server.Proofs.EagerProofs

/-!
# Proofs: what `DispatchOnce` dispatches

Every call keeps the invariants of the store, and a disciplined one keeps the queued jobs eagerly true. In a state that
disciplined calls reach, a disciplined `DispatchOnce` dispatches every job properly. Without the discipline, the gate
hands out a job with a condition as soon as one of its dependencies has failed.
-/

namespace Forgelet.Server

open DurableStore Relation

variable {opts : Options} {st : State}

variable {s : DurableStore}

/-- `Ingest` leaves what the ingestor leaves and, for a new run, goes on to `buildPlans`. -/
theorem ingest_cases {P : DurableStore → Prop} (opts : Options) (st : State) (d : Delivery) (now : Time)
    (skipTime : JobRunID → Time) (quiet : P (st.durable.recordDelivery opts.wiring d).2)
    (orphaned : ∀ l, P (drafted opts.wiring (st.durable.recordDelivery opts.wiring d).2 l now))
    (created : ∀ {r s}, IngestOutcome opts.wiring opts.src.compile st.durable d now (.ok (r, true), s) →
      P (buildPlans opts d r (trustFor opts d) skipTime (st.withDurable s)).2.durable) :
    P (ingest opts d now skipTime st).2.durable := by
  unfold ingest
  have hout := ingest_outcome opts.wiring opts.src.compile st.durable d now
  generalize Forgelet.ingest opts.wiring opts.src.compile st.durable d now = out at hout
  obtain ⟨err | ⟨r, _ | _⟩, s⟩ := out
  · cases hout with
    | quiet => exact quiet
    | orphaned l => exact orphaned l
  · dsimp only
    rw [if_pos (.inr rfl)]
    cases hout
    exact quiet
  · have hplans := created hout
    have hr : r ≠ "" := by
      cases hout with
      | quiet nothing => exact absurd rfl (nothing r)
      | created => exact opts.wiring.ids.mint_ne_empty _
    dsimp only
    rw [if_neg (by simp [hr])]
    generalize buildPlans opts d r (trustFor opts d) skipTime (st.withDurable s) = out at hplans
    obtain ⟨_ | _, _⟩ := out <;> exact hplans

/-- The invariants of the store, and the one about conditions that do not wait. -/
structure Kept (opts : Options) (st : State) : Prop where
  inv : Inv opts.wiring st.durable
  eager : Eager st.durable

theorem eager_recordDelivery {W} (h : Eager s) (d : Delivery) : Eager (s.recordDelivery W d).2 := by
  unfold recordDelivery
  split
  · exact h
  · exact h

theorem kept_ingest (h : Kept opts st) (d : Delivery) (now : Time) (skipTime : JobRunID → Time)
    (hd : Disciplined opts st (.ingest d now skipTime)) : Kept opts ((Call.ingest d now skipTime).apply opts st) := by
  have hinv := inv_recordDelivery h.inv d
  have heager : Eager (st.durable.recordDelivery opts.wiring d).2 := eager_recordDelivery h.eager d
  suffices Inv opts.wiring (ingest opts d now skipTime st).2.durable ∧
      Eager (ingest opts d now skipTime st).2.durable from ⟨this.1, this.2⟩
  refine ingest_cases (P := fun s => Inv opts.wiring s ∧ Eager s) opts st d now skipTime ⟨hinv, heager⟩ (fun l => ?_)
    fun {r _} hout => ?_
  · have horphan := orphaned_drafted hinv.minted l now
    exact ⟨horphan.inv hinv, heager.orphaned hinv.listing horphan⟩
  · cases hout with
    | quiet nothing => exact absurd rfl (nothing r)
    | @created record intents stored recorded unbound compiled nonempty distinct =>
      obtain ⟨hpayload, hskips⟩ := hd
      -- the jobs were compiled from the payload that `buildPlans` reads
      have hrecord : record.payload = d.payload := by
        rcases recorded with hold | ⟨-, hnew⟩
        · exact hpayload record hold unbound
        · exact hnew
      have hfree : ∀ record, st.durable.deliveries.lookup d.key = some record → record.runID = none := by
        intro record' hrecord'
        rcases recorded with hold | ⟨hnone, -⟩
        · rw [Option.mem_unique hrecord' hold]
          exact unbound
        · rw [hnone] at hrecord'
          cases hrecord'
      rw [hrecord, WorkflowSource.compile] at compiled
      cases hmatched : opts.src.matchedJobs d.event d.payload with
      | error err =>
        rw [hmatched] at compiled
        cases compiled
      | ok jobs =>
        rw [hmatched] at compiled
        obtain rfl : jobs.map intentFor = intents := Except.ok.inj compiled
        have hkeys : (jobs.map (·.key)).Nodup := by
          rw [← map_intentFor_jobKey]
          exact distinct
        have hcommitted : Inv opts.wiring (committed opts.wiring
            (st.durable.recordDelivery opts.wiring d).2 record (seedFor d jobs) now) :=
          inv_committed hinv stored unbound nonempty distinct
        refine ⟨?_, eager_buildPlans hinv heager hmatched hkeys (hskips hfree jobs hmatched hkeys) rfl _ skipTime⟩
        exact buildPlans_invariant (P := Inv opts.wiring) (fun s id now hi =>
          inv_step hi (.applyObserved id .skipped now)) _ hcommitted

theorem rerequest_durable (opts : Options) (id : JobRunID) (now : Time) (st : State) :
    (rerequest opts id now st).2.durable = (st.durable.rerequestJob opts.wiring id now).2 := by
  unfold rerequest
  cases st.durable.rerequestJob opts.wiring id now with
  | mk result s =>
    cases result with
    | error err => rfl
    | ok newID =>
      dsimp only
      split
      all_goals
        split
        all_goals try rfl
      all_goals
        split
        all_goals rfl

theorem kept_moves (h : Kept opts st) (hi : Inv opts.wiring s) (hm : Moves NotRequeued st.durable s) :
    Kept opts (st.withDurable s) :=
  ⟨hi, h.eager.moves hm⟩

/-- The loop of `DispatchOnce` from the state that the sweep leaves. -/
theorem dispatchOnce_spec (hi : Inv opts.wiring st.durable) (c : Circumstances) :
    DrainSpec opts.wiring (swept c st.stores).durable (swept c st.stores).durable
      (dispatchOnce opts.wiring c st.stores) :=
  drain_spec c.faults c.drainTime _ (inv_evaluateDeferredConditions c.order c.sweepTime hi) (Moves.refl Drains.refl _)

theorem kept_call (h : Kept opts st) (call : Call) (hd : Disciplined opts st call) :
    Kept opts (call.apply opts st) := by
  cases call with
  | ingest d now skipTime => exact kept_ingest h d now skipTime hd
  | applyObserved id phase now =>
    exact kept_moves h (inv_step h.inv (.applyObserved id phase now)) (moves_observed _ id phase now)
  | cancelRun id now =>
    exact kept_moves h (inv_step h.inv (.cancelRun id now)) (moves_cancelled _ id now)
  | rerequest id now =>
    have hdur := rerequest_durable opts id now st
    have hinv := inv_rerequestJob h.inv id now
    have heager := h.eager.rerequestJob h.inv hd now
    exact ⟨hdur ▸ hinv, hdur ▸ heager⟩
  | dispatchOnce c =>
    have hspec := dispatchOnce_spec h.inv c
    have hdrained : Moves NotRequeued (swept c st.stores).durable
        (dispatchOnce opts.wiring c st.stores).stores.durable :=
      hspec.moves.mono fun id a b hmove hb => (hb ▸ hmove).queued
    have hswept := h.eager.moves (moves_swept c.order c.sweepTime st.durable)
    exact ⟨hspec.inv, hswept.moves hdrained⟩

theorem kept_reaches (h : Reaches opts (Disciplined opts) st) : Kept opts st := by
  induction h with
  | refl => exact ⟨inv_new opts.wiring, fun id job hj => by cases hj⟩
  | tail _ hstep ih =>
    obtain ⟨call, hok, rfl⟩ := hstep
    exact kept_call ih call hok

/-- In every state that disciplined calls reach, a disciplined `DispatchOnce` dispatches a job only when the latest
attempts of its dependencies are terminal and have succeeded or, if it has a condition, when that is true. -/
theorem dispatchOnce_proper (opts : Options) (st : State) (hreach : Reaches opts (Disciplined opts) st)
    (c : Circumstances) (hc : Disciplined opts st (.dispatchOnce c)) :
    (∀ m ∈ (dispatchOnce opts.wiring c st.stores).moments, DispatchedProperly m) ∧
      ∀ id j j', st.durable.jobs.lookup id = some j → j.status ≠ .dispatched →
        (dispatchOnce opts.wiring c st.stores).stores.durable.jobs.lookup id = some j' → j'.status = .dispatched →
        ∃ m ∈ (dispatchOnce opts.wiring c st.stores).moments, m.job.id = id := by
  have hkept := kept_reaches hreach
  have hspec := dispatchOnce_spec hkept.inv c
  have hmoves := moves_evaluateDeferredConditions c.order c.sweepTime st.durable
  refine ⟨fun m hm => ?_, fun id j j' hj hne hj' hd => ?_⟩
  · exact dispatchedProperly_of_handed (inv_evaluateDeferredConditions c.order c.sweepTime hkept.inv)
      (swept_evaluateDeferredConditions c.order c.sweepTime hkept.inv)
      (hkept.eager.moves (moves_swept c.order c.sweepTime st.durable)) hc (hspec.handed m hm)
  · -- the sweep dispatches nothing
    obtain ⟨j₁, hj₁, -⟩ := hmoves.rewritten.symm.job hj
    refine hspec.covered id ⟨j₁, j', hj₁, fun hd₁ => ?_, hj', hd⟩
    rcases hmoves.status hj hj₁ with hsame | hterm
    · exact hne (hsame ▸ hd₁)
    · rw [hd₁] at hterm
      cases hterm

theorem eagerSkips_of_true {ev jobs}
    (h : ∀ inst ∈ jobs, eagerDecision ev (draftOf inst) (jobs.map draftOf) inst = .ok true) :
    EagerSkips opts ev jobs := by
  intro before inst after hjobs hne
  have hmem : inst ∈ jobs := by
    rw [hjobs]
    simp
  exact absurd (h inst hmem) hne

section

variable (hcond : ∀ id job, s.jobs.lookup id = some job → job.status = .queued → job.condition ≠ "")
include hcond

/-- When only jobs with conditions are queued, the loop skips nothing. -/
theorem not_skipReach
    (id : JobRunID) : ¬SkipReach s id := by
  intro h
  cases h with
  | ended found queued unconditional => exact hcond id _ found queued unconditional
  | via found queued unconditional => exact hcond id _ found queued unconditional

/-- A deferred condition is sound when all dependencies have ended and only jobs with conditions are queued. -/
theorem sound_of_ready {job run}
    (hrun : s.runs.lookup job.runID = some run) (hdeferred : isDeferredCondition job.condition)
    (hready : conditionReady (s.jobsOf job.runID) job) (hidx : ∀ key ∈ job.dependsOn, (s.indexed job.runID key).isSome)
    : Sound s job run := by
  refine ⟨hrun, fun _ => ⟨hready, hidx, fun l hbecome => ?_⟩, fun heager => ?_⟩
  · have hsame : List.Forall₂ SameResult (s.jobsOf job.runID) l := by
      refine hbecome.imp fun j j' h => ⟨h.1, ?_⟩
      rcases h.2 with hname | ⟨hreach, -⟩
      · exact hname
      · exact absurd hreach (not_skipReach hcond j.id)
    exact checkCondition_congr run.event rfl hsame job.condition
  · rw [hdeferred] at heager
    cases heager

end

/-- A workflow with the given jobs and a job `report` with `always()` that needs them. -/
def reportSource (others : List String) : WorkflowSource where
  dir := ""
  readDir _ := .ok []
  fetcher := some fun _ _ => .ok [{ name := "ci.yml", data := [] }]
  actionFetcher := none
  parse name _ := .ok
    { file := name
      name := name
      on := { push := some { branches := [], branchesIgnore := [] }, pullRequest := none, schedule := [] }
      jobs := others.map (Compiler.scriptJob · [] ∅) ++
        [{ Compiler.scriptJob "report" others ∅ with cond := "always()" }] }
  baseRef _ := ""

/-- A server with the workflow that reports. -/
def reportServer (others : List String) : Options where
  wiring := Wiring.unary
  src := reportSource others
  headFork _ := none

/-- Nothing fails, and the runs are visited in the order in which they were written. -/
def quietly : Circumstances where
  order _ := MapOrder.written RunID
  sweepTime _ := 0
  faults _ := DispatchFaults.none
  drainTime _ := 0

/-- Without faults `DispatchOnce` ends without an error, and no job that is ready is left unless it is claimed. -/
theorem dispatchOnce_drains (W : Wiring) (c : Circumstances) (w : Stores) (hreach : Reachable W w.durable)
    (hfaults : ∀ n, c.faults n = .none) :
    (dispatchOnce W c w).err = none ∧
      ∀ id job, (dispatchOnce W c w).stores.durable.jobs.lookup id = some job → job.status = .queued →
        (dispatchOnce W c w).stores.durable.isClaimed id = false →
        (dispatchOnce W c w).stores.durable.dependencyState id ≠ .depsReady := by
  obtain ⟨t, -, hskips, hnone, herr⟩ := drain_last (W := W) (w := swept c w) (P := fun _ => True) _ c.drainTime
    (fun _ _ _ _ => trivial) (inv_evaluateDeferredConditions c.order c.sweepTime (inv_reachable hreach)) trivial
    (Nat.lt_succ_self _) hfaults
  refine ⟨herr, fun id job hjob hq hfree hready => ?_⟩
  have hfree : t.isClaimed id = false := by
    rw [isClaimed, ← skips_claimed hskips]
    exact hfree
  -- the last claim came to the job and passed it
  have hpassed := passed_of_none hnone (skips_queued hskips hjob hq) hq hfree
  exact hpassed.not_ready ((skips_ready hskips id).mp hready)

/-- One pass over two jobs of which one needs the other. -/
theorem dispatchOnce_drains_skipOps :
    let w : Stores := ⟨afterOps Wiring.unary (skipOps.take 2), .new⟩
    (dispatchOnce Wiring.unary quietly w).moments.map (·.job.id) = ["ii"] ∧
      (dispatchOnce Wiring.unary quietly w).err = none :=
  ⟨by decide +kernel,
    (dispatchOnce_drains Wiring.unary quietly _ (reachable_afterOps _ (skipOps.take 2)) fun _ => rfl).1⟩

/-- A push creates the run, its jobs are dispatched, and `build` fails. -/
def buildFails : List Call :=
  [.ingest pushDelivery 0 (fun _ => 0), .dispatchOnce quietly, .applyObserved "ii" .failed 1]

/-- The server after these calls. -/
def afterCalls (opts : Options) (calls : List Call) : State := calls.foldl (Call.apply opts) State.new

theorem reaches_afterCalls (opts : Options) (calls : List Call) :
    Reaches opts (fun _ _ => True) (afterCalls opts calls) := by
  have hfold : ∀ st, Reaches opts (fun _ _ => True) st →
      Reaches opts (fun _ _ => True) (calls.foldl (Call.apply opts) st) := by
    induction calls with
    | nil => exact fun st h => h
    | cons call rest ih => exact fun st h => ih _ (h.tail ⟨call, trivial, rfl⟩)
  exact hfold _ .refl

/-- The server after a push with the jobs `build` and `report`, when `build` has failed. -/
def reportReady : State :=
  afterCalls (reportServer ["build"])
    [.ingest pushDelivery 0 (fun _ => 0), .applyObserved "ii" .failed 1]

theorem reportReady_reaches : Reaches (reportServer ["build"]) (Disciplined (reportServer ["build"])) reportReady := by
  have hingest : Disciplined (reportServer ["build"]) State.new (.ingest pushDelivery 0 (fun _ => 0)) := by
    refine ⟨fun record hrec => (by cases hrec), fun _ jobs hjobs _ => eagerSkips_of_true ?_⟩
    cases hjobs
    decide +kernel
  have hfirst : Reaches (reportServer ["build"]) (Disciplined (reportServer ["build"]))
      (afterCalls (reportServer ["build"]) [.ingest pushDelivery 0 (fun _ => 0)]) :=
    .tail .refl ⟨_, hingest, rfl⟩
  exact hfirst.tail ⟨.applyObserved "ii" .failed 1, trivial, rfl⟩

theorem reportReady_disciplined : Disciplined (reportServer ["build"]) reportReady (.dispatchOnce quietly) := by
  have hqueued : ∀ e ∈ (swept quietly reportReady.stores).durable.jobs.entries, e.2.status = .queued →
      e.2.condition ≠ "" ∧ isDeferredCondition e.2.condition ∧
        conditionReady ((swept quietly reportReady.stores).durable.jobsOf e.2.runID) e.2 ∧
        (∀ key ∈ e.2.dependsOn, ((swept quietly reportReady.stores).durable.indexed e.2.runID key).isSome) ∧
        ((swept quietly reportReady.stores).durable.runs.lookup e.2.runID).isSome := by
    decide +kernel
  have hlook : ∀ id job, (swept quietly reportReady.stores).durable.jobs.lookup id = some job →
      (⟨id, job⟩ : Sigma fun _ => JobRunRecord) ∈ (swept quietly reportReady.stores).durable.jobs.entries :=
    fun id job h => (GoMap.mem_entries_iff _ ⟨id, job⟩).mpr h
  intro id job hjob hq _ _
  obtain ⟨-, hdeferred, hready, hidx, hstored⟩ := hqueued _ (hlook id job hjob) hq
  obtain ⟨run, hrun⟩ := Option.isSome_iff_exists.mp hstored
  refine ⟨run, sound_of_ready (fun id job hj hq => ?_) hrun hdeferred hready hidx⟩
  exact (hqueued _ (hlook id job hj) hq).1

/-- The report of a failed build is dispatched properly. -/
theorem dispatchOnce_report :
    (dispatchOnce Wiring.unary quietly reportReady.stores).moments.map (·.job.jobKey) = ["report"] ∧
      ∀ m ∈ (dispatchOnce Wiring.unary quietly reportReady.stores).moments, DispatchedProperly m :=
  ⟨by decide +kernel, (dispatchOnce_proper (reportServer ["build"]) reportReady reportReady_reaches quietly
      reportReady_disciplined).1⟩

/-- When `build` has failed, `report` is dispatched although `lint` is only dispatched itself. -/
theorem dispatchOnce_open_dependency :
    let opts := reportServer ["build", "lint"]
    let st := afterCalls opts buildFails
    Reaches opts (fun _ _ => True) st ∧
      ∃ m ∈ (dispatchOnce opts.wiring quietly st.stores).moments,
        m.job.jobKey = "report" ∧ m.store.depStatus "i" "lint" = some .dispatched ∧
          ¬DispatchedProperly m := by
  refine ⟨reaches_afterCalls _ _, ?_⟩
  decide +kernel

end Forgelet.Server
