import Forgelet.Scheduler.Proofs.ScheduleProofs
import Forgelet.Server.Proofs.DispatchProofs
import Forgelet.Server.Schedule

/-!
# Proofs: the jobs of a scheduled run

A delivery of the scheduler stands for one cron expression of one file, but the source compiles every file that has any
schedule. The run has exactly the jobs of the file if and only if no other file with a schedule has jobs.
-/

namespace Forgelet

open Compiler (Compiled JobInstance)

namespace WorkflowSource

variable {src : WorkflowSource} {ev : Event} {payload : Payload} {files : List WorkflowFile}

theorem matchFiles_compiles {out jobs} (h : src.matchFiles ev payload out files = .ok jobs) :
    ∀ f ∈ files, ∃ c, src.compileFile f = .ok c := by
  induction files generalizing out with
  | nil => exact fun f hf => by cases hf
  | cons f rest ih =>
    rw [matchFiles] at h
    cases hparse : src.parse f.name f.data with
    | error err =>
      rw [hparse] at h
      cases h
    | ok wf =>
      rw [hparse] at h
      dsimp only at h
      cases hcompile : Compiler.compile wf with
      | error err =>
        rw [hcompile] at h
        cases h
      | ok c =>
        rw [hcompile] at h
        have hfile : src.compileFile f = .ok c := by
          rw [compileFile, hparse]
          exact hcompile
        exact List.forall_mem_cons.mpr ⟨⟨c, hfile⟩, ih h⟩

theorem compile_eq {intents} (hload : src.load ev.repository (refOf ev) = .ok files) (hname : ev.name = "schedule")
    (h : src.compile ev payload = .ok intents) :
    (∀ f ∈ files, ∃ c, src.compileFile f = .ok c) ∧
      intents = (files.flatMap (src.triggeredJobs ev payload)).map intentFor := by
  have hmatched : src.matchedJobs ev payload = src.matchFiles ev payload [] files := by
    rw [matchedJobs, if_neg (by simp [hname]), hload]
  have hall : ∀ f ∈ files, ∃ c, src.compileFile f = .ok c := by
    cases hfiles : src.matchFiles ev payload [] files with
    | error err =>
      rw [compile, hmatched, hfiles] at h
      cases h
    | ok jobs => exact matchFiles_compiles hfiles
  rw [compile, matchedJobs_ok hload hall] at h
  exact ⟨hall, (Except.ok.inj h).symm⟩

theorem triggeredJobs_schedule (hname : ev.name = "schedule") {f c} (hc : src.compileFile f = .ok c) :
    src.triggeredJobs ev payload f = if c.schedule = [] then [] else c.jobs := by
  rw [triggeredJobs, hc]
  dsimp only
  rw [triggers, hname]
  cases c.schedule <;> rfl

end WorkflowSource

namespace Server

open DurableStore Schedule

/-- The scheduled workflow comes from `f`; `before` and `after` are the other files. -/
structure DeclaredIn (src : WorkflowSource) (sw : ScheduledWorkflow) (before : List WorkflowFile)
    (f : WorkflowFile) (after : List WorkflowFile) : Prop where
  load : src.load sw.repository sw.ref = .ok (before ++ f :: after)
  name : f.name = sw.fileName
  cron : ∃ wf, src.parse f.name f.data = .ok wf ∧ sw.cron ∈ wf.on.schedule

theorem declaredIn_of_ofRepo {l : RepoSchedules} {r : ScheduledRepo} {found : List ScheduledWorkflow}
    (h : l.ofRepo r = .ok found) {sw : ScheduledWorkflow} (hsw : sw ∈ found) :
    ∃ before f after, DeclaredIn l.src sw before f after := by
  unfold RepoSchedules.ofRepo at h
  dsimp only at h
  split at h
  · cases h
  · rename_i ref _
    split at h
    · cases h
    · rename_i files hload
      cases h
      obtain ⟨f, hf, hsw⟩ := List.mem_flatMap.mp hsw
      unfold RepoSchedules.ofFile at hsw
      split at hsw
      · cases hsw
      · rename_i wf hparse
        obtain ⟨cron, hcron, rfl⟩ := List.mem_map.mp hsw
        obtain ⟨before, after, rfl⟩ := List.append_of_mem hf
        exact ⟨before, f, after, hload, rfl, wf, hparse, hcron⟩

theorem declaredIn_of_listLoop {l : RepoSchedules} {repos : List ScheduledRepo} {out sws : List ScheduledWorkflow}
    (h : l.listLoop out repos = .ok sws) {sw : ScheduledWorkflow} (hsw : sw ∈ sws) :
    sw ∈ out ∨ ∃ before f after, DeclaredIn l.src sw before f after := by
  induction repos generalizing out with
  | nil =>
    cases h
    exact .inl hsw
  | cons r rest ih =>
    rw [RepoSchedules.listLoop] at h
    cases hfound : l.ofRepo r with
    | error err =>
      rw [hfound] at h
      cases h
    | ok found =>
      rw [hfound] at h
      rcases ih h with hmem | hdeclared
      · exact (List.mem_append.mp hmem).imp_right (declaredIn_of_ofRepo hfound)
      · exact .inr hdeclared

variable {opts : Options} {st : State}

theorem moves_buildPlans (opts : Options) (d : Delivery) (r : RunID) (trust : TrustLevel) (skipTime : JobRunID → Time)
    (st : State) : Moves NotRequeued st.durable (buildPlans opts d r trust skipTime st).2.durable :=
  buildPlans_invariant (fun _ id now h => h.trans NotRequeued.trans (moves_observed _ id .skipped now)) r
    (Moves.refl NotRequeued.refl _)

theorem drafts_asCreated (W : Wiring) (r : RunID) (now : Time) (n : Nat) (intents : List JobIntent) :
    (drafts W r now n intents).map (·.asCreated) = drafts W r now n intents := by
  induction intents generalizing n with
  | nil => rfl
  | cons intent rest ih =>
    rw [drafts, List.map_cons, ih]
    rfl

/-- A run that `Ingest` adds has the jobs that the source compiled. -/
theorem ingest_created_jobs (hi : Inv opts.wiring st.durable) {d now} {skipTime : JobRunID → Time} {r}
    (hold : ¬st.durable.Stored r) (hnew : (ingest opts d now skipTime st).2.durable.Stored r) :
    ∃ payload intents, opts.src.compile d.event payload = .ok intents ∧
      ((ingest opts d now skipTime st).2.durable.jobsOf r).map (·.asCreated) =
        newJobs opts.wiring (st.durable.recordDelivery opts.wiring d).2 intents now ∧
      r = opts.wiring.ids.mint (st.durable.recordDelivery opts.wiring d).2.minted := by
  have hinv := inv_recordDelivery hi d
  have hold' : ¬(st.durable.recordDelivery opts.wiring d).2.Stored r := by
    unfold recordDelivery
    split <;> exact hold
  revert hnew
  refine ingest_cases (P := fun t => t.Stored r → ∃ payload intents, opts.src.compile d.event payload = .ok intents ∧
      (t.jobsOf r).map (·.asCreated) = newJobs opts.wiring (st.durable.recordDelivery opts.wiring d).2 intents now ∧
      r = opts.wiring.ids.mint (st.durable.recordDelivery opts.wiring d).2.minted) opts st d now skipTime
    (fun hnew => absurd hnew hold') (fun l hnew => absurd hnew hold') fun {r' _} hout hnew => ?_
  cases hout with
  | quiet nothing => exact absurd rfl (nothing r')
  | @created record intents stored recorded unbound compiled nonempty distinct =>
    have hmoves := moves_buildPlans opts d
      (opts.wiring.ids.mint (st.durable.recordDelivery opts.wiring d).2.minted) (trustFor opts d) skipTime
      (st.withDurable (committed opts.wiring (st.durable.recordDelivery opts.wiring d).2 record
        { delivery := d.key, event := d.event, jobs := intents } now))
    have hr : r = opts.wiring.ids.mint (st.durable.recordDelivery opts.wiring d).2.minted :=
      ((committed_stored r).mp (hmoves.rewritten.stored hnew)).resolve_right hold'
    refine ⟨record.payload, intents, compiled, ?_, hr⟩
    rw [hmoves.rewritten.map_asCreated, hr]
    exact (congrArg _ (committed_jobsOf_new hinv.minted)).trans (drafts_asCreated ..)

/-- The records are created from the jobs of `f` exactly if the other files give none. -/
theorem createdFrom_iff {r now mine before after recs} (h : CreatedFrom r now (before ++ (mine ++ after)) recs) :
    CreatedFrom r now mine recs ↔ before = [] ∧ after = [] := by
  constructor
  · intro hmine
    have hlen := h.length_eq
    rw [← hmine.length_eq, List.length_append, List.length_append] at hlen
    exact ⟨List.length_eq_zero_iff.mp (by omega), List.length_eq_zero_iff.mp (by omega)⟩
  · rintro ⟨rfl, rfl⟩
    rwa [List.append_nil] at h

/-- For a delivery of the scheduler, a new run has exactly the jobs of the file that the schedule comes from
if and only if no other file with a schedule has jobs. -/
theorem scheduled_jobs_iff (opts : Options) (repos : List ScheduledRepo)
    (defaultBranch : Option (RepositoryRef → Except Err String)) (sws : List ScheduledWorkflow)
    (hlist : RepoSchedules.list { repos := repos, src := opts.src, defaultBranch := defaultBranch } = .ok sws)
    (sw : ScheduledWorkflow) (hsw : sw ∈ sws) : (∃ before f after, DeclaredIn opts.src sw before f after) ∧
      ∀ before f after, DeclaredIn opts.src sw before f after →
        ∀ (latest now : Time) (skipTime : JobRunID → Time) (st : State) (r : RunID),
          Reachable opts.wiring st.durable → ¬st.durable.Stored r →
          (ingest opts (deliveryFor sw latest) now skipTime st).2.durable.Stored r →
          ∃ c, opts.src.compileFile f = .ok c ∧ (CreatedFrom r now c.jobs
                (((ingest opts (deliveryFor sw latest) now skipTime st).2.durable.jobsOf r).map (·.asCreated)) ↔
              ∀ g ∈ before ++ after, ∀ c', opts.src.compileFile g = .ok c' → c'.schedule ≠ [] → c'.jobs = []) := by
  refine ⟨(declaredIn_of_listLoop hlist hsw).resolve_left nofun, ?_⟩
  intro before f after hdeclared latest now skipTime st r hreach hold hnew
  obtain ⟨payload, intents, hcompile, hjobs, hr⟩ := ingest_created_jobs (inv_reachable hreach) hold hnew
  obtain ⟨hall, rfl⟩ := WorkflowSource.compile_eq hdeclared.load rfl hcompile
  obtain ⟨wf, hparse, hcron⟩ := hdeclared.cron
  obtain ⟨c, hc⟩ := hall f (List.mem_append_right _ (.head _))
  have hmine : opts.src.triggeredJobs (deliveryFor sw latest).event payload f = c.jobs := by
    have hne : c.schedule ≠ [] := by
      have hsame : c.schedule = wf.on.schedule := by
        rw [WorkflowSource.compileFile, hparse] at hc
        dsimp only at hc
        unfold Compiler.compile at hc
        repeat' split at hc
        all_goals cases hc
        rfl
      rw [hsame]
      exact List.ne_nil_of_mem hcron
    rw [WorkflowSource.triggeredJobs_schedule rfl hc, if_neg hne]
  have hcreated := drafts_intentFor opts.wiring r now
    ((st.durable.recordDelivery opts.wiring (deliveryFor sw latest)).2.minted + 1)
    ((before ++ f :: after).flatMap (opts.src.triggeredJobs (deliveryFor sw latest).event payload))
  rw [List.flatMap_append, List.flatMap_cons, hmine] at hcreated
  refine ⟨c, hc, ?_⟩
  rw [hjobs, newJobs, ← hr, List.flatMap_append, List.flatMap_cons, hmine, createdFrom_iff hcreated,
    ← List.append_eq_nil_iff, ← List.flatMap_append, List.flatMap_eq_nil_iff]
  -- the other files compiled as well, and those with a schedule were triggered
  refine forall₂_congr fun g hg => ?_
  have hmem : g ∈ before ++ f :: after := by
    rcases List.mem_append.mp hg with hg | hg
    · exact List.mem_append_left _ hg
    · exact List.mem_append_right _ (.tail _ hg)
  obtain ⟨c', hc'⟩ := hall g hmem
  rw [WorkflowSource.triggeredJobs_schedule rfl hc']
  constructor
  · intro hnone c'' hc'' hne
    obtain rfl := Except.ok.inj (hc'.symm.trans hc'')
    rwa [if_neg hne] at hnone
  · intro hnone
    split
    · rfl
    · rename_i hne
      exact hnone c' hc' hne

/-- `nightly.yml` runs every hour and `weekly.yml` as given. -/
def cronSource (weekly : List String) : WorkflowSource where
  dir := ""
  readDir _ := .ok []
  fetcher := some fun _ _ => .ok [{ name := "nightly.yml", data := [] }, { name := "weekly.yml", data := [] }]
  actionFetcher := none
  parse name _ := .ok
    { file := name
      name := name
      on :=
        { push := none
          pullRequest := none
          schedule := if name = "nightly.yml" then ["0 * * * *"] else weekly }
      jobs := [Compiler.scriptJob (if name = "nightly.yml" then "nightly" else "weekly") [] ∅] }
  baseRef _ := ""

/-- A server with the scheduled workflows. -/
def cronServer (weekly : List String) : Options where
  wiring := Wiring.unary
  src := cronSource weekly
  headFork _ := none

/-- Its schedules. -/
def cronSchedules (weekly : List String) : RepoSchedules where
  repos := [{ owner := "acme", name := "app" }]
  src := cronSource weekly
  defaultBranch := some fun _ => .ok "main"

/-- Without a schedule of its own, the other file has no part in the run. -/
theorem scheduled_jobs_alone : ∃ c, (cronSource []).compileFile { name := "nightly.yml", data := [] } = .ok c ∧
      CreatedFrom "i" 0 c.jobs
        (((ingest (cronServer []) (deliveryFor nightly 3600000000000) 0 (fun _ => 0) State.new).2.durable.jobsOf
          "i").map (·.asCreated)) := by
  have hiff := (scheduled_jobs_iff (cronServer []) [{ owner := "acme", name := "app" }]
    (some fun _ => .ok "main") _ rfl nightly (by decide)).2
  have hdeclared : DeclaredIn (cronSource []) nightly [] { name := "nightly.yml", data := [] }
      [{ name := "weekly.yml", data := [] }] :=
    { load := rfl
      name := rfl
      cron := ⟨_, rfl, by decide⟩ }
  obtain ⟨c, hc, hjobs⟩ := hiff _ _ _ hdeclared 3600000000000 0 (fun _ => 0) State.new "i" .refl
    (by rintro ⟨run, hrun⟩; cases hrun) ⟨_, rfl⟩
  refine ⟨c, hc, hjobs.mpr fun g hg c' hc' hne => ?_⟩
  rw [List.nil_append, List.mem_singleton] at hg
  rw [hg] at hc'
  cases hc'
  exact absurd rfl hne

/-- Only the schedule of `nightly.yml` has fired, and the run has a job of `weekly.yml`. -/
theorem scheduled_jobs_shared : ∃ r, scheduleOnce (cronServer ["0 0 * * 0"]) (cronSchedules ["0 0 * * 0"])
        (fun cron => if cron = "0 * * * *" then some hourly else some never) 5 3600000000000 (fun _ => 0)
        (fun _ _ => 0) ∅ State.new = some r ∧
      r.attempts = [{ now := 3600000000000, workflow := nightly, latest := 3600000000000, emitted := true }] ∧
      (r.world.durable.jobsOf "i").map (·.jobKey) = ["nightly", "weekly"] :=
  ⟨_, rfl, rfl, rfl⟩

end Server

end Forgelet
