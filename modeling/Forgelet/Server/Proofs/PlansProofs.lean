import Forgelet.Server.Server
import Forgelet.Store.Proofs.ReachableProofs
import Forgelet.Workflow.Proofs.CompilerProofs

/-!
# Proofs: the jobs of an event and their plans

`matchedJobs` concatenates the jobs of all the files an event triggers. Its keys are distinct exactly when no two of
these files share one, and then each job of a run gets the plan of the instance it was created from: `buildPlans` finds
the instance again by its key.
-/

namespace Forgelet

open Compiler (Compiled JobInstance)
open DurableStore

variable {rec : JobRunRecord} {inst : JobInstance} {now : Time}

namespace WorkflowSource

variable {src : WorkflowSource} {ev : Event} {payload : Payload} {files : List WorkflowFile}

/-- A workflow file, parsed and compiled. -/
def compileFile (src : WorkflowSource) (f : WorkflowFile) : Except Err Compiled :=
  match src.parse f.name f.data with
  | .error err => .error err
  | .ok wf => Compiler.compile wf

/-- The jobs of a file that the event starts. -/
def triggeredJobs (src : WorkflowSource) (ev : Event) (payload : Payload) (f : WorkflowFile) :
    List JobInstance :=
  match src.compileFile f with
  | .error _ => []
  | .ok c => if src.triggers ev payload c then c.jobs else []

/-- No two of the files an event triggers have an instance key in common. -/
def NoSharedKeys (src : WorkflowSource) (ev : Event) (payload : Payload)
    (files : List WorkflowFile) : Prop :=
  files.Pairwise fun f g =>
    ∀ x ∈ src.triggeredJobs ev payload f, ∀ y ∈ src.triggeredJobs ev payload g, x.key ≠ y.key

instance : Decidable (NoSharedKeys src ev payload files) :=
  inferInstanceAs (Decidable (files.Pairwise fun f g =>
    ∀ x ∈ src.triggeredJobs ev payload f, ∀ y ∈ src.triggeredJobs ev payload g, x.key ≠ y.key))

theorem matchFiles_ok (hall : ∀ f ∈ files, ∃ c, src.compileFile f = .ok c) (out : List JobInstance) :
    src.matchFiles ev payload out files = .ok (out ++ files.flatMap (src.triggeredJobs ev payload)) := by
  induction files generalizing out with
  | nil => simp [matchFiles]
  | cons f rest ih =>
    rw [List.forall_mem_cons] at hall
    obtain ⟨⟨c, hc⟩, hrest⟩ := hall
    have htriggered : src.triggeredJobs ev payload f =
        if src.triggers ev payload c then c.jobs else [] := by
      rw [triggeredJobs, hc]
    rw [matchFiles]
    rw [compileFile] at hc
    cases hparse : src.parse f.name f.data with
    | error err => rw [hparse] at hc; cases hc
    | ok wf =>
      rw [hparse] at hc
      dsimp only at hc ⊢
      rw [hc]
      dsimp only
      rw [ih hrest, List.flatMap_cons, htriggered]
      by_cases ht : src.triggers ev payload c
      · rw [if_pos ht, if_pos ht, List.append_assoc]
      · rw [if_neg ht, if_neg ht, List.nil_append]

theorem matchedJobs_ok (hload : src.load ev.repository (refOf ev) = .ok files)
    (hall : ∀ f ∈ files, ∃ c, src.compileFile f = .ok c) :
    src.matchedJobs ev payload = .ok (files.flatMap (src.triggeredJobs ev payload)) := by
  rw [matchedJobs]
  by_cases hkind : ev.name ≠ "push" ∧ ev.name ≠ "pull_request" ∧ ev.name ≠ "schedule"
  · rw [if_pos hkind]
    have hnone : files.flatMap (src.triggeredJobs ev payload) = [] := by
      rw [List.flatMap_eq_nil_iff]
      intro f hf
      obtain ⟨c, hc⟩ := hall f hf
      simp [triggeredJobs, hc, triggers, hkind]
    rw [hnone]
  · rw [if_neg hkind, hload]
    dsimp only
    rw [matchFiles_ok hall, List.nil_append]

theorem nodup_keys_iff (hown : ∀ f ∈ files, ((src.triggeredJobs ev payload f).map (·.key)).Nodup) :
    ((files.flatMap (src.triggeredJobs ev payload)).map (·.key)).Nodup ↔
      NoSharedKeys src ev payload files := by
  rw [List.map_flatMap, List.nodup_flatMap, NoSharedKeys]
  constructor
  · rintro ⟨-, hdisjoint⟩
    refine hdisjoint.imp fun {f g} h x hx y hy heq => ?_
    exact h (List.mem_map_of_mem hx) (heq ▸ List.mem_map_of_mem hy)
  · intro hshared
    refine ⟨hown, hshared.imp fun {f g} h k hk hk' => ?_⟩
    obtain ⟨x, hx, rfl⟩ := List.mem_map.mp hk
    obtain ⟨y, hy, heq⟩ := List.mem_map.mp hk'
    exact h x hx y hy heq.symm

end WorkflowSource

namespace Server

variable {opts : Options} {d : Delivery} {trust : TrustLevel} {skipTime : JobRunID → Time}
  {jobs : List JobInstance} {runs : List JobRunRecord} {st : State}

/-- What the body of the loop does for a job whose instance is `inst`. -/
inductive PlanOutcome (opts : Options) (d : Delivery) (trust : TrustLevel)
    (skipTime : JobRunID → Time) (runs : List JobRunRecord) (st : State) (rec : JobRunRecord)
    (inst : JobInstance) : Except Err Unit × State → Prop
  | failed {err} : PlanOutcome opts d trust skipTime runs st rec inst (.error err, st)
  | skipped (eager : eagerDecision d.event rec runs inst = .ok false) :
      PlanOutcome opts d trust skipTime runs st rec inst
        (.ok (), st.withDurable (st.durable.applyObserved rec.id .skipped (skipTime rec.id)).2)
  | stored {p} (eager : eagerDecision d.event rec runs inst = .ok true)
      (built : buildPlan opts.src rec d.event inst = .ok p) :
      PlanOutcome opts d trust skipTime runs st rec inst
        (.ok (), { st with
          plans := st.plans.insert rec.id p
          trust := st.trust.insert rec.id trust })

theorem buildPlan_jobRunID {src ev p} (h : buildPlan src rec ev inst = .ok p) : p.jobRunID = rec.id := by
  rw [buildPlan] at h
  dsimp only at h
  split at h
  · cases h
  · cases h
    rfl

theorem applyObserved_error {s s' : DurableStore} {id : JobRunID} {phase : ObservedPhase} {err : Err}
    (h : s.applyObserved id phase now = (.error err, s')) : s' = s := by
  unfold applyObserved at h
  split at h
  · cases h
    rfl
  · repeat' split at h
    all_goals cases h

variable (opts d trust skipTime runs st) in
theorem planJob_outcome (hfind : jobs.find? (·.key = rec.jobKey) = some inst) :
    PlanOutcome opts d trust skipTime runs st rec inst (planJob opts d trust skipTime jobs runs st rec) := by
  rw [planJob, hfind]
  dsimp only
  cases heager : eagerDecision d.event rec runs inst with
  | error err => exact .failed
  | ok run =>
    cases run with
    | false =>
      rw [projectObserved]
      cases hobs : st.durable.applyObserved rec.id .skipped (skipTime rec.id) with
      | mk result s =>
        cases result with
        | error err =>
          rw [applyObserved_error hobs]
          exact .failed
        | ok _ =>
          have hs : s = (st.durable.applyObserved rec.id .skipped (skipTime rec.id)).2 := by
            rw [hobs]
          rw [hs]
          exact .skipped heager
    | true =>
      rw [storePlan]
      cases hbuild : buildPlan opts.src rec d.event inst with
      | error err => exact .failed
      | ok p =>
        dsimp only
        cases p.digestError with
        | some err => exact .failed
        | none =>
          rw [buildPlan_jobRunID hbuild]
          exact .stored heager hbuild

/-- The plan of the instance is stored, unless its condition is false or `buildPlans` ended before. -/
inductive JobPlan (opts : Options) (d : Delivery) (runs : List JobRunRecord)
    (before : GoMap JobRunID Plan) (out : Except Err Unit × State) (inst : JobInstance)
    (rec : JobRunRecord) : Prop
  | stored {p} (eager : eagerDecision d.event rec runs inst = .ok true)
      (built : buildPlan opts.src rec d.event inst = .ok p)
      (found : out.2.plans.lookup rec.id = some p)
  | skipped (eager : eagerDecision d.event rec runs inst = .ok false)
      (kept : out.2.plans.lookup rec.id = before.lookup rec.id)
  | ended (failed : ∃ err, out.1 = .error err)
      (kept : out.2.plans.lookup rec.id = before.lookup rec.id)

theorem JobPlan.keep {before before' out} (h : JobPlan opts d runs before out inst rec)
    (hkept : before.lookup rec.id = before'.lookup rec.id) : JobPlan opts d runs before' out inst rec := by
  cases h with
  | stored eager built found => exact .stored eager built found
  | skipped eager kept => exact .skipped eager (kept.trans hkept)
  | ended failed kept => exact .ended failed (kept.trans hkept)

/-- The plans of jobs that the loop does not visit stay as they are. -/
theorem planJobs_other {rest} (hfound : ∀ rec ∈ rest, ∃ inst, jobs.find? (·.key = rec.jobKey) = some inst) {id}
    (hid : ∀ rec ∈ rest, rec.id ≠ id) :
    (planJobs opts d trust skipTime jobs runs st rest).2.plans.lookup id = st.plans.lookup id := by
  induction rest generalizing st with
  | nil => rfl
  | cons rec rest ih =>
    rw [List.forall_mem_cons] at hfound hid
    obtain ⟨⟨inst, hinst⟩, hfound⟩ := hfound
    rw [planJobs]
    have hout := planJob_outcome opts d trust skipTime runs st hinst
    generalize planJob opts d trust skipTime jobs runs st rec = out at hout
    cases hout with
    | failed => rfl
    | skipped eager =>
      rw [ih hfound hid.2]
      rfl
    | stored eager built =>
      rw [ih hfound hid.2]
      rw [GoMap.lookup_insert_ite, if_neg (Ne.symm hid.1)]

theorem planJobs_jobPlan {rest} (hfound : ∀ rec ∈ rest, ∃ inst, jobs.find? (·.key = rec.jobKey) = some inst)
    (hids : (rest.map (·.id)).Nodup) (hrec : rec ∈ rest) (hinst : jobs.find? (·.key = rec.jobKey) = some inst) :
    JobPlan opts d runs st.plans (planJobs opts d trust skipTime jobs runs st rest) inst rec := by
  induction rest generalizing st with
  | nil => cases hrec
  | cons first rest ih =>
    rw [List.forall_mem_cons] at hfound
    obtain ⟨⟨inst', hinst'⟩, hfound⟩ := hfound
    rw [List.map_cons, List.nodup_cons] at hids
    have hother : ∀ r ∈ rest, r.id ≠ first.id := fun r hr heq =>
      hids.1 (heq ▸ List.mem_map_of_mem hr)
    rw [planJobs]
    have hout := planJob_outcome opts d trust skipTime runs st hinst'
    generalize planJob opts d trust skipTime jobs runs st first = out at hout
    rcases List.mem_cons.mp hrec with rfl | hmem
    · -- the job itself: the rest of the loop leaves its plan alone
      obtain rfl : inst' = inst := Option.mem_unique hinst' hinst
      cases hout with
      | failed => exact .ended ⟨_, rfl⟩ rfl
      | skipped eager => exact .skipped eager (planJobs_other hfound hother)
      | stored eager built =>
        refine .stored eager built ?_
        rw [planJobs_other hfound hother]
        exact AList.lookup_insert st.plans
    · have hne : rec.id ≠ first.id := hother rec hmem
      cases hout with
      | failed => exact .ended ⟨_, rfl⟩ rfl
      | skipped eager =>
        exact (ih hfound hids.2 hmem).keep rfl
      | stored eager built =>
        -- what the first job stored is under another id
        refine (ih hfound hids.2 hmem).keep ?_
        rw [GoMap.lookup_insert_ite, if_neg hne]

/-- The seed of a run for the job instances `jobs`. -/
def seedFor (d : Delivery) (jobs : List JobInstance) : RunSeed where
  delivery := d.key
  event := d.event
  jobs := jobs.map intentFor

/-- The jobs of a new run are created from the instances, in order. -/
theorem drafts_intentFor (W : Wiring) (r : RunID) (now : Time) (n : Nat) (jobs : List JobInstance) :
    List.Forall₂ (fun inst rec => rec = newJob rec.id r (intentFor inst) now) jobs
      (drafts W r now n (jobs.map intentFor)) := by
  induction jobs generalizing n with
  | nil => exact .nil
  | cons inst rest ih => exact .cons rfl (ih (n + 1))

theorem find_key_of_nodup (hnodup : (jobs.map (·.key)).Nodup) (hmem : inst ∈ jobs) :
    jobs.find? (·.key = inst.key) = some inst := by
  induction jobs with
  | nil => cases hmem
  | cons first rest ih =>
    rw [List.map_cons, List.nodup_cons] at hnodup
    rcases List.mem_cons.mp hmem with rfl | hrest
    · simp
    · have hne : first.key ≠ inst.key := fun heq => hnodup.1 (heq ▸ List.mem_map_of_mem hrest)
      rw [List.find?_cons_of_neg (by simpa using hne)]
      exact ih hnodup.2 hrest

/-- The records of a new run, each beside its instance. -/
def CreatedFrom (r : RunID) (now : Time) (jobs : List JobInstance) (recs : List JobRunRecord) : Prop :=
  List.Forall₂ (fun inst rec => rec = DurableStore.newJob rec.id r (intentFor inst) now) jobs recs

/-- `buildPlans` finds the instance of a job again by its key. -/
theorem find_created {r} (hkeys : (jobs.map (·.key)).Nodup) (hmem : inst ∈ jobs)
    (hrec : rec = newJob rec.id r (intentFor inst) now) : jobs.find? (·.key = rec.jobKey) = some inst := by
  have hkey : rec.jobKey = inst.key := by
    rw [hrec]
    rfl
  rw [hkey]
  exact find_key_of_nodup hkeys hmem

theorem CreatedFrom.of_mem_zip {r recs} (h : CreatedFrom r now jobs recs) (hz : (inst, rec) ∈ jobs.zip recs) :
    inst ∈ jobs ∧ rec = newJob rec.id r (intentFor inst) now :=
  ⟨(List.of_mem_zip hz).1, (List.forall₂_iff_zip.mp h).2 hz⟩

theorem CreatedFrom.mem_zip {r recs} (h : CreatedFrom r now jobs recs) (hrec : rec ∈ recs) :
    ∃ inst, (inst, rec) ∈ jobs.zip recs := by
  obtain ⟨i, hi, rfl⟩ := List.getElem_of_mem hrec
  have hlen := h.length_eq
  refine ⟨jobs[i], ?_⟩
  rw [List.mem_iff_getElem]
  exact ⟨i, by rw [List.length_zip]; omega, List.getElem_zip⟩

theorem map_intentFor_jobKey (jobs : List JobInstance) : (jobs.map intentFor).map (·.jobKey) = jobs.map (·.key) := by
  rw [List.map_map]
  rfl

/-- For a run that was just created from `jobs`, `buildPlans` loops over the new jobs. -/
theorem buildPlans_committed {s} (hm : Minted opts.wiring s)
    (hmatched : opts.src.matchedJobs d.event d.payload = .ok jobs) {record}
    (hst : st.durable = committed opts.wiring s record (seedFor d jobs) now) :
    buildPlans opts d (opts.wiring.ids.mint s.minted) trust skipTime st = planJobs opts d trust skipTime jobs
        (newJobs opts.wiring s (jobs.map intentFor) now) st
        (newJobs opts.wiring s (jobs.map intentFor) now) := by
  rw [buildPlans, hmatched]
  rw [listJobRuns, hst, committed_run, if_pos rfl]
  rw [committed_jobsOf_new hm]
  rfl

/-- In every run from `jobs`, the `i`-th job has the plan of the `i`-th instance. -/
def PlansFollow (opts : Options) (d : Delivery) (jobs : List JobInstance) : Prop :=
  ∀ (st : State) (now : Time) (run : RunRecord) (s : DurableStore) (trust : TrustLevel)
    (skipTime : JobRunID → Time), DurableStore.Reachable opts.wiring st.durable →
    st.durable.createRun opts.wiring (seedFor d jobs) now = (.ok (run, true), s) →
    List.Forall₂
      (fun inst rec => rec = DurableStore.newJob rec.id run.id (intentFor inst) now ∧
        JobPlan opts d (s.jobsOf run.id) st.plans
          (buildPlans opts d run.id trust skipTime (st.withDurable s)) inst rec)
      jobs (s.jobsOf run.id)

theorem plansFollow_of_matched (hmatched : opts.src.matchedJobs d.event d.payload = .ok jobs) :
    PlansFollow opts d jobs := by
  intro st now run s trust skipTime hreach hcreate
  have hm := (inv_reachable hreach).minted
  have hout := createRun_outcome opts.wiring st.durable (seedFor d jobs) now
  rw [hcreate] at hout
  cases hout with
  | @created record recorded unbound nonempty distinct =>
    set r := opts.wiring.ids.mint st.durable.minted with hr
    have hid : (newRun opts.wiring st.durable (seedFor d jobs) now).id = r := rfl
    rw [hid, committed_jobsOf_new hm]
    set recs := newJobs opts.wiring st.durable (jobs.map intentFor) now
    have hkeys : (jobs.map (·.key)).Nodup := by
      rw [← map_intentFor_jobKey]
      exact distinct
    have hcreated : CreatedFrom r now jobs recs := drafts_intentFor opts.wiring r now _ jobs
    have hfound : ∀ rec ∈ recs, ∃ inst, jobs.find? (·.key = rec.jobKey) = some inst := by
      intro rec hrec
      obtain ⟨inst, hz⟩ := hcreated.mem_zip hrec
      obtain ⟨hinst, hjob⟩ := hcreated.of_mem_zip hz
      exact ⟨inst, find_created hkeys hinst hjob⟩
    have hloop : buildPlans opts d r trust skipTime (st.withDurable
        (committed opts.wiring st.durable record (seedFor d jobs) now)) =
        planJobs opts d trust skipTime jobs recs (st.withDurable
          (committed opts.wiring st.durable record (seedFor d jobs) now)) recs :=
      buildPlans_committed hm hmatched rfl
    rw [hloop]
    have hids : (recs.map (·.id)).Nodup := drafts_ids_nodup ..
    refine List.forall₂_iff_zip.mpr ⟨hcreated.length_eq, fun {inst rec} hz => ?_⟩
    obtain ⟨hinst, hjob⟩ := hcreated.of_mem_zip hz
    refine ⟨hjob, ?_⟩
    exact (planJobs_jobPlan hfound hids (List.of_mem_zip hz).2 (find_created hkeys hinst hjob)).keep rfl

/-- The jobs an event triggers have distinct keys and get the plans of their own instances exactly when no two of the
triggered files have an instance key in common. -/
theorem matchedJobs_planned_iff (opts : Options) (d : Delivery) (files : List WorkflowFile)
    (hload : opts.src.load d.event.repository (WorkflowSource.refOf d.event) = .ok files)
    (hown : ∀ f ∈ files, ∃ c, opts.src.compileFile f = .ok c ∧ (c.jobs.map (·.key)).Nodup) :
    ∃ jobs, opts.src.matchedJobs d.event d.payload = .ok jobs ∧ (((jobs.map (·.key)).Nodup ∧ PlansFollow opts d jobs) ↔
        opts.src.NoSharedKeys d.event d.payload files) := by
  have hall : ∀ f ∈ files, ∃ c, opts.src.compileFile f = .ok c := by
    intro f hf
    obtain ⟨c, hc, -⟩ := hown f hf
    exact ⟨c, hc⟩
  have hdistinct : ∀ f ∈ files, ((opts.src.triggeredJobs d.event d.payload f).map (·.key)).Nodup := by
    intro f hf
    obtain ⟨c, hc, hnodup⟩ := hown f hf
    rw [WorkflowSource.triggeredJobs, hc]
    dsimp only
    split
    · exact hnodup
    · exact List.nodup_nil
  have hmatched : opts.src.matchedJobs d.event d.payload = .ok _ :=
    WorkflowSource.matchedJobs_ok hload hall
  refine ⟨_, hmatched, ?_⟩
  rw [WorkflowSource.nodup_keys_iff hdistinct]
  exact ⟨And.left, fun h => ⟨h, plansFollow_of_matched hmatched⟩⟩

/-- Two workflow files. -/
def ciFiles : List WorkflowFile := [{ name := "ci.yml", data := [] }, { name := "lint.yml", data := [] }]

/-- Two files that a push triggers, with the jobs `build` and `second`. -/
def ciSource (second : String) : WorkflowSource where
  dir := ""
  readDir _ := .ok []
  fetcher := some fun _ _ => .ok ciFiles
  actionFetcher := none
  parse name _ := .ok
    { file := name
      name := name
      on := { push := some { branches := [], branchesIgnore := [] }, pullRequest := none, schedule := [] }
      jobs := [Compiler.scriptJob (if name = "ci.yml" then "build" else second) [] ∅] }
  baseRef _ := ""

/-- A server with the two files. -/
def ciServer (second : String) : Options where
  wiring := Wiring.unary
  src := ciSource second
  headFork _ := none

/-- With two jobs called `build` the delivery is rejected without a run. -/
theorem matchedJobs_shared_key :
    (∀ f ∈ ciFiles, ∃ c, (ciSource "build").compileFile f = .ok c ∧ (c.jobs.map (·.key)).Nodup) ∧
      (∃ jobs, (ciSource "build").matchedJobs DurableStore.pushEvent [] = .ok jobs ∧
        jobs.map (·.key) = ["build", "build"] ∧ ¬(jobs.map (·.key)).Nodup) ∧
      (∃ err, (ingest (ciServer "build") DurableStore.pushDelivery 0 (fun _ => 0) State.new).1 = .error err) ∧
      (ingest (ciServer "build") DurableStore.pushDelivery 0 (fun _ => 0) State.new).2.durable.runs = ∅ := by
  refine ⟨?_, ⟨_, rfl, rfl, by decide⟩, ⟨_, rfl⟩, by decide⟩
  intro f hf
  simp only [ciFiles, List.mem_cons, List.not_mem_nil, or_false] at hf
  rcases hf with rfl | rfl
  · exact ⟨_, rfl, by decide⟩
  · exact ⟨_, rfl, by decide⟩

/-- With jobs of different names the two files give one run with their plans. -/
theorem matchedJobs_planned_distinct : (ciSource "lint").NoSharedKeys DurableStore.pushEvent [] ciFiles ∧
      ∃ jobs, (ciSource "lint").matchedJobs DurableStore.pushEvent [] = .ok jobs ∧
        (jobs.map (·.key)).Nodup ∧ PlansFollow (ciServer "lint") DurableStore.pushDelivery jobs := by
  have hshared : (ciSource "lint").NoSharedKeys pushEvent [] ciFiles := by decide
  have hown : ∀ f ∈ ciFiles, ∃ c, (ciSource "lint").compileFile f = .ok c ∧ (c.jobs.map (·.key)).Nodup := by
    intro f hf
    simp only [ciFiles, List.mem_cons, List.not_mem_nil, or_false] at hf
    rcases hf with rfl | rfl
    · exact ⟨_, rfl, by decide⟩
    · exact ⟨_, rfl, by decide⟩
  obtain ⟨jobs, hmatched, hiff⟩ :=
    matchedJobs_planned_iff (ciServer "lint") pushDelivery ciFiles rfl hown
  exact ⟨hshared, jobs, hmatched, hiff.mpr hshared⟩

end Server

end Forgelet
