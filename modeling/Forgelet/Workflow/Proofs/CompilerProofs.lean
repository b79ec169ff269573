import Forgelet.Workflow.Proofs.TopoSortProofs

/-!
# Proofs: what `Compile` returns

The compiled jobs are the blocks of instances of the ordered jobs, one block per job. A job is needed by
its id, and only a job without a matrix has an instance whose key is its id.
-/

namespace Forgelet.Compiler

open Syntax DependencyOrder

theorem combos_ne_nil {matrix acc axes} (hacc : acc ≠ []) (haxes : ∀ axis ∈ axes, (matrix.lookup axis).getD [] ≠ []) :
    combos matrix acc axes ≠ [] := by
  induction axes generalizing acc with
  | nil => exact hacc
  | cons axis rest ih =>
    rw [List.forall_mem_cons] at haxes
    refine ih ?_ haxes.2
    obtain ⟨combo, hcombo⟩ := List.exists_mem_of_ne_nil acc hacc
    obtain ⟨value, hvalue⟩ := List.exists_mem_of_ne_nil _ haxes.1
    exact List.ne_nil_of_mem (List.mem_flatMap.mpr ⟨combo, hcombo, List.mem_map.mpr ⟨value, hvalue, rfl⟩⟩)

/-- There is an instance, with the needs of the job, and keys of its id with values in brackets. -/
structure InstancesOf (job : Job) (block : List JobInstance) : Prop where
  ne_nil : block ≠ []
  dependsOn : ∀ inst ∈ block, inst.dependsOn = job.needs
  plain : job.matrix.entries = [] → ∀ inst ∈ block, inst.key = job.id
  keyed : job.matrix.entries ≠ [] → ∀ inst ∈ block, ∃ values, inst.key = job.id ++ "[" ++ values ++ "]"

variable {job : Job} {ordered : List Job} {blocks : List (List JobInstance)}

theorem expandMatrix_instancesOf {inst block} (hkey : inst.key = job.id) (hdeps : inst.dependsOn = job.needs)
    (h : expandMatrix job inst = .ok block) : InstancesOf job block := by
  unfold expandMatrix at h
  by_cases hm : job.matrix.entries = []
  · rw [hm] at h
    cases h
    refine ⟨List.cons_ne_nil _ _, ?_, ?_, fun hne => absurd hm hne⟩
    · simpa using hdeps
    · simpa using fun _ => hkey
  · rw [if_neg (by simpa using hm)] at h
    cases hfind : job.matrix.entries.find? (·.2.isEmpty) with
    | some axis => rw [hfind] at h; cases h
    | none =>
      rw [hfind] at h
      cases h
      have haxes : ∀ axis ∈ job.matrix.keys.insertionSort (· ≤ ·), (job.matrix.lookup axis).getD [] ≠ [] := by
        intro axis haxis
        rw [List.mem_insertionSort] at haxis
        obtain ⟨values, hvalues⟩ := Option.isSome_iff_exists.mp (AList.lookup_isSome.mpr (AList.mem_keys.mpr haxis))
        have hentry := (GoMap.mem_entries_iff job.matrix ⟨axis, values⟩).mpr hvalues
        have := List.find?_eq_none.mp hfind _ hentry
        rw [hvalues]
        simpa using this
      refine ⟨?_, ?_, fun hnil => absurd hnil hm, fun _ inst' hinst' => ?_⟩
      · rw [Ne, List.map_eq_nil_iff]
        exact combos_ne_nil nofun haxes
      · intro inst' hinst'
        obtain ⟨combo, -, rfl⟩ := List.mem_map.mp hinst'
        exact hdeps
      · obtain ⟨combo, -, rfl⟩ := List.mem_map.mp hinst'
        exact ⟨_, rfl⟩

theorem compileJob_expands {file warnings warnings' block} (h : compileJob file warnings job = .ok (block, warnings')) :
    ∃ inst, inst.key = job.id ∧ inst.dependsOn = job.needs ∧ expandMatrix job inst = .ok block := by
  unfold compileJob at h
  dsimp only at h
  split_ifs at h
  split at h
  · cases h
  · split at h
    · cases h
    · rename_i hexp
      obtain ⟨rfl, -⟩ := Prod.mk.inj (Except.ok.inj h)
      exact ⟨_, rfl, rfl, hexp⟩

theorem compileJobs_blocks {file jobs out warnings warnings'}
    (h : compileJobs file jobs warnings ordered = .ok (out, warnings')) :
    ∃ blocks, List.Forall₂ InstancesOf ordered blocks ∧ out = jobs ++ blocks.flatten := by
  induction ordered generalizing jobs warnings with
  | nil =>
    obtain ⟨rfl, -⟩ := Prod.mk.inj (Except.ok.inj h)
    exact ⟨[], .nil, by simp⟩
  | cons job rest ih =>
    rw [compileJobs] at h
    cases hjob : compileJob file warnings job with
    | error err => rw [hjob] at h; cases h
    | ok r =>
      obtain ⟨block, warnings₁⟩ := r
      rw [hjob] at h
      obtain ⟨blocks, hblocks, rfl⟩ := ih h
      obtain ⟨inst, hkey, hdeps, hexpand⟩ := compileJob_expands hjob
      refine ⟨block :: blocks, .cons (expandMatrix_instancesOf hkey hdeps hexpand) hblocks, ?_⟩
      rw [List.flatten_cons, List.append_assoc]

theorem compile_ordered {wf out} (h : compile wf = .ok out) :
    ∃ ordered warnings, topoSort wf.jobs = .ok ordered ∧
      compileJobs wf.file [] [] ordered = .ok (out.jobs, warnings) := by
  unfold compile at h
  split_ifs at h
  cases hsort : topoSort wf.jobs with
  | error err => rw [hsort] at h; cases h
  | ok ordered =>
    rw [hsort] at h
    dsimp only at h
    cases hjobs : compileJobs wf.file [] [] ordered with
    | error err => rw [hjobs] at h; cases h
    | ok r =>
      rw [hjobs] at h
      cases h
      exact ⟨ordered, r.2, rfl, hjobs⟩

/-- The instances are the blocks of the jobs in dependency order, with distinct ids. -/
theorem compile_blocks {wf out} (h : compile wf = .ok out) :
    (wf.jobs.map (·.id)).Nodup ∧ ∃ ordered blocks, (∀ j, j ∈ ordered ↔ j ∈ wf.jobs) ∧
      InOrder Job.id Job.needs [] ordered ∧ List.Forall₂ InstancesOf ordered blocks ∧ out.jobs = blocks.flatten := by
  obtain ⟨ordered, warnings, hsort, hjobs⟩ := compile_ordered h
  obtain ⟨hnodup, horder, hmem⟩ := topoSort_ok hsort
  obtain ⟨blocks, hblocks, hout⟩ := compileJobs_blocks hjobs
  exact ⟨hnodup, ordered, blocks, hmem, horder, hblocks, hout⟩

theorem block_of_mem (h : List.Forall₂ InstancesOf ordered blocks) (hjob : job ∈ ordered) :
    ∃ block ∈ blocks, InstancesOf job block := by
  induction h with
  | nil => cases hjob
  | cons hfirst _ ih =>
    rcases List.mem_cons.mp hjob with rfl | hrest
    · exact ⟨_, (.head _), hfirst⟩
    · obtain ⟨block, hmem, hblock⟩ := ih hrest
      exact ⟨block, .tail _ hmem, hblock⟩

theorem job_of_mem (h : List.Forall₂ InstancesOf ordered blocks) {inst} (hinst : inst ∈ blocks.flatten) :
    ∃ job ∈ ordered, ∃ block, InstancesOf job block ∧ inst ∈ block := by
  induction h with
  | nil => cases hinst
  | cons hfirst _ ih =>
    rw [List.flatten_cons] at hinst
    rcases List.mem_append.mp hinst with hb | hrest
    · exact ⟨_, (.head _), _, hfirst, hb⟩
    · obtain ⟨job, hjob, hblock⟩ := ih hrest
      exact ⟨job, .tail _ hjob, hblock⟩

/-- A job needs one that has a matrix. -/
def NeedsMatrixJob (wf : Workflow) : Prop :=
  ∃ job ∈ wf.jobs, ∃ dep ∈ wf.jobs, dep.id ∈ job.needs ∧ dep.matrix.entries ≠ []

/-- Dependencies are keys of instances before. -/
def DependsOnEarlier (jobs : List JobInstance) : Prop :=
  ∀ pre inst post, jobs = pre ++ inst :: post → ∀ dep ∈ inst.dependsOn, ∃ inst' ∈ pre, inst'.key = dep

instance (jobs : List JobInstance) : Decidable (DependsOnEarlier jobs) :=
  decidable_of_iff (InOrder JobInstance.key JobInstance.dependsOn [] jobs) inOrder_nil_iff

/-- Blocks in dependency order are instances in order, if no needed job has a matrix. -/
theorem blocks_inOrder (h : List.Forall₂ InstancesOf ordered blocks) {seen keys}
    (horder : InOrder Job.id Job.needs seen ordered) (needed : List String)
    (hneeded : ∀ job ∈ ordered, job.needs ⊆ needed) (hseen : ∀ id ∈ seen, id ∈ needed → id ∈ keys)
    (hplain : ∀ job ∈ ordered, job.id ∈ needed → job.matrix.entries = []) :
    InOrder JobInstance.key JobInstance.dependsOn keys blocks.flatten := by
  induction h generalizing seen keys with
  | nil => trivial
  | @cons job block rest blocks hblock _ ih =>
    rw [List.forall_mem_cons] at hneeded hplain
    rw [List.flatten_cons, inOrder_append]
    refine ⟨inOrder_of_needs_seen fun inst hinst dep hdep => ?_, ih horder.2 hneeded.2 (fun id hid hin => ?_) hplain.2⟩
    · rw [hblock.dependsOn inst hinst] at hdep
      exact hseen dep (horder.1 dep hdep) (hneeded.1 hdep)
    · rcases List.mem_append.mp hid with hold | hnew
      · exact List.mem_append_left _ (hseen id hold hin)
      · -- a needed job has no matrix, so its instance has its id for a key
        rw [List.mem_singleton] at hnew
        subst hnew
        obtain ⟨inst, hinst⟩ := List.exists_mem_of_ne_nil block hblock.ne_nil
        refine List.mem_append_right _ (List.mem_map.mpr ⟨inst, hinst, ?_⟩)
        exact hblock.plain (hplain.1 hin) inst hinst

theorem not_mem_of_isIdentifierList {c} (hc : isIdentifierList false [c] = false) {first cs}
    (h : isIdentifierList first cs) : c ∉ cs := by
  induction cs generalizing first with
  | nil => exact List.not_mem_nil
  | cons d rest ih =>
    rw [isIdentifierList] at h
    rw [List.mem_cons, not_or]
    split_ifs at h with hletter hdigit hfirst
    · refine ⟨?_, ih h⟩
      rintro rfl
      simp [isIdentifierList, hletter] at hc
    · refine ⟨?_, ih h⟩
      rintro rfl
      simp [isIdentifierList, hdigit] at hc

theorem not_mem_of_isIdentifier {c} (hc : isIdentifierList false [c] = false) {s} (h : isIdentifier s) :
    c ∉ s.toList := by
  unfold isIdentifier at h
  split_ifs at h
  exact not_mem_of_isIdentifierList hc h

theorem not_isIdentifier_of_bracket {id values} : isIdentifier (id ++ "[" ++ values ++ "]") = false := by
  by_contra h
  rw [Bool.not_eq_false] at h
  exact not_mem_of_isIdentifier (c := '[') (by decide) h (by simp)

/-- Every dependency of an instance is the key of an earlier instance if no job needs a job with a matrix, and with
identifiers for job ids, as the parser has them, only then. -/
theorem compile_dependsOn_earlier {wf : Workflow} {out : Compiled} (h : compile wf = .ok out) :
    (¬ NeedsMatrixJob wf → DependsOnEarlier out.jobs) ∧ ((∀ job ∈ wf.jobs, isIdentifier job.id) →
        (DependsOnEarlier out.jobs ↔ ¬ NeedsMatrixJob wf)) := by
  obtain ⟨hnodup, ordered, blocks, hmem, horder, hblocks, hjobs⟩ := compile_blocks h
  have hif : ¬ NeedsMatrixJob wf → DependsOnEarlier out.jobs := by
    intro hnone
    refine inOrder_nil_iff.mp ?_
    rw [hjobs]
    refine blocks_inOrder hblocks horder (ordered.flatMap Job.needs)
      (fun job hjob dep hdep => List.mem_flatMap.mpr ⟨job, hjob, hdep⟩) (by simp) ?_
    intro dep hdep hneeded
    obtain ⟨job, hjob, hin⟩ := List.mem_flatMap.mp hneeded
    by_contra hm
    exact hnone ⟨job, (hmem _).mp hjob, dep, (hmem _).mp hdep, hin, hm⟩
  refine ⟨hif, fun hids => ⟨fun hearlier => ?_, hif⟩⟩
  rintro ⟨job, hjob, dep, hdep, hin, hm⟩
  -- an instance of the job depends on `dep.id`, so that an instance has this key
  obtain ⟨block, hblock, hof⟩ := block_of_mem hblocks ((hmem job).mpr hjob)
  obtain ⟨inst, hinst⟩ := List.exists_mem_of_ne_nil block hof.ne_nil
  have hout : inst ∈ out.jobs := hjobs ▸ List.mem_flatten.mpr ⟨block, hblock, hinst⟩
  obtain ⟨pre, post, hcut⟩ := List.append_of_mem hout
  obtain ⟨inst', hpre, hkey⟩ := hearlier pre inst post hcut dep.id (hof.dependsOn inst hinst ▸ hin)
  have hout' : inst' ∈ blocks.flatten := by
    rw [← hjobs, hcut]
    exact List.mem_append_left _ hpre
  obtain ⟨job', hjob', block', hof', hinst'⟩ := job_of_mem hblocks hout'
  by_cases hm' : job'.matrix.entries = []
  · have hid : job'.id = dep.id := (hof'.plain hm' inst' hinst').symm.trans hkey
    have hsame := List.inj_on_of_nodup_map hnodup ((hmem _).mp hjob') hdep hid
    exact hm (hsame ▸ hm')
  · obtain ⟨values, hvalues⟩ := hof'.keyed hm' inst' hinst'
    have := hids dep hdep
    rw [← hkey, hvalues, not_isIdentifier_of_bracket] at this
    cases this

/-- A job with one script. -/
def scriptJob (id : String) (needs : List String) (matrix : GoMap String (List String)) : Job where
  id := id
  name := ""
  runsOn := "linux"
  cond := ""
  needs := needs
  matrix := matrix
  env := none
  steps := [{ name := "", cond := "", run := "make", uses := "", inputs := ∅,
              continueOnError := false, env := none }]

/-- An instance of the job `test`. -/
def testInstance : JobInstance where
  key := "test"
  displayName := "test"
  runnerClass := "linux"
  cond := ""
  dependsOn := []
  matrix := none
  env := ∅
  steps := (scriptJob "test" [] ∅).steps.map runStep

/-- A job `release` that needs a job `test` with the given matrix. -/
def releaseWorkflow (matrix : GoMap String (List String)) : Workflow where
  file := "ci.yml"
  name := "ci"
  on := { push := some { branches := [], branchesIgnore := [] }, pullRequest := none, schedule := [] }
  jobs := [scriptJob "release" ["test"] ∅, scriptJob "test" [] matrix]

/-- The instances are `test[1.26]` and `test[1.27]`, and `release` waits for `test`. -/
theorem compile_matrix_dependsOn_missing :
    ∃ out, compile (releaseWorkflow ((∅ : GoMap String (List String)).insert "go" ["1.26", "1.27"])) = .ok out ∧
      out.jobs.map (fun inst => (inst.key, inst.dependsOn)) =
        [("test[1.26]", []), ("test[1.27]", []), ("release", ["test"])] ∧ ¬ DependsOnEarlier out.jobs := by
  refine ⟨_, rfl, rfl, ?_⟩
  decide

/-- Without a matrix `release` depends on the key of the instance before it. -/
theorem compile_dependsOn_earlier_release : ∃ out, compile (releaseWorkflow ∅) = .ok out ∧ DependsOnEarlier out.jobs ∧
      out.jobs.map (·.key) = ["test", "release"] := by
  have hcond : ¬ NeedsMatrixJob (releaseWorkflow ∅) := by
    rintro ⟨job, -, dep, hdep, -, hm⟩
    simp only [releaseWorkflow, List.mem_cons, List.not_mem_nil, or_false] at hdep
    rcases hdep with rfl | rfl <;> exact hm rfl
  exact ⟨_, rfl, (compile_dependsOn_earlier rfl).1 hcond, rfl⟩

end Forgelet.Compiler
