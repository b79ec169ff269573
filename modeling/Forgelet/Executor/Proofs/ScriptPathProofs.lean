import Forgelet.Executor.Proofs.RoutingProofs

/-!
# Proofs: the scripts of the steps

A script is written to a file that is named after its step. The name is free text, and the elements that it makes of a
path may lead to another directory.
-/

namespace Forgelet.Executor

open Bytes (ofString byte)
open Compiler (JobInstance)
open Path (slash Name trail isAbs)
open Server (buildPlan origins)

/-- The path is that of a file in the directory. -/
def DirectChild (dir path : Bytes) : Prop :=
  isAbs path = isAbs dir ∧ ∃ name, Name name ∧ trail path = name :: trail dir

/-- `Run` writes a script for the step. -/
def IsScript (step : PlanStep) : Prop := step.js = none ∧ step.composite = false ∧ step.builtin = none

instance : DecidablePred IsScript := fun step =>
  inferInstanceAs (Decidable (step.js = none ∧ step.composite = false ∧ step.builtin = none))

/-- The directory for scripts, in the work directory. -/
def metadataName : Bytes := ofString ".forgelet"

/-- The elements that the name of a script makes of its path. -/
def scriptElements (id : Bytes) : List Bytes := (ofString "step-" ++ id ++ ofString ".sh").splitOn slash

/-- The elements lead to a file in the directory that they start from, without leaving the workspace. -/
def staysInDirectory (id : Bytes) : Bool :=
  match (scriptElements id).foldlM Path.enterInside [metadataName] with
  | some [name, dir] => decide (Name name ∧ dir = metadataName)
  | _ => false

theorem staysInDirectory_iff {id : Bytes} : staysInDirectory id ↔ ∃ name, Name name ∧
      (scriptElements id).foldlM Path.enterInside [metadataName] = some [name, metadataName] := by
  unfold staysInDirectory
  split
  · rename_i name dir heq
    rw [decide_eq_true_iff, heq]
    constructor
    · rintro ⟨hname, rfl⟩
      exact ⟨name, hname, rfl⟩
    · rintro ⟨name', hname, hsome⟩
      cases hsome
      exact ⟨hname, rfl⟩
  · rename_i hother
    constructor
    · exact nofun
    · rintro ⟨name, -, hsome⟩
      exact absurd hsome (hother name metadataName)

theorem enter_metadataName (rooted : Bool) (t : List Bytes) :
    (metadataName.splitOn slash).foldl (Path.enter rooted) t = metadataName :: t := by
  have hsplit : metadataName.splitOn slash = [metadataName] := by decide
  rw [hsplit, List.foldl_cons, List.foldl_nil, Path.enter_name (by decide)]

/-- The elements of a script follow those of the directory. -/
theorem scriptPath_elements (host : Host) (step : PlanStep) :
    isAbs (scriptPath host step) = isAbs (metadataDir host) ∧ ∃ base rooted,
      trail (metadataDir host) = [metadataName] ++ base ∧
      trail (scriptPath host step) = (scriptElements step.id).foldl (Path.enter rooted) ([metadataName] ++ base) := by
  unfold metadataDir scriptPath scriptElements
  generalize ofString "step-" ++ step.id ++ ofString ".sh" = name
  by_cases hw : host.workDir = []
  · have hne : metadataName ≠ [] := by decide
    rw [hw]
    change isAbs (Path.join [metadataName, name]) = _ ∧ ∃ base rooted, _ ∧ trail (Path.join [metadataName, name]) = _
    refine ⟨by rw [Path.isAbs_join_pair hne]; rfl, [], false, rfl, ?_⟩
    rw [Path.trail_join_pair hne]
    rfl
  · have hjoin : Path.join [host.workDir, metadataName, name] =
        Path.join [host.workDir, metadataName ++ slash :: name] := by
      rw [Path.join, if_neg hw, Path.join, if_neg hw]
      exact congrArg (fun s => Path.clean (host.workDir ++ [slash] ++ s)) (List.append_assoc _ [slash] name)
    change isAbs (Path.join [host.workDir, metadataName, name]) = isAbs (Path.join [host.workDir, metadataName]) ∧
      ∃ base rooted, trail (Path.join [host.workDir, metadataName]) = _ ∧
        trail (Path.join [host.workDir, metadataName, name]) = _
    rw [hjoin]
    refine ⟨by rw [Path.isAbs_join_pair hw, Path.isAbs_join_pair hw], trail host.workDir, isAbs host.workDir, ?_, ?_⟩
    · rw [Path.trail_join_pair hw, enter_metadataName]
      rfl
    · rw [Path.trail_join_pair hw, List.splitOn_append_cons_self, List.foldl_append, enter_metadataName]
      rfl

theorem directChild_of_stays (host : Host) {step} (h : staysInDirectory step.id) :
    DirectChild (metadataDir host) (scriptPath host step) := by
  obtain ⟨name, hname, hsome⟩ := staysInDirectory_iff.mp h
  obtain ⟨habs, base, rooted, hdir, htrail⟩ := scriptPath_elements host step
  refine ⟨habs, name, hname, ?_⟩
  rw [htrail, hdir, Path.foldl_enter_append hsome (by decide)]
  rfl

/-- A directory of one element. -/
def deepName (n : Nat) : Bytes := List.replicate (n + 3) (byte 'w')

theorem name_deepName (n : Nat) : Name (deepName n) where
  ne_nil := List.cons_ne_nil _ _
  ne_dot h := absurd (congrArg List.length h) (by simp [deepName, Path.dot])
  ne_dotdot h := absurd (congrArg List.length h) (by simp [deepName, Path.dotdot])
  no_slash h := absurd (List.eq_of_mem_replicate h) (by decide)

/-- A host that works in a directory with a long name. -/
def deepHost (n : Nat) : Host := { Host.quiet with workDir := slash :: deepName n }

theorem trail_deepHost (n : Nat) : trail (metadataDir (deepHost n)) = [metadataName] ++ [deepName n] := by
  have hnormal : Path.Normal true [deepName n] :=
    ⟨[deepName n], 0, rfl, fun e he => List.mem_singleton.mp he ▸ name_deepName n, fun _ => rfl⟩
  have hwork : trail (deepHost n).workDir = [deepName n] := Path.trail_render hnormal
  have hne : (deepHost n).workDir ≠ [] := List.cons_ne_nil _ _
  have hjoin := Path.trail_join_pair (q := metadataName) hne
  rw [enter_metadataName, hwork] at hjoin
  exact hjoin

/-- In a directory that is named as no element is, a script that leaves it does not come back. -/
theorem stays_of_directChild {step : PlanStep}
    (h : ∀ host, DirectChild (metadataDir host) (scriptPath host step)) : staysInDirectory step.id := by
  obtain ⟨n, hn⟩ : ∃ n, n = (ofString "step-" ++ step.id ++ ofString ".sh").length := ⟨_, rfl⟩
  have hother : deepName n ∉ scriptElements step.id := by
    intro hmem
    have hlong := (Path.mem_splitOn hmem).2
    rw [← hn, deepName, List.length_replicate] at hlong
    omega
  obtain ⟨-, name, hname, hchild⟩ := h (deepHost n)
  obtain ⟨-, base, rooted, hdir, htrail⟩ := scriptPath_elements (deepHost n) step
  rw [trail_deepHost] at hdir hchild
  rw [hchild, ← hdir] at htrail
  rw [staysInDirectory_iff]
  refine ⟨name, hname, ?_⟩
  cases hwalk : (scriptElements step.id).foldlM Path.enterInside [metadataName] with
  | none =>
    have hleft : deepName n ∉ (scriptElements step.id).foldl (Path.enter rooted) ([metadataName] ++ [deepName n]) :=
      Path.notMem_foldl_enter_append hwalk (by decide) hother (name_deepName n).ne_dotdot
    rw [← htrail] at hleft
    exact absurd (by simp) hleft
  | some t =>
    rw [Path.foldl_enter_append hwalk (by decide)] at htrail
    have hinside : [name, metadataName] ++ [deepName n] = t ++ [deepName n] := htrail
    rw [List.append_cancel_right hinside]

/-- The scripts of all run steps are files in the directory that is made for them, wherever the workspace is, exactly
if the names of these steps lead there. -/
theorem buildPlan_scripts_directChild (src : WorkflowSource) (rec : JobRunRecord) (ev : Event) (inst : JobInstance)
    (p : Plan) (hplan : buildPlan src rec ev inst = .ok p) :
    (∀ host, ∀ step ∈ p.steps, IsScript step → DirectChild (metadataDir host) (scriptPath host step)) ↔
      ∀ o ∈ origins src inst.steps, IsScript o.2 → staysInDirectory o.2.id := by
  have hmem : ∀ {step}, step ∈ p.steps ↔ ∃ o ∈ origins src inst.steps, o.2 = step := by
    intro step
    rw [(Server.buildPlan_ok hplan).1, List.mem_map]
  constructor
  · intro h o ho hscript
    exact stays_of_directChild fun host => h host o.2 (hmem.mpr ⟨o, ho, rfl⟩) hscript
  · intro h host step hstep hscript
    obtain ⟨o, ho, rfl⟩ := hmem.mp hstep
    exact directChild_of_stays host (h o ho hscript)

/-- A step with a script. -/
def namedStep (name : String) : Syntax.Step where
  name := name
  cond := ""
  run := "make"
  uses := ""
  inputs := ∅
  continueOnError := false
  env := none

/-- The paths of the scripts of a job with one step. -/
def scriptPaths (name : String) : Option (List Bytes) :=
  (jobOf [namedStep name]).bind fun inst => (pushPlan (Server.ciSource "") inst).toOption.map fun p =>
    p.steps.map (scriptPath Host.quiet)

/-- The first script is in a directory that does not exist, and the second outside of the workspace. -/
theorem scripts_named_with_slash :
    scriptPaths "build/test" = some [ofString "/w/.forgelet/step-build/test.sh"] ∧
    scriptPaths "a/../../../b" = some [ofString "/b.sh"] ∧
    ¬DirectChild (metadataDir Host.quiet) (ofString "/w/.forgelet/step-build/test.sh") ∧
    ¬DirectChild (metadataDir Host.quiet) (ofString "/b.sh") := by
  have hfar : ∀ {path : Bytes}, (trail path).length ≠ 3 → ¬DirectChild (metadataDir Host.quiet) path := by
    rintro path hlength ⟨-, name, -, htrail⟩
    have hdir : (trail (metadataDir Host.quiet)).length = 2 := by decide +kernel
    rw [htrail, List.length_cons, hdir] at hlength
    exact hlength rfl
  exact ⟨by decide +kernel, by decide +kernel, hfar (by decide +kernel), hfar (by decide +kernel)⟩

/-- A script whose name leads back, and an action with a slash in its name. -/
def slashSteps : List Syntax.Step := [namedStep "a/../b", tokenStep "Checkout / main" "actions/checkout@v4" ""]

/-- The script is a direct child, and the action has none. -/
theorem buildPlan_scripts_directChild_back : ∃ inst p, jobOf slashSteps = some inst ∧
    pushPlan (Server.ciSource "") inst = .ok p ∧ p.steps.map (decide <| IsScript ·) = [true, false] ∧
    ∀ host, ∀ step ∈ p.steps, IsScript step → DirectChild (metadataDir host) (scriptPath host step) := by
  have hall : ((jobOf slashSteps).bind fun inst => (pushPlan (Server.ciSource "") inst).toOption.map fun p =>
      decide (p.steps.map (decide <| IsScript ·) = [true, false] ∧
        ∀ o ∈ origins (Server.ciSource "") inst.steps, IsScript o.2 → staysInDirectory o.2.id)) = some true := by
    decide +kernel
  obtain ⟨inst, hjob, hall⟩ := Option.bind_eq_some_iff.mp hall
  obtain ⟨p, hp, hall⟩ := Option.map_eq_some_iff.mp hall
  obtain ⟨hsteps, hstays⟩ := of_decide_eq_true hall
  have hplan := eq_ok_of_toOption hp
  exact ⟨inst, p, hjob, hplan, hsteps, (buildPlan_scripts_directChild _ _ _ _ p hplan).mpr hstays⟩

end Forgelet.Executor
