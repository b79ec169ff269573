import Forgelet.Server.Plans

/-!
# Proofs: the steps of a plan and its references to secrets

Which step of the job a step of the plan was made for, and which references the `with` entries give. The loops of
`buildPlan` collect both in accumulators; here they are lists of their own.
-/

namespace Forgelet.Server

open Bytes (ofString)
open Compiler (Step)
open Compiler (JobInstance)

/-- The `with` entries of a step. -/
def withEntries (st : Compiler.Step) : GoMap String String :=
  match st.uses with
  | some call => call.inputs
  | none => if st.rawUses ≠ "" then st.rawWith else ∅

/-- The references to secrets in a map. -/
def secretRefs (envName : String → Bytes) (m : GoMap String String) : List SecretRef :=
  m.entries.filterMap fun e => (secretRefName e.2).map fun name => ⟨"repository", name, envName e.1⟩

/-- A secret in the `with` of a step: position and name of the step, key, and secret. -/
structure Route where
  index : Nat
  id : Bytes
  key : String
  name : String
deriving DecidableEq

/-- The reference by which a secret goes its way. -/
def Route.ref (r : Route) : SecretRef := ⟨"repository", r.name, withName r.id r.key⟩

/-- The secrets in the `with` of a step. -/
def stepRoutes (i : Nat) (st : Compiler.Step) : List Route :=
  (stDisplayName st).elim [] fun id =>
    (withEntries st).entries.filterMap fun e => (secretRefName e.2).map fun name => ⟨i, id, e.1, name⟩

/-- The secrets in the `with` of the steps, from the `n`-th on. -/
def routesFrom (n : Nat) (steps : List Compiler.Step) : List Route :=
  (steps.zipIdx n).flatMap fun e => stepRoutes e.2 e.1

/-- The secrets in the `with` of the steps. -/
def routes (steps : List Compiler.Step) : List Route := routesFrom 0 steps

/-- The plan steps of one step. -/
def madeFor (src : WorkflowSource) (st : Compiler.Step) : List PlanStep :=
  (stDisplayName st).elim [] fun id => (planStep src [] st id).1

/-- The plan steps, each with the position of its step, from the `n`-th on. -/
def originsFrom (src : WorkflowSource) (n : Nat) (steps : List Compiler.Step) : List (Nat × PlanStep) :=
  (steps.zipIdx n).flatMap fun e => (madeFor src e.1).map (e.2, ·)

/-- The plan steps, each with the position of the step it is made for. -/
def origins (src : WorkflowSource) (steps : List Compiler.Step) : List (Nat × PlanStep) := originsFrom src 0 steps

theorem routesFrom_cons (n : Nat) (st : Step) (rest : List Step) :
    routesFrom n (st :: rest) = stepRoutes n st ++ routesFrom (n + 1) rest := by
  rw [routesFrom, List.zipIdx_cons, List.flatMap_cons, routesFrom]

theorem originsFrom_cons (src : WorkflowSource) (n : Nat) (st : Step) (rest : List Step) :
    originsFrom src n (st :: rest) = (madeFor src st).map (n, ·) ++ originsFrom src (n + 1) rest := by
  rw [originsFrom, List.zipIdx_cons, List.flatMap_cons, originsFrom]

/-! ## The loops -/

variable {steps : List Step}

section Loops

variable {src : WorkflowSource} {envName : String → Bytes} {kept : GoMap String String} {refs : List SecretRef}

theorem splitSecrets_refs (entries : List ((_ : String) × String)) : (splitSecrets envName kept refs entries).2 =
      refs ++ entries.filterMap fun e => (secretRefName e.2).map fun name => ⟨"repository", name, envName e.1⟩ := by
  induction entries generalizing kept refs with
  | nil => exact (List.append_nil refs).symm
  | cons e rest ih =>
    unfold splitSecrets
    cases hname : secretRefName e.2 with
    | none =>
      rw [ih, List.filterMap_cons_none (by rw [hname]; rfl)]
    | some name =>
      rw [ih, List.filterMap_cons_some (by rw [hname]; rfl), List.append_assoc, List.singleton_append]

/-- What is kept does not depend on the references collected so far. -/
theorem splitSecrets_kept (entries : List ((_ : String) × String)) (refs' : List SecretRef) :
    (splitSecrets envName kept refs entries).1 = (splitSecrets envName kept refs' entries).1 := by
  induction entries generalizing kept refs refs' with
  | nil => rfl
  | cons e rest ih =>
    unfold splitSecrets
    cases secretRefName e.2 with
    | none => exact ih refs'
    | some name => exact ih _

theorem planStep_made (st : Step) (id : Bytes) : (planStep src refs st id).1 = (planStep src [] st id).1 := by
  unfold planStep
  cases st.uses with
  | some call =>
    dsimp only
    rw [splitSecrets_kept _ []]
  | none =>
    split_ifs
    · dsimp only
      rw [splitSecrets_kept _ []]
    · rfl

theorem planStep_refs (st : Step) (id : Bytes) :
    (planStep src refs st id).2 = refs ++ secretRefs (withName id) (withEntries st) := by
  unfold planStep withEntries
  cases st.uses with
  | some call => exact splitSecrets_refs call.inputs.entries
  | none =>
    split_ifs
    · exact splitSecrets_refs st.rawWith.entries
    · exact (List.append_nil refs).symm

theorem stepRoutes_refs {st id} (hid : stDisplayName st = some id) (i : Nat) :
    (stepRoutes i st).map Route.ref = secretRefs (withName id) (withEntries st) := by
  rw [stepRoutes, hid, Option.elim_some, List.map_filterMap, secretRefs]
  simp only [Option.map_map]
  rfl

theorem planSteps_ok {made made' refs'} (h : planSteps src made refs steps = .ok (made', refs')) (n : Nat) :
    made' = made ++ (originsFrom src n steps).map (·.2) ∧ refs' = refs ++ (routesFrom n steps).map Route.ref := by
  induction steps generalizing made refs n with
  | nil =>
    cases h
    exact ⟨(List.append_nil _).symm, (List.append_nil _).symm⟩
  | cons st rest ih =>
    unfold planSteps at h
    cases hid : stDisplayName st with
    | none =>
      rw [hid] at h
      cases h
    | some id =>
      rw [hid] at h
      have hrest : planSteps src (made ++ (planStep src refs st id).1) (planStep src refs st id).2 rest =
          .ok (made', refs') := h
      obtain ⟨hmade, hrefs⟩ := ih hrest (n + 1)
      have hfirst : (madeFor src st).map (Prod.snd ∘ (n, ·)) = (planStep src [] st id).1 := by
        rw [madeFor, hid]
        exact List.map_id _
      constructor
      · rw [hmade, planStep_made, originsFrom_cons, List.map_append, List.map_map, hfirst, List.append_assoc]
      · rw [hrefs, planStep_refs, routesFrom_cons, List.map_append, stepRoutes_refs hid, List.append_assoc]

theorem buildPlan_ok {rec ev inst p} (h : buildPlan src rec ev inst = .ok p) :
    p.steps = (origins src inst.steps).map (·.2) ∧
      p.secretRefs = secretRefs ofString inst.env ++ (routes inst.steps).map Route.ref := by
  unfold buildPlan at h
  dsimp only at h
  cases hsteps : planSteps src [] (splitSecrets ofString ∅ [] inst.env.entries).2 inst.steps with
  | error err =>
    rw [hsteps] at h
    cases h
  | ok made =>
    rw [hsteps] at h
    obtain ⟨hmade, hrefs⟩ := planSteps_ok hsteps 0
    rw [← Except.ok.inj h]
    constructor
    · exact hmade
    · rw [hrefs, splitSecrets_refs]
      rfl

end Loops

/-! ## Members -/

theorem mem_routes {r} :
    r ∈ routes steps ↔ ∃ st, steps[r.index]? = some st ∧ stDisplayName st = some r.id ∧
      ((withEntries st).lookup r.key).bind secretRefName = some r.name := by
  constructor
  · intro hr
    obtain ⟨e, he, hr⟩ := List.mem_flatMap.mp hr
    rw [List.mem_zipIdx_iff_getElem?] at he
    unfold stepRoutes at hr
    cases hid : stDisplayName e.1 with
    | none =>
      rw [hid] at hr
      cases hr
    | some id =>
      rw [hid] at hr
      obtain ⟨kv, hkv, hr⟩ := List.mem_filterMap.mp hr
      obtain ⟨name, hname, rfl⟩ := Option.map_eq_some_iff.mp hr
      exact ⟨e.1, he, hid, Option.bind_eq_some_iff.mpr ⟨kv.2, (GoMap.mem_entries_iff _ kv).mp hkv, hname⟩⟩
  · rintro ⟨st, hst, hid, hname⟩
    obtain ⟨v, hv, hname⟩ := Option.bind_eq_some_iff.mp hname
    refine List.mem_flatMap.mpr ⟨(st, r.index), List.mem_zipIdx_iff_getElem?.mpr hst, ?_⟩
    rw [stepRoutes, hid]
    exact List.mem_filterMap.mpr ⟨⟨r.key, v⟩, (GoMap.mem_entries_iff _ ⟨r.key, v⟩).mpr hv,
      Option.map_eq_some_iff.mpr ⟨r.name, hname, rfl⟩⟩

theorem routes_unique {r r'} (hr : r ∈ routes steps) (hr' : r' ∈ routes steps) (hindex : r.index = r'.index)
    (hkey : r.key = r'.key) : r = r' := by
  obtain ⟨st, hst, hid, hname⟩ := mem_routes.mp hr
  obtain ⟨st', hst', hid', hname'⟩ := mem_routes.mp hr'
  rw [← hindex, hst, Option.some_inj] at hst'
  rw [← hst', hid, Option.some_inj] at hid'
  rw [← hst', ← hkey, hname, Option.some_inj] at hname'
  cases r
  cases r'
  dsimp only at hindex hkey hid' hname'
  rw [hindex, hkey, hid', hname']

end Forgelet.Server
