import Forgelet.Server.Calls
import Forgelet.Store.Proofs.MovesProofs
import Mathlib.Data.List.Induction

/-!
# Proofs: conditions

What an `if:` can see of the jobs of its run: their keys and results, and the status that the dependencies give its
job. The status functions ask for this status.
-/

namespace Forgelet.Server

open DurableStore
open Bytes (ofString)
open Expression (parse implicitSuccess opening evalNode evaluateCondition)

variable {j : JobRunRecord} {P : DurableStore → Prop}

/-- The records show the same under the same key. -/
def SameResult (j j' : JobRunRecord) : Prop :=
  j'.jobKey = j.jobKey ∧ githubResultName j'.status = githubResultName j.status

variable {l l' : List JobRunRecord}

variable {j' : JobRunRecord}

theorem SameResult.stopped (h : SameResult j j') (key : String) : stopped key j' = stopped key j := by
  obtain ⟨hkey, hname⟩ := h
  unfold Server.stopped
  rw [hkey]
  congr 1
  revert hname
  cases j.status <;> cases j'.status <;> decide

theorem SameResult.cancelled (h : SameResult j j') : j'.status = .cancelled ↔ j.status = .cancelled := by
  obtain ⟨-, hname⟩ := h
  revert hname
  cases j.status <;> cases j'.status <;> decide

section

variable (h : List.Forall₂ SameResult l l')
include h

theorem needsContext_congr : needsContext l' = needsContext l := by
  have hfold : ∀ acc, l'.foldl (fun needs r =>
        Entries.assign (Bytes.ofString r.jobKey) (needsEntry r) needs) acc =
      l.foldl (fun needs r =>
        Entries.assign (Bytes.ofString r.jobKey) (needsEntry r) needs) acc := by
    induction h with
    | nil => exact fun _ => rfl
    | cons hj _ ih =>
      intro acc
      rw [List.foldl_cons, List.foldl_cons, ih, hj.1, needsEntry, needsEntry, hj.2]
  have hmap : needsMap l' = needsMap l := hfold []
  rw [needsContext, needsContext, hmap]

theorem find_stopped (key : String) :
    (l.find? (stopped key) = none ∧ l'.find? (stopped key) = none) ∨
      ∃ j j', l.find? (stopped key) = some j ∧ l'.find? (stopped key) = some j' ∧ SameResult j j' := by
  induction h with
  | nil => exact .inl ⟨rfl, rfl⟩
  | @cons j j' rest rest' hj _ ih =>
    rw [List.find?_cons, List.find?_cons, hj.stopped]
    cases hs : stopped key j with
    | true => exact .inr ⟨j, j', rfl, rfl, hj⟩
    | false => exact ih

theorem conditionStatus_congr (status : String) (keys : List String) :
    conditionStatus l' status keys = conditionStatus l status keys := by
  induction keys generalizing status with
  | nil => rfl
  | cons key rest ih =>
    rw [conditionStatus, conditionStatus]
    rcases find_stopped h key with ⟨hl, hl'⟩ | ⟨j, j', hl, hl', hj⟩
    · rw [hl, hl']
      exact ih status
    · rw [hl, hl']
      dsimp only
      rw [ih]
      simp only [hj.cancelled]

end

/-- A condition depends on the keys and results of the jobs, and on dependencies. -/
theorem checkCondition_congr (ev : Event) {rec rec'} (hdeps : rec'.dependsOn = rec.dependsOn)
    (h : List.Forall₂ SameResult l l') (cond : String) :
    checkCondition ev rec' l' cond = checkCondition ev rec l cond := by
  unfold checkCondition jobConditionEnv
  rw [needsContext_congr h, conditionStatus_congr h, hdeps]

theorem conditionStatus_cases (runs : List JobRunRecord) (status : String) (keys : List String) :
    conditionStatus runs status keys = status ∨ conditionStatus runs status keys = "failure" ∨
      conditionStatus runs status keys = "cancelled" := by
  induction keys generalizing status with
  | nil => exact .inl rfl
  | cons key rest ih =>
    rw [conditionStatus]
    cases runs.find? (stopped key) with
    | none => exact ih status
    | some r =>
      dsimp only
      split
      · exact Or.inr ((ih "cancelled").elim Or.inr id)
      · exact .inr ((ih "failure").elim .inl id)

theorem conditionStatus_eq_success {runs keys} :
    conditionStatus runs "success" keys = "success" ↔ ∀ key ∈ keys, ∀ j ∈ runs, stopped key j = false := by
  induction keys with
  | nil => simp [conditionStatus]
  | cons key rest ih =>
    rw [conditionStatus, List.forall_mem_cons]
    cases hfind : runs.find? (stopped key) with
    | none =>
      have hnone : ∀ j ∈ runs, stopped key j = false := by simpa using hfind
      rw [ih]
      exact (and_iff_right hnone).symm
    | some r =>
      have hstop := List.find?_some hfind
      refine iff_of_false ?_ fun h => ?_
      · dsimp only
        intro hsuccess
        rcases conditionStatus_cases runs (if r.status = .cancelled then "cancelled" else "failure") rest with
          heq | heq | heq
        · rw [heq] at hsuccess
          split_ifs at hsuccess <;> exact absurd hsuccess (by decide)
        · exact absurd (heq.symm.trans hsuccess) (by decide)
        · exact absurd (heq.symm.trans hsuccess) (by decide)
      · rw [h.1 r (List.mem_of_find?_eq_some hfind)] at hstop
        cases hstop

theorem ofString_status {status} (h : status = "success" ∨ status = "failure" ∨ status = "cancelled")
    (runs : List JobRunRecord) (keys : List String) : ofString (conditionStatus runs "success" keys) = ofString status ↔
      conditionStatus runs "success" keys = status := by
  rcases conditionStatus_cases runs "success" keys with heq | heq | heq <;> rw [heq] <;>
    rcases h with rfl | rfl | rfl <;> decide

section

variable (ev : Event) (rec : JobRunRecord) (runs : List JobRunRecord)
include ev rec runs

theorem checkCondition_call {cond status} (fn : Bytes)
    (hstatus : status = "success" ∨ status = "failure" ∨ status = "cancelled") (hne : (ofString cond).trimSpace ≠ [])
    (hplain : Bytes.contains (ofString cond).trimSpace opening = false)
    (hparse : parse (implicitSuccess (ofString cond).trimSpace) = .ok (.call fn []))
    (hcall : ∀ env, evalNode env (.call fn []) = .ok (.bool (env.jobStatus = ofString status))) :
    checkCondition ev rec runs cond = .ok (decide (conditionStatus runs "success" rec.dependsOn = status)) := by
  have hjob : (jobConditionEnv ev rec runs).jobStatus = ofString (conditionStatus runs "success" rec.dependsOn) := rfl
  unfold checkCondition evaluateCondition
  rw [if_neg hne, hplain, if_neg Bool.false_ne_true, Expression.eval, hparse]
  dsimp only
  rw [hcall, hjob, decide_eq_decide.mpr (ofString_status hstatus runs rec.dependsOn)]
  rfl

theorem checkCondition_success :
    checkCondition ev rec runs "success()" =
      .ok (decide (conditionStatus runs "success" rec.dependsOn = "success")) :=
  checkCondition_call ev rec runs (ofString "success") (.inl rfl) (by decide) rfl rfl fun _ => rfl

theorem checkCondition_failure :
    checkCondition ev rec runs "failure()" =
      .ok (decide (conditionStatus runs "success" rec.dependsOn = "failure")) :=
  checkCondition_call ev rec runs (ofString "failure") (.inr (.inl rfl)) (by decide) rfl rfl fun _ => rfl

end

theorem find_stopped_asQueued (l : List JobRunRecord) (key : String) : (l.map asQueued).find? (stopped key) = none := by
  rw [List.find?_eq_none]
  intro j hj
  obtain ⟨j₀, -, rfl⟩ := List.mem_map.mp hj
  simp [stopped, asQueued]

theorem conditionStatus_asQueued (l : List JobRunRecord) (status : String) (keys : List String) :
    conditionStatus (l.map asQueued) status keys = status := by
  induction keys with
  | nil => rfl
  | cons key rest ih =>
    rw [conditionStatus, find_stopped_asQueued]
    exact ih

/-- The last attempt of a key gives its result. -/
theorem find?_needsMap (runs : List JobRunRecord) (k : Bytes) : Entries.find? k (needsMap runs) =
      (runs.reverse.find? fun r => ofString r.jobKey = k).map needsEntry := by
  induction runs using List.reverseRecOn with
  | nil => rfl
  | append_singleton runs r ih =>
    have hlast : needsMap (runs ++ [r]) = Entries.assign (ofString r.jobKey) (needsEntry r) (needsMap runs) :=
      List.foldl_concat ..
    rw [hlast, Entries.find?_assign, ih, List.reverse_concat, List.find?_cons]
    by_cases hk : ofString r.jobKey = k
    · rw [if_pos hk.symm, decide_eq_true hk]
      rfl
    · rw [if_neg (Ne.symm hk), decide_eq_false hk]

theorem find_needsMap_asQueued (hj : j ∈ l) :
    Entries.find? (ofString j.jobKey) (needsMap (l.map asQueued)) = some (needsEntry (asQueued j)) := by
  rw [find?_needsMap]
  cases hfind : (l.map asQueued).reverse.find? fun r => ofString r.jobKey = ofString j.jobKey with
  | none =>
    have hmem : asQueued j ∈ (l.map asQueued).reverse := List.mem_reverse.mpr (List.mem_map_of_mem hj)
    have hne := List.find?_eq_none.mp hfind (asQueued j) hmem
    exact absurd (decide_eq_true rfl) hne
  | some r =>
    -- all queued attempts show the same result
    obtain ⟨j₀, -, rfl⟩ := List.mem_map.mp (List.mem_reverse.mp (List.mem_of_find?_eq_some hfind))
    rfl

theorem checkCondition_attempt (ev : Event) (rec : JobRunRecord) (hj : j ∈ l) (hkey : j'.jobKey = j.jobKey)
    (cond : String) :
    checkCondition ev rec ((l ++ [j']).map asQueued) cond = checkCondition ev rec (l.map asQueued) cond := by
  have hneeds : needsMap ((l ++ [j']).map asQueued) = needsMap (l.map asQueued) := by
    have hlast : needsMap ((l ++ [j']).map asQueued) =
        Entries.assign (Bytes.ofString j'.jobKey) (needsEntry (asQueued j')) (needsMap (l.map asQueued)) := by
      unfold needsMap
      rw [List.map_append, List.foldl_append]
      rfl
    rw [hlast, hkey]
    exact Entries.assign_eq_self (find_needsMap_asQueued hj)
  unfold checkCondition jobConditionEnv needsContext
  rw [hneeds, conditionStatus_asQueued, conditionStatus_asQueued]

end Forgelet.Server
