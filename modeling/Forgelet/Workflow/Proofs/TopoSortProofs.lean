import Forgelet.Lib.DependencyOrder
import Forgelet.Workflow.Compiler

/-!
# Proofs: the order of the jobs

A depth-first search that succeeds lists every job once all the jobs it needs are listed.
-/

namespace Forgelet.Compiler

open Syntax DependencyOrder

theorem mark_setMark (st : Topo) (id id' : String) (m : Mark) :
    (st.setMark id m).mark id' = if id' = id then m else st.mark id' := by
  unfold Topo.mark Topo.setMark
  rw [GoMap.lookup_insert_ite]
  split_ifs <;> rfl

/-- A finished job is listed, and the list is ordered, of jobs of the table. -/
structure Topo.Good (byID : GoMap String Job) (st : Topo) : Prop where
  listed : ∀ id, st.mark id = .done → ∃ j ∈ st.out, j.id = id
  ordered : InOrder Job.id Job.needs [] st.out
  known : ∀ j ∈ st.out, byID.lookup j.id = some j

/-- After a visit of `ids` they are finished, and what was finished is. -/
structure Topo.Finishes (byID : GoMap String Job) (st st' : Topo) (ids : List String) : Prop where
  good : st'.Good byID
  kept : ∀ id, st.mark id = .done → st'.mark id = .done
  finished : ∀ id ∈ ids, st'.mark id = .done

/-- A job is finished already, or listed after the jobs it needs. -/
inductive Searches (byID : GoMap String Job) : Topo → List Job → Topo → Prop
  | nil (st : Topo) : Searches byID st [] st
  | finished {st st' j rest} (mark : st.mark j.id = .done)
      (more : Searches byID st rest st') : Searches byID st (j :: rest) st'
  | listed {st st₁ st' j needs rest} (mark : st.mark j.id = .unvisited)
      (found : List.Forall₂ (fun dep job => byID.lookup dep = some job) j.needs needs)
      (before : Searches byID (st.setMark j.id .visiting) needs st₁)
      (more : Searches byID { st₁.setMark j.id .done with out := st₁.out ++ [j] } rest st') :
      Searches byID st (j :: rest) st'

variable {byID : GoMap String Job} {st st₁ st' : Topo} {j : Job} {jobs : List Job}

theorem Searches.append {rest} (h : Searches byID st jobs st₁) (h' : Searches byID st₁ rest st') :
    Searches byID st (jobs ++ rest) st' := by
  induction h with
  | nil => exact h'
  | finished mark _ ih => exact .finished mark (ih h')
  | listed mark found before _ _ ih => exact .listed mark found before (ih h')

theorem visitNeeds_searches {v : Topo → Job → Except Err Topo}
    (hv : ∀ {st st' j}, v st j = .ok st' → Searches byID st [j] st') {deps} (h : visitNeeds byID v st deps = .ok st') :
    ∃ needs, List.Forall₂ (fun dep job => byID.lookup dep = some job) deps needs ∧ Searches byID st needs st' := by
  induction deps generalizing st with
  | nil =>
    cases h
    exact ⟨[], .nil, .nil _⟩
  | cons dep rest ih =>
    rw [visitNeeds] at h
    cases hdep : byID.lookup dep with
    | none => rw [hdep] at h; cases h
    | some j =>
      rw [hdep] at h
      dsimp only at h
      cases hvis : v st j with
      | error err => rw [hvis] at h; cases h
      | ok st₁ =>
        rw [hvis] at h
        obtain ⟨needs, hfound, hneeds⟩ := ih h
        exact ⟨j :: needs, .cons hdep hfound, (hv hvis).append hneeds⟩

theorem visit_searches (fuel : Nat) (h : visit byID fuel st j = .ok st') : Searches byID st [j] st' := by
  induction fuel generalizing st st' j with
  | zero => cases h
  | succ fuel ih =>
    rw [visit] at h
    cases hm : st.mark j.id with
    | done =>
      rw [hm] at h
      cases h
      exact .finished hm (.nil _)
    | visiting => rw [hm] at h; cases h
    | unvisited =>
      rw [hm] at h
      cases hn : visitNeeds byID (visit byID fuel) (st.setMark j.id .visiting) j.needs with
      | error err => rw [hn] at h; cases h
      | ok st₁ =>
        rw [hn] at h
        cases h
        obtain ⟨needs, hfound, hneeds⟩ := visitNeeds_searches ih hn
        exact .listed hm hfound hneeds (.nil _)

theorem visitAll_searches (fuel : Nat) (h : visitAll byID fuel st jobs = .ok st') : Searches byID st jobs st' := by
  induction jobs generalizing st with
  | nil =>
    cases h
    exact .nil _
  | cons j rest ih =>
    rw [visitAll] at h
    cases hv : visit byID fuel st j with
    | error err => rw [hv] at h; cases h
    | ok st₁ =>
      rw [hv] at h
      exact (visit_searches fuel hv).append (ih h)

theorem mark_listed (st : Topo) (j : Job) (id : String) :
    ({ st.setMark j.id .done with out := st.out ++ [j] } : Topo).mark id = if id = j.id then .done else st.mark id :=
  mark_setMark st j.id id .done

theorem found_needs (hid : ∀ {id j}, byID.lookup id = some j → j.id = id) {deps needs}
    (h : List.Forall₂ (fun dep job => byID.lookup dep = some job) deps needs) :
    needs.map (·.id) = deps ∧ ∀ j ∈ needs, byID.lookup j.id = some j := by
  induction h with
  | nil => exact ⟨rfl, by simp⟩
  | cons hfirst _ ih =>
    obtain rfl := hid hfirst
    exact ⟨by rw [List.map_cons, ih.1], List.forall_mem_cons.mpr ⟨hfirst, ih.2⟩⟩

theorem Searches.finishes (hid : ∀ {id j}, byID.lookup id = some j → j.id = id) (h : Searches byID st jobs st')
    (hg : st.Good byID) (hjobs : ∀ j ∈ jobs, byID.lookup j.id = some j) : st.Finishes byID st' (jobs.map (·.id)) := by
  induction h with
  | nil => exact ⟨hg, fun _ hd => hd, fun id hmem => by cases hmem⟩
  | finished mark _ ih =>
    rw [List.forall_mem_cons] at hjobs
    have hrest := ih hg hjobs.2
    exact ⟨hrest.good, hrest.kept, List.forall_mem_cons.mpr ⟨hrest.kept _ mark, hrest.finished⟩⟩
  | @listed st st₁ st' j needs rest mark found _ _ ihbefore ihmore =>
    rw [List.forall_mem_cons] at hjobs
    obtain ⟨hneeds, hknown⟩ := found_needs hid found
    have hstart : (st.setMark j.id .visiting).Good byID := by
      refine ⟨fun id hd => ?_, hg.ordered, hg.known⟩
      rw [mark_setMark] at hd
      split_ifs at hd
      exact hg.listed id hd
    have h₁ := ihbefore hstart hknown
    rw [hneeds] at h₁
    have hlisted : ({ st₁.setMark j.id .done with out := st₁.out ++ [j] } : Topo).Good byID := by
      refine ⟨fun id hd => ?_, ?_, fun j' hmem => ?_⟩
      · rw [mark_listed] at hd
        split_ifs at hd with heq
        · exact ⟨j, List.mem_append_right _ (List.mem_singleton_self j), heq.symm⟩
        · obtain ⟨j', hj', hid'⟩ := h₁.good.listed id hd
          exact ⟨j', List.mem_append_left _ hj', hid'⟩
      · -- all the jobs it needs are finished, and so they are listed
        refine inOrder_concat.mpr ⟨h₁.good.ordered, fun dep hdep => ?_⟩
        obtain ⟨j', hj', rfl⟩ := h₁.good.listed dep (h₁.finished dep hdep)
        exact List.mem_map_of_mem hj'
      · rcases List.mem_append.mp hmem with hold | hnew
        · exact h₁.good.known j' hold
        · rw [List.mem_singleton.mp hnew]
          exact hjobs.1
    have h₂ := ihmore hlisted hjobs.2
    refine ⟨h₂.good, fun id hd => h₂.kept id ?_, List.forall_mem_cons.mpr ⟨h₂.kept _ ?_, h₂.finished⟩⟩
    · rw [mark_listed]
      split_ifs with heq
      · rfl
      · exact h₁.kept id (by rwa [mark_setMark, if_neg heq])
    · rw [mark_listed, if_pos rfl]

theorem indexJobs_spec {byID'} (h : indexJobs byID jobs = .ok byID') :
    (jobs.map (·.id)).Nodup ∧ (∀ j ∈ jobs, byID.lookup j.id = none) ∧
      ∀ id j, byID'.lookup id = some j ↔ (j ∈ jobs ∧ j.id = id) ∨ byID.lookup id = some j := by
  induction jobs generalizing byID with
  | nil =>
    cases h
    exact ⟨List.nodup_nil, by simp, by simp⟩
  | cons first rest ih =>
    rw [indexJobs] at h
    split_ifs at h with hdup
    have hnone : byID.lookup first.id = none := by simpa using hdup
    obtain ⟨hnodup, hfresh, hlook⟩ := ih h
    have hne : ∀ j ∈ rest, j.id ≠ first.id := by
      intro j hj heq
      have := hfresh j hj
      rw [GoMap.lookup_insert_ite, if_pos heq] at this
      cases this
    refine ⟨?_, ?_, fun id j => ?_⟩
    · rw [List.map_cons, List.nodup_cons]
      refine ⟨fun hmem => ?_, hnodup⟩
      obtain ⟨j, hj, heq⟩ := List.mem_map.mp hmem
      exact hne j hj heq
    · rw [List.forall_mem_cons]
      refine ⟨hnone, fun j hj => ?_⟩
      have := hfresh j hj
      rwa [GoMap.lookup_insert_ite, if_neg (hne j hj)] at this
    · rw [hlook, GoMap.lookup_insert_ite]
      split_ifs with heq
      · subst heq
        rw [hnone, Option.some_inj]
        constructor
        · rintro (⟨hj, hid⟩ | rfl)
          · exact absurd hid (hne j hj)
          · exact .inl ⟨(.head _), rfl⟩
        · rintro (⟨hj, hid⟩ | hf)
          · rcases List.mem_cons.mp hj with rfl | hj
            · exact .inr rfl
            · exact absurd hid (hne j hj)
          · cases hf
      · refine or_congr_left ⟨fun hj => ⟨.tail _ hj.1, hj.2⟩, fun hj => ⟨?_, hj.2⟩⟩
        rcases List.mem_cons.mp hj.1 with rfl | hrest
        · exact absurd hj.2.symm heq
        · exact hrest

theorem topoSort_searches {out} (h : topoSort jobs = .ok out) :
    ∃ byID st, indexJobs ∅ jobs = .ok byID ∧ Searches byID { state := ∅, out := [] } jobs st ∧ out = st.out := by
  unfold topoSort at h
  cases hidx : indexJobs ∅ jobs with
  | error err => rw [hidx] at h; cases h
  | ok byID =>
    rw [hidx] at h
    dsimp only at h
    split at h
    · cases h
    · cases hvis : visitAll byID (jobs.length + 1) { state := ∅, out := [] } jobs with
      | error err => rw [hvis] at h; cases h
      | ok st =>
        rw [hvis] at h
        exact ⟨byID, st, rfl, visitAll_searches _ hvis, (Except.ok.inj h).symm⟩

/-- An accepted list has distinct ids, and the result is in dependency order. -/
theorem topoSort_ok {out} (h : topoSort jobs = .ok out) :
    (jobs.map (·.id)).Nodup ∧ InOrder Job.id Job.needs [] out ∧ ∀ j, j ∈ out ↔ j ∈ jobs := by
  obtain ⟨byID, st, hidx, hsearch, rfl⟩ := topoSort_searches h
  obtain ⟨hnodup, -, hlook⟩ := indexJobs_spec hidx
  have hlook' : ∀ id j, byID.lookup id = some j ↔ j ∈ jobs ∧ j.id = id := by
    intro id j
    rw [hlook, AList.lookup_empty]
    simp
  have hid : ∀ {id j}, byID.lookup id = some j → j.id = id := fun hj => ((hlook' _ _).mp hj).2
  have hgood : ({ state := ∅, out := [] } : Topo).Good byID := ⟨fun id hd => (by cases hd), trivial, by simp⟩
  have hfin := hsearch.finishes hid hgood fun j hj => (hlook' _ _).mpr ⟨hj, rfl⟩
  refine ⟨hnodup, hfin.good.ordered, fun j => ⟨fun hj => ?_, fun hj => ?_⟩⟩
  · exact ((hlook' _ _).mp (hfin.good.known j hj)).1
  · obtain ⟨j', hj', heq⟩ := hfin.good.listed j.id (hfin.finished _ (List.mem_map_of_mem hj))
    have hj'jobs := ((hlook' _ _).mp (hfin.good.known j' hj')).1
    rwa [List.inj_on_of_nodup_map hnodup hj'jobs hj heq] at hj'

end Forgelet.Compiler
