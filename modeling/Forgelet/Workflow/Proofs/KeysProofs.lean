import Forgelet.Lib.Separator
import Forgelet.Workflow.Proofs.CompilerProofs

/-!
# Proofs: the keys of the compiled jobs

The key of an instance is the id of its job, with the values of its combination joined by commas. The search lists
every job once, so two instances have one key just if two combinations of a job are joined to one text, or two jobs
share a text.
-/

namespace Forgelet.Compiler

open Syntax DependencyOrder GoString

/-- No job is put out twice. -/
structure Topo.Once (st : Topo) : Prop where
  done : ∀ j ∈ st.out, st.mark j.id = .done
  nodup : (st.out.map (·.id)).Nodup

/-- A successful visit keeps this, and the marks of the jobs whose visits have begun. -/
structure Topo.Lists (st st' : Topo) : Prop where
  once : st'.Once
  visiting : ∀ id, st.mark id = .visiting → st'.mark id = .visiting

theorem Searches.lists {byID st st' jobs} (h : Searches byID st jobs st') (hst : st.Once) : st.Lists st' := by
  induction h with
  | nil => exact ⟨hst, fun _ hid => hid⟩
  | finished _ _ ih => exact ih hst
  | @listed st st₁ st' j needs rest mark _ _ _ ihbefore ihmore =>
    have hstart : (st.setMark j.id .visiting).Once := by
      refine ⟨fun j' hj' => ?_, hst.nodup⟩
      have hdone := hst.done j' hj'
      rw [mark_setMark]
      split_ifs with heq
      · rw [heq, mark] at hdone
        cases hdone
      · exact hdone
    have h₁ := ihbefore hstart
    -- the job itself has been in progress all the time, so nobody has listed it
    have hj : st₁.mark j.id = .visiting := h₁.visiting j.id (by rw [mark_setMark, if_pos rfl])
    have hlisted : ({ st₁.setMark j.id .done with out := st₁.out ++ [j] } : Topo).Once := by
      refine ⟨fun j' hj' => ?_, ?_⟩
      · rw [mark_listed]
        split_ifs with heq
        · rfl
        · rcases List.mem_append.mp hj' with hold | hnew
          · exact h₁.once.done j' hold
          · exact absurd (congrArg Job.id (List.mem_singleton.mp hnew)) heq
      · rw [List.map_append, List.map_singleton]
        refine List.nodup_append.mpr ⟨h₁.once.nodup, List.nodup_singleton _, ?_⟩
        intro a ha b hb hab
        rw [List.mem_singleton] at hb
        obtain ⟨j', hj', rfl⟩ := List.mem_map.mp ha
        have hdone := h₁.once.done j' hj'
        rw [hab, hb, hj] at hdone
        cases hdone
    have h₂ := ihmore hlisted
    refine ⟨h₂.once, fun id hid => h₂.visiting id ?_⟩
    have hne : id ≠ j.id := by
      rintro rfl
      rw [mark] at hid
      cases hid
    rw [mark_listed, if_neg hne]
    exact h₁.visiting id (by rwa [mark_setMark, if_neg hne])

/-- `topoSort` permutes the jobs. -/
theorem topoSort_perm {jobs out} (h : topoSort jobs = .ok out) : out.Perm jobs := by
  obtain ⟨hnodup, -, hmem⟩ := topoSort_ok h
  obtain ⟨byID, st, -, hsearch, rfl⟩ := topoSort_searches h
  have hout := (hsearch.lists ⟨by simp, List.nodup_nil⟩).once.nodup
  exact (List.perm_ext_iff_of_nodup hout.of_map hnodup.of_map).mpr hmem

/-- The texts of the values of an axis, as they stand in a key. -/
def axisTexts (matrix : GoMap String (List String)) (axis : String) : List String :=
  ((matrix.lookup axis).getD []).map fun value => (splitPart (axis ++ "=" ++ value)).2

/-- The texts of the axes of a job, in the order of the key. -/
def texts (job : Job) : List (List String) := (job.matrix.keys.insertionSort (· ≤ ·)).map (axisTexts job.matrix)

/-- One text of each axis, in every combination. -/
def rows : List (List String) → List (List String)
  | [] => [[]]
  | axis :: rest => axis.flatMap fun text => (rows rest).map (text :: ·)

/-- The keys of the instances of a job. -/
def keyTexts (job : Job) : List String :=
  if job.matrix.entries = [] then [job.id]
  else (rows (texts job)).map fun row => job.id ++ "[" ++ join "," row ++ "]"

theorem combos_texts (matrix : GoMap String (List String)) (acc : List (List String)) (axes : List String) :
    (combos matrix acc axes).map (·.map fun part => (splitPart part).2) =
      acc.flatMap fun combo =>
        (rows (axes.map (axisTexts matrix))).map ((combo.map fun part => (splitPart part).2) ++ ·) := by
  induction axes generalizing acc with
  | nil =>
    simp only [combos, rows, List.map_singleton, List.append_nil, List.map_nil]
    rw [List.map_eq_flatMap]
  | cons axis rest ih =>
    rw [combos, ih]
    simp only [rows, axisTexts, List.flatMap_assoc, List.flatMap_map, List.map_flatMap, List.map_map, List.map_append,
      List.map_cons, List.map_nil]
    congr 1
    funext combo
    congr 1
    funext value
    congr 1
    funext row
    simp

/-- An accepted matrix has no axis without values. -/
theorem expandMatrix_keys {job inst block} (hkey : inst.key = job.id) (h : expandMatrix job inst = .ok block) :
    block.map (·.key) = keyTexts job ∧ [] ∉ texts job := by
  unfold expandMatrix at h
  unfold keyTexts
  by_cases hm : job.matrix.entries = []
  · rw [hm] at h
    cases h
    have hkeys : job.matrix.keys = [] := by simp [AList.keys, hm]
    rw [if_pos hm]
    exact ⟨by simpa using hkey, by simp [texts, hkeys]⟩
  · rw [if_neg (by simpa using hm)] at h
    rw [if_neg hm]
    cases hfind : job.matrix.entries.find? (·.2.isEmpty) with
    | some axis => rw [hfind] at h; cases h
    | none =>
      rw [hfind] at h
      cases h
      have hrows := combos_texts job.matrix [[]] (job.matrix.keys.insertionSort (· ≤ ·))
      simp only [List.flatMap_singleton, List.map_nil, List.nil_append, List.map_id'] at hrows
      refine ⟨?_, fun hempty => ?_⟩
      · rw [texts, ← hrows, List.map_map, List.map_map]
        refine List.map_congr_left fun combo _ => ?_
        simp [instanceOf, Function.comp_def]
      · obtain ⟨axis, haxis, hnil⟩ := List.mem_map.mp hempty
        have hmem : axis ∈ job.matrix.keys := (List.mem_insertionSort _).mp haxis
        obtain ⟨e, he, rfl⟩ := List.mem_map.mp hmem
        rw [axisTexts, (GoMap.mem_entries_iff job.matrix e).mp he, Option.getD_some, List.map_eq_nil_iff] at hnil
        exact absurd (List.find?_eq_none.mp hfind e he) (by simp [hnil])

theorem compileJobs_keys {file jobs out warnings warnings' ordered}
    (h : compileJobs file jobs warnings ordered = .ok (out, warnings')) :
    out.map (·.key) = jobs.map (·.key) ++ ordered.flatMap keyTexts ∧ ∀ job ∈ ordered, [] ∉ texts job := by
  induction ordered generalizing jobs warnings with
  | nil =>
    obtain ⟨rfl, -⟩ := Prod.mk.inj (Except.ok.inj h)
    exact ⟨(List.append_nil _).symm, nofun⟩
  | cons job rest ih =>
    rw [compileJobs] at h
    cases hjob : compileJob file warnings job with
    | error err => rw [hjob] at h; cases h
    | ok r =>
      obtain ⟨block, warnings₁⟩ := r
      rw [hjob] at h
      obtain ⟨inst, hkey, -, hexpand⟩ := compileJob_expands hjob
      obtain ⟨hblock, hvalues⟩ := expandMatrix_keys hkey hexpand
      obtain ⟨hkeys, hrest⟩ := ih h
      refine ⟨?_, List.forall_mem_cons.mpr ⟨hvalues, hrest⟩⟩
      rw [hkeys, List.map_append, hblock, List.flatMap_cons, List.append_assoc]

/-- The keys of an accepted workflow, up to the order of its jobs. -/
theorem compile_keys {wf out} (h : compile wf = .ok out) : (wf.jobs.map (·.id)).Nodup ∧
    (∀ job ∈ wf.jobs, [] ∉ texts job) ∧ (out.jobs.map (·.key)).Perm (wf.jobs.flatMap keyTexts) := by
  obtain ⟨ordered, warnings, hsort, hjobs⟩ := compile_ordered h
  obtain ⟨hkeys, hvalues⟩ := compileJobs_keys hjobs
  refine ⟨(topoSort_ok hsort).1, fun job hjob => hvalues job ((topoSort_perm hsort).mem_iff.mpr hjob), ?_⟩
  rw [hkeys, List.map_nil, List.nil_append]
  exact (topoSort_perm hsort).flatMap_right keyTexts

/-! ## Texts that are told apart -/

/-- Texts with a separator are the same if their parts are, or one is cut later. -/
theorem cut_string_iff {sep a b a' b' : String} {c : Char} (hsep : sep.toList = [c]) : a ++ sep ++ b = a' ++ sep ++ b' ↔
    (a = a' ∧ b = b') ∨ (∃ more, a' = a ++ sep ++ more ∧ b = more ++ sep ++ b') ∨
      ∃ more, a = a' ++ sep ++ more ∧ b' = more ++ sep ++ b := by
  simp only [← String.toList_inj, String.toList_append, hsep, List.append_assoc, List.singleton_append]
  rw [Separator.cut_eq_iff]
  refine or_congr_right (or_congr ?_ ?_)
  · exact ⟨fun ⟨t, h⟩ => ⟨String.ofList t, by simpa using h⟩, fun ⟨more, h⟩ => ⟨more.toList, h⟩⟩
  · exact ⟨fun ⟨t, h⟩ => ⟨String.ofList t, by simpa using h⟩, fun ⟨more, h⟩ => ⟨more.toList, h⟩⟩

/-- No axis repeats a text. Where an axis has a text and also the same with a comma and more behind it, the texts of the
later axes do not make up for the difference. -/
def Apart : List (List String) → Prop
  | [] => True
  | axis :: rest => axis.Nodup ∧ Apart rest ∧
    (rest ≠ [] → ∀ text ∈ axis, ∀ more, text ++ "," ++ more ∈ axis → ∀ row ∈ rows rest, ∀ row' ∈ rows rest,
      join "," row ≠ more ++ "," ++ join "," row')

theorem rows_ne_nil {axes : List (List String)} (h : [] ∉ axes) : rows axes ≠ [] := by
  induction axes with
  | nil => exact List.cons_ne_nil _ _
  | cons axis rest ih =>
    rw [List.mem_cons, not_or] at h
    obtain ⟨text, more, rfl⟩ := List.exists_cons_of_ne_nil (Ne.symm h.1)
    simp [rows, ih h.2]

theorem join_cons {axis : List String} {rest text row} (h : row ∈ rows (axis :: rest)) :
    join "," (text :: row) = text ++ "," ++ join "," row := by
  obtain ⟨value, -, hrow⟩ := List.mem_flatMap.mp h
  obtain ⟨tail, -, rfl⟩ := List.mem_map.mp hrow
  rfl

theorem pairwise_disjoint_iff {axis later : List String} (h : later ≠ []) :
    axis.Pairwise (fun text text' => (later.map (text ++ "," ++ ·)).Disjoint (later.map (text' ++ "," ++ ·))) ↔
      axis.Nodup ∧ ∀ text ∈ axis, ∀ more, text ++ "," ++ more ∈ axis → ∀ t ∈ later, ∀ t' ∈ later,
        t ≠ more ++ "," ++ t' := by
  constructor
  · intro hpair
    refine ⟨hpair.imp fun {text text'} hdisjoint heq => ?_, fun text htext more hmore t ht t' ht' heq => ?_⟩
    · obtain ⟨t, ht⟩ := List.exists_mem_of_ne_nil later h
      exact hdisjoint (List.mem_map_of_mem ht) (heq ▸ List.mem_map_of_mem ht)
    · have hsymm : Std.Symm fun text text' : String =>
          (later.map (text ++ "," ++ ·)).Disjoint (later.map (text' ++ "," ++ ·)) := ⟨fun _ _ hd => hd.symm⟩
      have hne : text ≠ text ++ "," ++ more := fun hsame => by
        have hlength := congrArg (fun s => s.toList.length) hsame
        simp at hlength
      refine hpair.forall htext hmore hne (List.mem_map_of_mem ht) (List.mem_map.mpr ⟨t', ht', ?_⟩)
      simp [heq, String.append_assoc]
  · rintro ⟨hnodup, hcut⟩
    refine hnodup.imp_of_mem fun {text text'} htext htext' hne key hkey hkey' => ?_
    obtain ⟨t, ht, rfl⟩ := List.mem_map.mp hkey
    obtain ⟨t', ht', heq⟩ := List.mem_map.mp hkey'
    rcases (cut_string_iff rfl).mp heq with ⟨hsame, -⟩ | ⟨more, rfl, hlater⟩ | ⟨more, rfl, hlater⟩
    · exact hne hsame.symm
    · exact hcut text' htext' more htext t' ht' t ht hlater
    · exact hcut text htext more htext' t ht t' ht' hlater

/-- The combinations of axes with values are joined to different texts just if the axes are apart. -/
theorem nodup_rows_iff {axes : List (List String)} (h : [] ∉ axes) :
    ((rows axes).map (join ",")).Nodup ↔ Apart axes := by
  induction axes with
  | nil => simp [rows, Apart]
  | cons axis rest ih =>
    rw [List.mem_cons, not_or] at h
    cases rest with
    | nil => simp [rows, Apart, join, List.map_flatMap]
    | cons next rest =>
      have hmap : (rows (axis :: next :: rest)).map (join ",") = axis.flatMap fun text =>
          ((rows (next :: rest)).map (join ",")).map (text ++ "," ++ ·) := by
        rw [rows, List.map_flatMap]
        refine List.flatMap_congr fun text _ => ?_
        rw [List.map_map, List.map_map]
        exact List.map_congr_left fun row hrow => join_cons hrow
      have hone : ∀ text : String, (((rows (next :: rest)).map (join ",")).map (text ++ "," ++ ·)).Nodup ↔
          ((rows (next :: rest)).map (join ",")).Nodup := fun text =>
        List.nodup_map_iff fun t t' heq => (String.append_right_inj _).mp heq
      obtain ⟨text, htext⟩ := List.exists_mem_of_ne_nil axis (Ne.symm h.1)
      have hlater : (rows (next :: rest)).map (join ",") ≠ [] := List.map_eq_nil_iff.not.mpr (rows_ne_nil h.2)
      rw [hmap, List.nodup_flatMap, Apart, ← ih h.2]
      simp only [hone]
      have hall : (∀ text ∈ axis, ((rows (next :: rest)).map (join ",")).Nodup) ↔
          ((rows (next :: rest)).map (join ",")).Nodup :=
        ⟨fun hall => hall text htext, fun hnodup _ _ => hnodup⟩
      refine (and_congr hall (pairwise_disjoint_iff hlater)).trans ?_
      simp only [List.forall_mem_map, ne_eq, reduceCtorEq, not_false_eq_true, true_implies]
      tauto

theorem keyTexts_nodup_iff {job : Job} (h : [] ∉ texts job) :
    (keyTexts job).Nodup ↔ Apart (texts job) := by
  unfold keyTexts
  split_ifs with hm
  · have hkeys : job.matrix.keys = [] := by simp [AList.keys, hm]
    simp [texts, hkeys, Apart]
  · have hcompose : (fun row : List String => job.id ++ "[" ++ join "," row ++ "]") =
        (fun text => job.id ++ "[" ++ text ++ "]") ∘ join "," := rfl
    rw [hcompose, ← List.map_map, List.nodup_map_iff, nodup_rows_iff h]
    intro text text' heq
    simpa using heq

/-- The id of the second job is the one of the first with a bracket and more behind it, and the two have a key in
common. -/
def Shares (job job' : Job) : Prop :=
  job.matrix.entries ≠ [] ∧ ∃ more, job'.id = job.id ++ "[" ++ more ∧ ∃ row ∈ rows (texts job),
    if job'.matrix.entries = [] then more = join "," row ++ "]"
    else ∃ row' ∈ rows (texts job'), join "," row = more ++ "[" ++ join "," row'

theorem mem_keyTexts {job : Job} {key : String} : key ∈ keyTexts job ↔ (job.matrix.entries = [] ∧ key = job.id) ∨
    (job.matrix.entries ≠ [] ∧ ∃ row ∈ rows (texts job), key = job.id ++ "[" ++ (join "," row ++ "]")) := by
  unfold keyTexts
  split_ifs with hm <;> simp [hm, String.append_assoc, eq_comm]

theorem not_disjoint_of_shares {job job' : Job} (h : Shares job job') : ¬ (keyTexts job).Disjoint (keyTexts job') := by
  obtain ⟨hm, more, hid, row, hrow, hmore⟩ := h
  intro hdisjoint
  refine hdisjoint (mem_keyTexts.mpr (.inr ⟨hm, row, hrow, rfl⟩)) (mem_keyTexts.mpr ?_)
  split_ifs at hmore with hm'
  · exact .inl ⟨hm', by rw [hid, hmore]⟩
  · obtain ⟨row', hrow', htext⟩ := hmore
    exact .inr ⟨hm', row', hrow', by rw [hid, htext]; simp only [String.append_assoc]⟩

theorem shares_of_mem {job job' : Job} {key : String} (hne : job.id ≠ job'.id) (h : key ∈ keyTexts job)
    (h' : key ∈ keyTexts job') : Shares job job' ∨ Shares job' job := by
  have hclose : ∀ {t more t' : String}, t ++ "]" = more ++ "[" ++ (t' ++ "]") → t = more ++ "[" ++ t' := by
    intro t more t' heq
    rw [← String.append_assoc] at heq
    exact (String.append_left_inj _).mp heq
  rcases mem_keyTexts.mp h with ⟨hm, rfl⟩ | ⟨hm, row, hrow, rfl⟩
  · rcases mem_keyTexts.mp h' with ⟨-, hid⟩ | ⟨hm', row', hrow', hid⟩
    · exact absurd hid hne
    · exact .inr ⟨hm', _, hid, row', hrow', by rw [if_pos hm]⟩
  · rcases mem_keyTexts.mp h' with ⟨hm', hid⟩ | ⟨hm', row', hrow', hid⟩
    · exact .inl ⟨hm, _, hid.symm, row, hrow, by rw [if_pos hm']⟩
    · rcases (cut_string_iff rfl).mp hid with ⟨hsame, -⟩ | ⟨more, hmore, htext⟩ | ⟨more, hmore, htext⟩
      · exact absurd hsame hne
      · exact .inl ⟨hm, more, hmore, row, hrow, by rw [if_neg hm']; exact ⟨row', hrow', hclose htext⟩⟩
      · exact .inr ⟨hm', more, hmore, row', hrow', by rw [if_neg hm]; exact ⟨row, hrow, hclose htext⟩⟩

/-- The keys are distinct just if the axes of each job are apart and no two jobs share a key. Jobs whose ids are
identifiers share none, as these have no brackets. -/
theorem compile_keys_nodup_iff {wf : Workflow} {out : Compiled} (h : compile wf = .ok out) :
    (out.jobs.map (·.key)).Nodup ↔ (∀ job ∈ wf.jobs, Apart (texts job)) ∧
      ∀ job ∈ wf.jobs, ∀ job' ∈ wf.jobs, ¬ Shares job job' := by
  obtain ⟨hids, hvalues, hperm⟩ := compile_keys h
  rw [hperm.nodup_iff, List.nodup_flatMap]
  refine and_congr (forall₂_congr fun job hjob => keyTexts_nodup_iff (hvalues job hjob)) ⟨?_, ?_⟩
  · intro hpair job hjob job' hjob' hshares
    have hsymm : Std.Symm (Function.onFun List.Disjoint keyTexts) := ⟨fun _ _ hdisjoint => hdisjoint.symm⟩
    refine not_disjoint_of_shares hshares (hpair.forall hjob hjob' ?_)
    rintro rfl
    obtain ⟨-, more, hid, -⟩ := hshares
    have hlength := congrArg (fun s => s.toList.length) hid
    simp at hlength
  · refine fun hnone => hids.of_map.imp_of_mem fun {job job'} hjob hjob' hne key hkey hkey' => ?_
    have hid : job.id ≠ job'.id := fun hid => hne (List.inj_on_of_nodup_map hids hjob hjob' hid)
    exact (shares_of_mem hid hkey hkey').elim (hnone job hjob job' hjob') (hnone job' hjob' job hjob)

/-- A matrix of one axis. -/
def oneAxis (values : List String) : GoMap String (List String) := (∅ : GoMap String (List String)).insert "go" values

/-- The two versions are different and contain no comma. -/
theorem compile_keys_nodup_versions :
    ∃ out, compile (releaseWorkflow (oneAxis ["1.26", "1.27"])) = .ok out ∧ (out.jobs.map (·.key)).Nodup ∧
      out.jobs.map (·.key) = ["test[1.26]", "test[1.27]", "release"] := by
  have hcompiled : ∃ out, compile (releaseWorkflow (oneAxis ["1.26", "1.27"])) = .ok out ∧
      out.jobs.map (·.key) = ["test[1.26]", "test[1.27]", "release"] := ⟨_, rfl, rfl⟩
  obtain ⟨out, hout, hkeys⟩ := hcompiled
  refine ⟨out, hout, ?_, hkeys⟩
  refine (compile_keys_nodup_iff hout).mpr ⟨fun job hjob => ?_, fun job hjob job' hjob' hshares => ?_⟩
  · simp only [releaseWorkflow, List.mem_cons, List.not_mem_nil, or_false] at hjob
    rcases hjob with rfl | rfl
    · exact trivial
    · exact ⟨by decide, trivial, fun hne => absurd rfl hne⟩
  · obtain ⟨-, more, hid, -⟩ := hshares
    have hplain : ∀ job ∈ (releaseWorkflow (oneAxis ["1.26", "1.27"])).jobs, '[' ∉ job.id.toList := by decide
    exact hplain job' hjob' (by simp [hid])

/-- A repeated value, and values with commas on two axes, give one key twice. -/
theorem compile_keys_repeated : (∃ out, compile (releaseWorkflow (oneAxis ["1.26", "1.26"])) = .ok out ∧
      out.jobs.map (·.key) = ["test[1.26]", "test[1.26]", "release"]) ∧
    ∃ out, compile (releaseWorkflow ((oneAxis ["x,y", "x"]).insert "os" ["z", "y,z"])) = .ok out ∧
      out.jobs.map (·.key) = ["test[x,y,z]", "test[x,y,y,z]", "test[x,z]", "test[x,y,z]", "release"] :=
  ⟨⟨_, rfl, rfl⟩, ⟨_, rfl, rfl⟩⟩

end Forgelet.Compiler
