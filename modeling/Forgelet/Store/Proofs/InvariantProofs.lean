import Forgelet.Store.Attempts
import Forgelet.Store.Proofs.CreateRunProofs
import Forgelet.Store.Proofs.SettledProofs

/-!
# Proofs: the invariants of the in-memory store

Every operation keeps `Inv`. What is left after the operations that rewrite progress are those that add records: a
delivery, jobs without a run, a run with its jobs, and the next attempt of a job.
-/

namespace Forgelet.DurableStore

open Relation

variable {W : Wiring} {s s' : DurableStore}

variable {r : RunID} {id : JobRunID} {j : JobRunRecord}

/-- The listing of a stored run holds exactly the jobs of the run. -/
theorem Listing.of_mem (hl : Listing s) {job} (h : job ∈ s.jobsOf r) :
    ∃ id, s.jobs.lookup id = some job ∧ job.runID = r := by
  obtain ⟨id, hmem, hjob⟩ := mem_jobsOf.mp h
  obtain ⟨listed, hlisted, hrun⟩ := hl.listed hmem
  obtain rfl := Option.mem_unique hjob hlisted
  exact ⟨id, hjob, hrun⟩

theorem Listing.mem_jobsOf_iff (hl : Listing s) (hr : s.Stored r) {job} :
    job ∈ s.jobsOf r ↔ ∃ id, s.jobs.lookup id = some job ∧ job.runID = r := by
  refine ⟨hl.of_mem, ?_⟩
  rintro ⟨id, hjob, hrun⟩
  exact mem_jobsOf.mpr ⟨id, hl.complete hr hjob hrun, hjob⟩

theorem Indexing.stored_of_indexed (hi : Indexing s) {key} (h : s.indexed r key = some id) : s.Stored r := by
  obtain ⟨keys, hkeys, -⟩ := Option.bind_eq_some_iff.mp h
  exact (hi.stored_iff r).mp (by rw [hkeys]; rfl)

/-- `s'` is `s` with jobs added whose run is not stored. -/
structure Orphaned (W : Wiring) (s s' : DurableStore) : Prop where
  deliveries : s'.deliveries = s.deliveries
  runs : s'.runs = s.runs
  byJobKey : s'.byJobKey = s.byJobKey
  minted : s.minted ≤ s'.minted
  kept : ∀ {id j}, s.jobs.lookup id = some j → s'.jobs.lookup id = some j
  added : ∀ {id j}, s'.jobs.lookup id = some j → s.jobs.lookup id = some j ∨
    (¬s.Stored j.runID ∧ j.id = id ∧ (∃ n < s'.minted, id = W.ids.mint n) ∧
      (∃ n < s'.minted, j.runID = W.ids.mint n) ∧ j.finishedAt = none ∧ j.status = .queued)
  lists : ∀ r, s'.jobIDs r = s.jobIDs r ∨
    (¬s.Stored r ∧ ∃ id, id ∉ s.jobIDs r ∧ s'.jobIDs r = s.jobIDs r ++ [id] ∧
      ∃ j, s'.jobs.lookup id = some j ∧ j.runID = r)

namespace Orphaned

section

variable (h : Orphaned W s s')
include h

theorem stored_iff (r : RunID) : s'.Stored r ↔ s.Stored r := by
  unfold Stored
  rw [h.runs]

theorem old (hr : s.Stored j.runID) (hj : s'.jobs.lookup id = some j) :
    s.jobs.lookup id = some j :=
  (h.added hj).resolve_right fun hnew => hnew.1 hr

theorem lists_of_stored (hr : s.Stored r) : s'.jobIDs r = s.jobIDs r :=
  (h.lists r).resolve_right fun hnew => hnew.1 hr

theorem jobsOf_eq (hl : Listing s) (hr : s.Stored r) : s'.jobsOf r = s.jobsOf r := by
  unfold jobsOf
  rw [h.lists_of_stored hr]
  refine List.filterMap_congr fun i hmem => ?_
  obtain ⟨j, hj, -⟩ := hl.listed hmem
  rw [hj, h.kept hj]

theorem minted' {x} (hx : ∃ n < s.minted, x = W.ids.mint n) :
    ∃ n < s'.minted, x = W.ids.mint n := by
  obtain ⟨n, hn, rfl⟩ := hx
  exact ⟨n, lt_of_lt_of_le hn h.minted, rfl⟩

theorem listing (hl : Listing s) : Listing s' where
  listed := by
    intro r id hid
    have hold : ∀ {id}, id ∈ s.jobIDs r → ∃ j, s'.jobs.lookup id = some j ∧ j.runID = r := by
      intro id hid
      obtain ⟨j, hj, hr⟩ := hl.listed hid
      exact ⟨j, h.kept hj, hr⟩
    rcases h.lists r with heq | ⟨-, id', -, heq, hnew⟩
    · exact hold (heq ▸ hid)
    · rw [heq] at hid
      rcases List.mem_append.mp hid with hmem | hlast
      · exact hold hmem
      · rw [List.mem_singleton.mp hlast]
        exact hnew
  nodup := by
    intro r
    rcases h.lists r with heq | ⟨-, id', hnot, heq, -⟩
    · rw [heq]
      exact hl.nodup r
    · rw [heq, ← List.concat_eq_append]
      exact (hl.nodup r).concat hnot
  complete := by
    intro r id j hr hj hrun
    have hr' := (h.stored_iff r).mp hr
    rw [h.lists_of_stored hr']
    exact hl.complete hr' (h.old (hrun ▸ hr') hj) hrun
  nonempty := by
    intro r hr
    have hr' := (h.stored_iff r).mp hr
    rw [h.lists_of_stored hr']
    exact hl.nonempty hr'

theorem indexing (hi : Indexing s) : Indexing s' := by
  have hidx : ∀ r key, s'.indexed r key = s.indexed r key := by
    intro r key
    unfold indexed
    rw [h.byJobKey]
  have hst : ∀ {r key id}, s.indexed r key = some id → s.Stored r := hi.stored_of_indexed
  refine ⟨fun r => ?_, ?_, ?_, ?_, ?_⟩
  · rw [h.byJobKey, h.stored_iff]
    exact hi.stored_iff r
  · intro r key id hid
    rw [hidx] at hid
    obtain ⟨j, hj, hr, hk, hmax⟩ := hi.latest hid
    refine ⟨j, h.kept hj, hr, hk, fun i ji hlook hri => ?_⟩
    exact hmax i ji (h.old (hri ▸ hst hid) hlook) hri
  · intro id j hr hj
    rw [hidx]
    have hr' := (h.stored_iff _).mp hr
    exact hi.present hr' (h.old hr' hj)
  · intro id id' j j' hr hj hj' hrun hkey hatt
    have hr' := (h.stored_iff _).mp hr
    exact hi.attempt_unique hr' (h.old hr' hj) (h.old (hrun ▸ hr') hj') hrun hkey hatt
  · intro id j b hr hj h1 hb
    have hr' := (h.stored_iff _).mp hr
    obtain ⟨i, ji, hlook, hrest⟩ := hi.attempt_closed b hr' (h.old hr' hj) h1 hb
    exact ⟨i, ji, h.kept hlook, hrest⟩

theorem settled (hl : Listing s) (hs : Settled s) : Settled s' := by
  refine ⟨fun {r run} hr => ?_, fun hr => hs.run_finished (h.runs ▸ hr), fun {id j} hj => ?_⟩
  · rw [h.runs] at hr
    rw [h.jobsOf_eq hl ⟨run, hr⟩]
    exact hs.run_terminal hr
  · rcases h.added hj with hold | ⟨-, -, -, -, hfin, hst⟩
    · exact hs.job_finished hold
    · rw [hfin, hst]
      simp [JobRunStatus.isTerminal]

theorem ids (hm : Minted W s) : Minted W s' where
  job_id hj := (h.added hj).elim hm.job_id fun ha => ha.2.1
  job_minted hj := (h.added hj).elim (fun ho => h.minted' (hm.job_minted ho)) fun ha => ha.2.2.1
  job_run_minted hj := (h.added hj).elim (fun ho => h.minted' (hm.job_run_minted ho)) fun ha => ha.2.2.2.1
  run_id hr := hm.run_id (h.runs ▸ hr)
  run_minted hr := h.minted' (hm.run_minted ((h.stored_iff _).mp hr))

theorem inv (hi : Inv W s) : Inv W s' where
  minted := h.ids hi.minted
  listing := h.listing hi.listing
  indexing := h.indexing hi.indexing
  binding :=
    { bound := by
        rw [h.deliveries, h.runs]
        exact hi.binding.bound
      run_bound := by
        rw [h.deliveries, h.runs]
        exact hi.binding.run_bound }
  settled := h.settled hi.listing hi.settled

end

end Orphaned

theorem inv_recordDelivery (hi : Inv W s) (d : Delivery) : Inv W (s.recordDelivery W d).2 := by
  unfold recordDelivery
  cases hd : s.deliveries.lookup d.key with
  | some record => exact hi
  | none =>
    refine ⟨⟨hi.minted.job_id, hi.minted.job_minted, hi.minted.job_run_minted, hi.minted.run_id,
      hi.minted.run_minted⟩, ⟨hi.listing.listed, hi.listing.nodup, hi.listing.complete,
      hi.listing.nonempty⟩, ⟨hi.indexing.stored_iff, hi.indexing.latest, hi.indexing.present,
      hi.indexing.attempt_unique, hi.indexing.attempt_closed⟩, ⟨?_, ?_⟩,
      hi.settled.congr rfl rfl rfl⟩
    · intro k rec r hk hr
      rw [GoMap.lookup_insert_ite] at hk
      split_ifs at hk
      · cases hk
        cases hr
      · exact hi.binding.bound hk hr
    · intro r run hr
      obtain ⟨rec, hrec, hrun⟩ := hi.binding.run_bound hr
      refine ⟨rec, ?_, hrun⟩
      rw [GoMap.lookup_insert_ite, if_neg]
      · exact hrec
      · intro heq
        rw [heq, hd] at hrec
        cases hrec

theorem not_stored_mint (hm : Minted W s) {n} (hn : s.minted ≤ n) : ¬s.Stored (W.ids.mint n) := by
  intro hr
  obtain ⟨m, hlt, heq⟩ := hm.run_minted hr
  have := W.ids.mint_injective heq
  omega

theorem fresh_of_minted (hm : Minted W s) : Fresh W s := by
  intro n hn
  cases hj : s.jobs.lookup (W.ids.mint n) with
  | none => rfl
  | some j =>
    obtain ⟨m, hlt, heq⟩ := hm.job_minted hj
    have := W.ids.mint_injective heq
    omega

theorem mem_newJobs {intents now} (h : j ∈ newJobs W s intents now) :
    ∃ intent ∈ intents, ∃ i, s.minted + 1 ≤ i ∧ i < s.minted + 1 + intents.length ∧
      j = newJob (W.ids.mint i) (W.ids.mint s.minted) intent now :=
  mem_drafts h

theorem drafted_lookup (hm : Minted W s) {l now} :
    (drafted W s l now).jobs.lookup id = some j ↔ (j ∈ newJobs W s l now ∧ j.id = id) ∨ s.jobs.lookup id = some j := by
  have hlook : (s.addJobs (newJobs W s l now)).jobs.lookup id = some j ↔ _ :=
    addJobs_lookup_eq_some (drafts_ids_nodup W _ now _ l)
  refine Iff.trans hlook (or_congr_right ⟨And.right, fun hold => ⟨?_, hold⟩⟩)
  intro d hd heq
  obtain ⟨intent, -, i, hlo, -, rfl⟩ := mem_newJobs hd
  rw [← heq, show (newJob (W.ids.mint i) (W.ids.mint s.minted) intent now).id = W.ids.mint i from rfl,
    fresh_of_minted hm i (by omega)] at hold
  cases hold

theorem orphaned_drafted (hm : Minted W s) (l : List JobIntent) (now : Time) : Orphaned W s (drafted W s l now) where
  deliveries := rfl
  runs := rfl
  byJobKey := rfl
  minted := by
    show s.minted ≤ s.minted + 1 + l.length
    omega
  kept hj := (drafted_lookup hm).mpr (.inr hj)
  added := by
    intro id j hj
    rcases (drafted_lookup hm).mp hj with ⟨hnew, hid⟩ | hold
    · obtain ⟨intent, -, i, hlo, hhi, rfl⟩ := mem_newJobs hnew
      refine .inr ⟨not_stored_mint hm (le_refl _), hid, ⟨i, hhi, hid.symm⟩, ⟨s.minted, ?_, rfl⟩,
        rfl, rfl⟩
      show s.minted < s.minted + 1 + l.length
      omega
    · exact .inl hold
  lists _ := .inl rfl

theorem run_unused (hm : Minted W s) (hj : s.jobs.lookup id = some j) : j.runID ≠ W.ids.mint s.minted := by
  obtain ⟨n, hn, heq⟩ := hm.job_run_minted hj
  intro h
  have := W.ids.mint_injective (heq.symm.trans h)
  omega

theorem newJobs_first {intents now} (h : j ∈ newJobs W s intents now) :
    j.runID = W.ids.mint s.minted ∧ j.attempt = 1 := by
  obtain ⟨intent, -, i, -, -, rfl⟩ := mem_newJobs h
  exact ⟨rfl, rfl⟩

/-- The attempts of the keys of these runs are numbered without gap or repetition. -/
structure NumberedOn (P : RunID → Prop) (s : DurableStore) : Prop where
  unique : ∀ {r key a id id'}, P r → s.AttemptOf r key a id → s.AttemptOf r key a id' → id' = id
  closed : ∀ {r key a id} (b : Nat), P r → s.AttemptOf r key a id → 1 ≤ b → b ≤ a → ∃ id', s.AttemptOf r key b id'

theorem attemptOf_lookup (h : s.jobs.lookup id = some j) : s.AttemptOf j.runID j.jobKey j.attempt id :=
  ⟨j, h, rfl, rfl, rfl⟩

theorem Indexing.numbered (hi : Indexing s) : NumberedOn s.Stored s := by
  refine ⟨?_, ?_⟩
  · rintro r key a id id' hr ⟨j, hj, rfl, rfl, rfl⟩ ⟨j', hj', hrun, hkey, hatt⟩
    exact hi.attempt_unique hr hj hj' hrun hkey hatt
  · rintro r key a id b hr ⟨j, hj, rfl, rfl, rfl⟩
    exact hi.attempt_closed b hr hj

/-- The first attempts of a new run are numbered if their keys are distinct. -/
theorem NumberedOn.drafts {P P' : RunID → Prop} {run : RunID} {l : List JobRunRecord} (hn : NumberedOn P s)
    (hP : ∀ r, P' r → r = run ∨ P r) (unused : ∀ {id job}, s.jobs.lookup id = some job → job.runID ≠ run)
    (first : ∀ job ∈ l, job.runID = run ∧ job.attempt = 1) (distinct : (l.map (·.jobKey)).Nodup)
    (jobs : ∀ {id job}, s'.jobs.lookup id = some job ↔ (job ∈ l ∧ job.id = id) ∨ s.jobs.lookup id = some job) :
    NumberedOn P' s' := by
  -- an attempt is a first attempt of the new run or an old one of another run
  have hsplit : ∀ {r key a id}, s'.AttemptOf r key a id →
      (r = run ∧ a = 1 ∧ ∃ job ∈ l, job.id = id ∧ job.jobKey = key) ∨ (r ≠ run ∧ s.AttemptOf r key a id) := by
    rintro r key a id ⟨job, hjob, rfl, rfl, rfl⟩
    rcases jobs.mp hjob with ⟨hmem, hid⟩ | hold
    · exact .inl ⟨(first job hmem).1, (first job hmem).2, job, hmem, hid, rfl⟩
    · exact .inr ⟨unused hold, attemptOf_lookup hold⟩
  refine ⟨?_, ?_⟩
  · intro r key a id id' hr h h'
    rcases hsplit h with ⟨hrun, -, job, hmem, hid, hkey⟩ | ⟨hrun, hold⟩
    · rcases hsplit h' with ⟨-, -, job', hmem', hid', hkey'⟩ | ⟨hrun', -⟩
      · rw [← hid, ← hid', List.inj_on_of_nodup_map distinct hmem' hmem (hkey'.trans hkey.symm)]
      · exact absurd hrun hrun'
    · rcases hsplit h' with ⟨hrun', -⟩ | ⟨-, hold'⟩
      · exact absurd hrun' hrun
      · exact hn.unique ((hP r hr).resolve_left hrun) hold hold'
  · intro r key a id b hr h hb hba
    rcases hsplit h with ⟨-, hone, -⟩ | ⟨hrun, hold⟩
    · obtain rfl : b = a := by omega
      exact ⟨id, h⟩
    · obtain ⟨id', job, hjob, hnum⟩ := hn.closed b ((hP r hr).resolve_left hrun) hold hb hba
      exact ⟨id', job, jobs.mpr (.inr hjob), hnum⟩

section Committed

variable {record : DeliveryRecord} {seed : RunSeed} {now : Time}

theorem committed_jobIDs (r : RunID) : (committed W s record seed now).jobIDs r =
      if r = W.ids.mint s.minted then (newJobs W s seed.jobs now).map (·.id) else s.jobIDs r := by
  unfold jobIDs committed
  rw [GoMap.lookup_insert_ite]
  split_ifs <;> rfl

theorem committed_indexed (r : RunID) (key : String) : (committed W s record seed now).indexed r key =
      if r = W.ids.mint s.minted then (addKeys ∅ (newJobs W s seed.jobs now)).lookup key else s.indexed r key := by
  unfold indexed committed
  rw [GoMap.lookup_insert_ite]
  split_ifs <;> rfl

theorem committed_run (r : RunID) : (committed W s record seed now).runs.lookup r =
      if r = W.ids.mint s.minted then some (newRun W s seed now) else s.runs.lookup r :=
  GoMap.lookup_insert_ite _ _ _ _

theorem committed_stored (r : RunID) :
    (committed W s record seed now).Stored r ↔ r = W.ids.mint s.minted ∨ s.Stored r := by
  unfold Stored
  rw [committed_run]
  split_ifs with h
  · simp [h]
  · simp [h]

section

variable (hm : Minted W s)
include hm

/-- The jobs of the new run are the new jobs; those of any other run are those it had. -/
theorem committed_job (hj : (committed W s record seed now).jobs.lookup id = some j) :
    (j.runID = W.ids.mint s.minted ∧ j ∈ newJobs W s seed.jobs now ∧ j.id = id) ∨
      (j.runID ≠ W.ids.mint s.minted ∧ s.jobs.lookup id = some j) := by
  rcases (drafted_lookup hm).mp hj with ⟨hnew, hid⟩ | hold
  · exact .inl ⟨(newJobs_first hnew).1, hnew, hid⟩
  · exact .inr ⟨run_unused hm hold, hold⟩

theorem minted_committed : Minted W (committed W s record seed now) := by
  have hd := orphaned_drafted hm seed.jobs now
  have hids := hd.ids hm
  refine ⟨hids.job_id, hids.job_minted, hids.job_run_minted, ?_, ?_⟩
  · intro r run hr
    rw [committed_run] at hr
    split_ifs at hr with heq
    · rw [heq, ← Option.some.inj hr]
      rfl
    · exact hm.run_id hr
  · intro r hr
    rcases (committed_stored r).mp hr with rfl | hold
    · refine ⟨s.minted, ?_, rfl⟩
      show s.minted < s.minted + 1 + seed.jobs.length
      omega
    · exact hd.minted' (hm.run_minted hold)

theorem newJobs_lookup (hj : j ∈ newJobs W s seed.jobs now) :
    (committed W s record seed now).jobs.lookup j.id = some j :=
  (drafted_lookup hm).mpr (.inl ⟨hj, rfl⟩)

theorem listing_committed (hl : Listing s) (hne : seed.jobs ≠ []) :
    Listing (committed W s record seed now) := by
  have hold : ∀ {id j}, s.jobs.lookup id = some j → (committed W s record seed now).jobs.lookup id = some j :=
    (orphaned_drafted hm seed.jobs now).kept
  refine ⟨?_, ?_, ?_, ?_⟩
  · intro r id hid
    rw [committed_jobIDs] at hid
    split_ifs at hid with heq
    · obtain ⟨j, hj, rfl⟩ := List.mem_map.mp hid
      refine ⟨j, newJobs_lookup hm hj, ?_⟩
      obtain ⟨intent, -, i, -, -, rfl⟩ := mem_newJobs hj
      exact heq.symm
    · obtain ⟨j, hj, hr⟩ := hl.listed hid
      exact ⟨j, hold hj, hr⟩
  · intro r
    rw [committed_jobIDs]
    split_ifs
    · exact drafts_ids_nodup W _ now _ _
    · exact hl.nodup r
  · intro r id j hr hj hrun
    rw [committed_jobIDs]
    rcases committed_job hm hj with ⟨hnew, hmem, hid⟩ | ⟨hne', hlook⟩
    · rw [if_pos (hrun ▸ hnew), ← hid]
      exact List.mem_map_of_mem hmem
    · rw [if_neg (hrun ▸ hne')]
      exact hl.complete (((committed_stored r).mp hr).resolve_left (hrun ▸ hne')) hlook hrun
  · intro r hr
    rw [committed_jobIDs]
    split_ifs with heq
    · intro hnil
      have hkeys := drafts_map_jobKey W (W.ids.mint s.minted) now (s.minted + 1) seed.jobs
      rw [show drafts W (W.ids.mint s.minted) now (s.minted + 1) seed.jobs = [] from
        List.map_eq_nil_iff.mp hnil, List.map_nil] at hkeys
      exact hne (List.map_eq_nil_iff.mp hkeys.symm)
    · exact hl.nonempty (((committed_stored r).mp hr).resolve_left heq)

/-- The jobs listed for the new run are the new jobs, in the order of the seed. -/
theorem committed_jobsOf_new :
    (committed W s record seed now).jobsOf (W.ids.mint s.minted) = newJobs W s seed.jobs now := by
  unfold jobsOf
  rw [committed_jobIDs, if_pos rfl, List.filterMap_map]
  refine (List.filterMap_congr fun j hj => ?_).trans List.filterMap_some
  exact newJobs_lookup hm hj

theorem committed_jobsOf_old (hl : Listing s) (hr : r ≠ W.ids.mint s.minted) :
    (committed W s record seed now).jobsOf r = s.jobsOf r := by
  unfold jobsOf
  rw [committed_jobIDs, if_neg hr]
  refine List.filterMap_congr fun i hid => ?_
  obtain ⟨j, hj, -⟩ := hl.listed hid
  rw [hj]
  exact (orphaned_drafted hm seed.jobs now).kept hj

theorem indexing_committed (hi : Indexing s) (hdistinct : (seed.jobs.map (·.jobKey)).Nodup) :
    Indexing (committed W s record seed now) := by
  have hkept : ∀ {id j}, s.jobs.lookup id = some j → (committed W s record seed now).jobs.lookup id = some j :=
    (orphaned_drafted hm seed.jobs now).kept
  have hkeys : ((newJobs W s seed.jobs now).map (·.jobKey)).Nodup :=
    (drafts_map_jobKey W _ now _ seed.jobs).symm ▸ hdistinct
  have hnum : NumberedOn (committed W s record seed now).Stored (committed W s record seed now) :=
    hi.numbered.drafts (fun r => (committed_stored r).mp) (run_unused hm) (fun _ => newJobs_first) hkeys
      (drafted_lookup hm)
  refine ⟨fun r => ?_, ?_, ?_, fun hr hj hj' hrun hkey hatt => hnum.unique hr (attemptOf_lookup hj)
    ⟨_, hj', hrun, hkey, hatt⟩, fun b hr hj => hnum.closed b hr (attemptOf_lookup hj)⟩
  · rw [committed_stored, ← hi.stored_iff]
    show ((s.byJobKey.insert _ _).lookup r).isSome ↔ _
    rw [GoMap.lookup_insert_ite]
    split_ifs with heq
    · simp [heq]
    · simp [heq]
  · intro r key id hid
    rw [committed_indexed] at hid
    split_ifs at hid with heq
    · rcases (addKeys_lookup hkeys).mp hid with ⟨j, hj, hkey, rfl⟩ | ⟨-, hnone⟩
      · refine ⟨j, newJobs_lookup hm hj, (newJobs_first hj).1.trans heq.symm, hkey, fun i ji hlook hri hki => ?_⟩
        rcases committed_job hm hlook with ⟨-, hmem, -⟩ | ⟨hne, -⟩
        · rw [(newJobs_first hmem).2, (newJobs_first hj).2]
        · exact absurd (hri.trans heq) hne
      · rw [AList.lookup_empty] at hnone
        cases hnone
    · obtain ⟨j, hj, hr, hk, hmax⟩ := hi.latest hid
      refine ⟨j, hkept hj, hr, hk, fun i ji hlook hri hki => ?_⟩
      rcases committed_job hm hlook with ⟨hnew, -⟩ | ⟨-, hold⟩
      · exact absurd (hri.symm.trans hnew) heq
      · exact hmax i ji hold hri hki
  · intro id j hr hj
    rw [committed_indexed]
    rcases committed_job hm hj with ⟨hnew, hmem, -⟩ | ⟨hne, hold⟩
    · rw [if_pos hnew, (addKeys_lookup hkeys).mpr (.inl ⟨j, hmem, rfl, rfl⟩)]
      rfl
    · rw [if_neg hne]
      exact hi.present (((committed_stored _).mp hr).resolve_left hne) hold

theorem binding_committed (hb : Binding s) (hrec : s.deliveries.lookup seed.delivery = some record)
    (hnone : record.runID = none) : Binding (committed W s record seed now) := by
  refine ⟨?_, ?_⟩
  · intro k rec r hk hr
    rw [committed_run]
    have hk' : (s.deliveries.insert seed.delivery
        { record with runID := some (W.ids.mint s.minted) }).lookup k = some rec := hk
    rw [GoMap.lookup_insert_ite] at hk'
    split_ifs at hk' with heq
    · cases hk'
      cases hr
      exact ⟨newRun W s seed now, if_pos rfl, heq.symm⟩
    · obtain ⟨run, hrun, hdel⟩ := hb.bound hk' hr
      refine ⟨run, ?_, hdel⟩
      rw [if_neg]
      · exact hrun
      · intro h
        exact not_stored_mint hm (le_refl _) ⟨run, h ▸ hrun⟩
  · intro r run hr
    show ∃ rec, (s.deliveries.insert seed.delivery
        { record with runID := some (W.ids.mint s.minted) }).lookup run.delivery = some rec ∧ _
    rw [committed_run] at hr
    rw [GoMap.lookup_insert_ite]
    split_ifs at hr with heq
    · cases hr
      exact ⟨_, if_pos rfl, by rw [heq]⟩
    · obtain ⟨rec, hk, hrun⟩ := hb.run_bound hr
      refine ⟨rec, ?_, hrun⟩
      rw [if_neg]
      · exact hk
      · -- the delivery of another run is bound already
        intro h
        rw [h] at hk
        rw [Option.mem_unique hk hrec, hnone] at hrun
        cases hrun

theorem settled_committed (hl : Listing s) (hs : Settled s) (hne : seed.jobs ≠ []) :
    Settled (committed W s record seed now) := by
  have hlc : Listing (committed W s record seed now) := listing_committed hm hl hne
  refine ⟨?_, ?_, ?_⟩
  · intro r run hr
    have hst : (committed W s record seed now).Stored r := ⟨run, hr⟩
    rw [committed_run] at hr
    split_ifs at hr with heq
    · -- a new run is queued, and so are its jobs
      cases hr
      refine iff_of_false (by simp [newRun, WorkflowRunStatus.isTerminal]) fun hall => ?_
      obtain ⟨j, hj⟩ := List.exists_mem_of_ne_nil _ (jobsOf_ne_nil hlc hst)
      have hterm := hall j hj
      rw [heq, committed_jobsOf_new hm] at hj
      obtain ⟨intent, -, i, -, -, rfl⟩ := mem_newJobs hj
      cases hterm
    · rw [committed_jobsOf_old hm hl heq]
      exact hs.run_terminal hr
  · intro r run hr
    rw [committed_run] at hr
    split_ifs at hr
    · cases hr
      simp [newRun, WorkflowRunStatus.isTerminal]
    · exact hs.run_finished hr
  · intro id j hj
    exact ((orphaned_drafted hm seed.jobs now).settled hl hs).job_finished hj

end

theorem inv_committed (hi : Inv W s) (hrec : s.deliveries.lookup seed.delivery = some record)
    (hnone : record.runID = none) (hne : seed.jobs ≠ []) (hdistinct : (seed.jobs.map (·.jobKey)).Nodup) :
    Inv W (committed W s record seed now) where
  minted := minted_committed hi.minted
  listing := listing_committed hi.minted hi.listing hne
  indexing := indexing_committed hi.minted hi.indexing hdistinct
  binding := binding_committed hi.minted hi.binding hrec hnone
  settled := settled_committed hi.minted hi.listing hi.settled hne

end Committed

theorem inv_createRun (hi : Inv W s) (seed : RunSeed) (now : Time) : Inv W (s.createRun W seed now).2 := by
  have hout := createRun_outcome W s seed now
  generalize s.createRun W seed now = out at hout
  cases hout with
  | found | refused => exact hi
  | created recorded unbound nonempty distinct =>
    exact inv_committed hi recorded unbound nonempty distinct
  | duplicate => exact (orphaned_drafted hi.minted _ now).inv hi

end Forgelet.DurableStore
