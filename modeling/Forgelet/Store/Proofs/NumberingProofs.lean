import Forgelet.Store.Proofs.HistoryProofs

/-!
# Proofs: the numbering of attempts

What a call can add to the jobs is said once, by `Growth`: nothing, the first attempts of a new run, or the next
attempt of a job. So attempts are numbered without gap or repetition, also those of the jobs that a failed `CreateRun`
leaves without a run. When all seeds have distinct keys there are no such jobs, and the by-key index points to the last
attempt of every key.
-/

namespace Forgelet.DurableStore

open Relation

variable {W : Wiring} {s s' : DurableStore} {ok : DurableStore → StoreOp → Prop}

variable {op : StoreOp} {job : JobRunRecord}

theorem steps_of_with (h : ReflTransGen (StepWith W ok) s s') : ReflTransGen (Step W) s s' := by
  induction h with
  | refl => exact .refl
  | tail _ hstep ih =>
    obtain ⟨op, -, heq⟩ := hstep
    exact ih.tail ⟨op, heq⟩

theorem reachable_of_with (h : ReachableWith W ok s) : Reachable W s := steps_of_with h

theorem ReachableWith.invariant {P : DurableStore → Prop} (h : ReachableWith W ok s) (hnew : P new)
    (hstep : ∀ {s op}, Inv W s → ok s op → P s → P (op.apply W s)) : P s := by
  induction h with
  | refl => exact hnew
  | tail hreach hlast ih =>
    obtain ⟨op, hok, rfl⟩ := hlast
    exact hstep (inv_reachable (reachable_of_with hreach)) hok ih

/-! ## What a call adds -/

/-- The jobs that an operation adds. -/
inductive Growth (s s' : DurableStore) : StoreOp → Prop
  | nothing {op : StoreOp} (jobs : ∀ id, (s'.jobs.lookup id).map (·.asCreated) = (s.jobs.lookup id).map (·.asCreated))
      (jobIDs : ∀ r, s'.jobIDs r = s.jobIDs r) : Growth s s' op
  | drafts {op : StoreOp} {r : RunID} {l : List JobRunRecord}
    (unused : ∀ {id job}, s.jobs.lookup id = some job → job.runID ≠ r)
      (first : ∀ job ∈ l, job.runID = r ∧ job.attempt = 1) (distinct : (l.map (·.jobKey)).Nodup)
      (jobs : ∀ {id job}, s'.jobs.lookup id = some job ↔ (job ∈ l ∧ job.id = id) ∨ s.jobs.lookup id = some job)
      (jobIDs : ∀ r', r' ≠ r → s'.jobIDs r' = s.jobIDs r') : Growth s s' op
  | next {id new : JobRunID} {orig : JobRunRecord} {now : Time} (found : s.jobs.lookup id = some orig)
      (last : ∀ j ∈ s.jobsOf orig.runID, j.jobKey = orig.jobKey → j.attempt ≠ orig.attempt + 1)
      (unused : s.jobs.lookup new = none)
      (jobs : ∀ i, s'.jobs.lookup i = if i = new then some (nextAttempt new orig now) else s.jobs.lookup i)
      (jobIDs : ∀ r, s'.jobIDs r = if r = orig.runID then s.jobIDs orig.runID ++ [new] else s.jobIDs r) :
      Growth s s' (.rerequestJob id now)

theorem Growth.of_rewritten (h : Rewritten s s') : Growth s s' op := .nothing h.jobs h.jobIDs_eq

theorem growth_drafts (hm : Minted W s) {l now} (hkeys : (l.map (·.jobKey)).Nodup)
    (hjobs : s'.jobs = (drafted W s l now).jobs) (hids : ∀ r, r ≠ W.ids.mint s.minted → s'.jobIDs r = s.jobIDs r) :
    Growth s s' op := by
  refine .drafts (l := newJobs W s l now) (run_unused hm) (fun _ => newJobs_first) ?_ ?_ hids
  · rw [newJobs, drafts_map_jobKey]
    exact hkeys
  · intro id job
    rw [hjobs]
    exact drafted_lookup hm

theorem growth_createRun (hm : Minted W s) (seed : RunSeed) (now : Time) :
    Growth s (s.createRun W seed now).2 (.createRun seed now) := by
  by_cases hrep : ∃ record, s.deliveries.lookup seed.delivery = some record ∧ record.runID = none ∧
      ¬(seed.jobs.map (·.jobKey)).Nodup
  · obtain ⟨record, hrec, hnone, hnot⟩ := hrep
    obtain ⟨l, hkeys, heq⟩ := createRun_repeated W hrec hnone hnot now
    rw [heq]
    exact growth_drafts hm hkeys rfl fun _ _ => rfl
  · have hout := createRun_outcome W s seed now
    generalize s.createRun W seed now = out at hout
    cases hout with
    | found | refused => exact .of_rewritten (.refl s)
    | created recorded unbound nonempty distinct =>
      refine growth_drafts hm distinct rfl fun r hr => ?_
      rw [committed_jobIDs, if_neg hr]
    | duplicate recorded unbound repeated => exact absurd ⟨_, recorded, unbound, repeated⟩ hrep

variable {orig : JobRunRecord}

theorem rerequestJob_of_listed {id} (found : s.jobs.lookup id = some orig) {j} (listed : j ∈ s.jobsOf orig.runID)
    (key : j.jobKey = orig.jobKey) (next : j.attempt = orig.attempt + 1) (now : Time) :
    ∃ j' ∈ s.jobsOf orig.runID, j'.jobKey = orig.jobKey ∧ j'.attempt = orig.attempt + 1 ∧
      s.rerequestJob W id now = (.ok j'.id, s) := by
  have hsome : ((s.jobsOf orig.runID).find? fun j =>
      j.jobKey = orig.jobKey ∧ j.attempt = orig.attempt + 1).isSome = true :=
    List.find?_isSome.mpr ⟨j, listed, decide_eq_true ⟨key, next⟩⟩
  obtain ⟨j', hfind⟩ := Option.isSome_iff_exists.mp hsome
  have hprop := List.find?_some hfind
  simp only [decide_eq_true_eq] at hprop
  refine ⟨j', List.mem_of_find?_eq_some hfind, hprop.1, hprop.2, ?_⟩
  unfold rerequestJob
  rw [found]
  dsimp only
  rw [hfind]

theorem growth_rerequestJob (hi : Inv W s) (id : JobRunID) (now : Time) :
    Growth s (s.rerequestJob W id now).2 (.rerequestJob id now) := by
  have hfresh := fresh_of_minted hi.minted s.minted (le_refl _)
  by_cases hlisted : ∃ orig, s.jobs.lookup id = some orig ∧
      ∃ j ∈ s.jobsOf orig.runID, j.jobKey = orig.jobKey ∧ j.attempt = orig.attempt + 1
  · obtain ⟨orig, found, j, listed, key, next⟩ := hlisted
    obtain ⟨j', -, -, -, heq⟩ := rerequestJob_of_listed (W := W) found listed key next now
    rw [heq]
    exact .of_rewritten (.refl s)
  · have hout := rerequestJob_outcome W s id now
    generalize s.rerequestJob W id now = out at hout
    cases hout with
    | missing | existing => exact .of_rewritten (.refl s)
    | orphan found unstored =>
      refine .next found ?_ hfresh (appended_lookup _ now) (appended_jobIDs _ now)
      intro j listed key next
      exact hlisted ⟨_, found, j, listed, key, next⟩
    | attempt found last stored => exact .next found last hfresh reattempted_lookup reattempted_jobIDs

theorem growth_apply (hi : Inv W s) (op : StoreOp) : Growth s (op.apply W s) op := by
  cases op using apply_cases W s with
  | recordDelivery d =>
    refine .nothing (fun id => ?_) fun r => ?_
    · rw [StoreOp.apply, recordDelivery]
      split <;> rfl
    · rw [StoreOp.apply, recordDelivery]
      split <;> rfl
  | createRun seed now => exact growth_createRun hi.minted seed now
  | rerequestJob i now => exact growth_rerequestJob hi i now
  | rewrites op hre => exact .of_rewritten hre.toRewritten

/-! ## Attempts have no gap and no repetition -/

section Attempts

variable {r : RunID} {key : String} {a : Nat} {id : JobRunID}

theorem AttemptOf.rewrite (h : s.AttemptOf r key a id)
    (jobs : ∀ id, (s'.jobs.lookup id).map (·.asCreated) = (s.jobs.lookup id).map (·.asCreated)) :
    s'.AttemptOf r key a id := by
  obtain ⟨job, hjob, hrun, hkey, hatt⟩ := h
  have hid := jobs id
  rw [hjob, Option.map_some] at hid
  obtain ⟨job', hjob', hsame⟩ := Option.map_eq_some_iff.mp hid
  obtain ⟨-, hrun', hkey', hatt', -⟩ := JobRunRecord.of_asCreated_eq hsame
  exact ⟨job', hjob', hrun'.trans hrun, hkey'.trans hkey, hatt'.trans hatt⟩

theorem AttemptOf.grow (h : s.AttemptOf r key a id) (hg : Growth s s' op) : s'.AttemptOf r key a id := by
  obtain ⟨job, hjob, hrun, hkey, hatt⟩ := h
  cases hg with
  | nothing jobs jobIDs => exact AttemptOf.rewrite ⟨job, hjob, hrun, hkey, hatt⟩ jobs
  | drafts unused first distinct jobs jobIDs => exact ⟨job, jobs.mpr (.inr hjob), hrun, hkey, hatt⟩
  | next found last unused jobs jobIDs =>
    refine ⟨job, ?_, hrun, hkey, hatt⟩
    rw [jobs, if_neg]
    · exact hjob
    · rintro rfl
      rw [unused] at hjob
      cases hjob

section

variable (hn : Numbering s)
include hn

/-- No job of the key has the number of the next attempt if none is listed with it. -/
theorem Numbering.not_next {i} (found : s.jobs.lookup i = some orig)
    (last : ∀ j ∈ s.jobsOf orig.runID, j.jobKey = orig.jobKey → j.attempt ≠ orig.attempt + 1) :
    ¬s.AttemptOf orig.runID orig.jobKey (orig.attempt + 1) id := by
  rintro ⟨job, hjob, hrun, hkey, hatt⟩
  have hpos := hn.positive found
  have hlisted := hn.listed hjob (by omega)
  rw [hrun] at hlisted
  exact last job (mem_jobsOf.mpr ⟨id, hlisted, hjob⟩) hkey hatt

theorem Numbering.rewrite
    (jobs : ∀ id, (s'.jobs.lookup id).map (·.asCreated) = (s.jobs.lookup id).map (·.asCreated))
    (jobIDs : ∀ r, s'.jobIDs r = s.jobIDs r) : Numbering s' := by
  have hback : ∀ {r key a id}, s'.AttemptOf r key a id → s.AttemptOf r key a id :=
    fun h => h.rewrite fun id => (jobs id).symm
  refine ⟨?_, ?_, ?_, ?_⟩
  · intro id job hjob
    obtain ⟨old, hold, -, -, hatt⟩ := hback (attemptOf_lookup hjob)
    rw [← hatt]
    exact hn.positive hold
  · intro r key a id id' h h'
    exact hn.unique (hback h) (hback h')
  · intro r key a id b h hb hba
    obtain ⟨id', h'⟩ := hn.closed b (hback h) hb hba
    exact ⟨id', h'.rewrite jobs⟩
  · intro id job hjob htwo
    obtain ⟨old, hold, hrun, -, hatt⟩ := hback (attemptOf_lookup hjob)
    rw [jobIDs, ← hrun]
    exact hn.listed hold (by omega)

theorem Numbering.on : NumberedOn (fun _ => True) s := ⟨fun _ => hn.unique, fun b _ => hn.closed b⟩

theorem Numbering.grow (hg : Growth s s' op) : Numbering s' := by
  cases hg with
  | nothing jobs jobIDs => exact hn.rewrite jobs jobIDs
  | @drafts _ run l unused first distinct jobs jobIDs =>
    have hnum : NumberedOn (fun _ => True) s' := hn.on.drafts (fun _ => .inr) unused first distinct jobs
    refine ⟨?_, hnum.unique trivial, fun b => hnum.closed b trivial, ?_⟩
    · intro id job hjob
      rcases jobs.mp hjob with ⟨hmem, -⟩ | hold
      · exact (first job hmem).2.ge
      · exact hn.positive hold
    · intro id job hjob htwo
      rcases jobs.mp hjob with ⟨hmem, -⟩ | hold
      · have := (first job hmem).2
        omega
      · rw [jobIDs _ (unused hold)]
        exact hn.listed hold htwo
  | @next i new orig now found last unused jobs jobIDs =>
    have hnum : NumberedOn (fun _ => True) s' :=
      hn.on.next (fun _ h => h) trivial found (fun _ => hn.not_next found last) unused jobs
    refine ⟨?_, hnum.unique trivial, fun b => hnum.closed b trivial, ?_⟩
    · intro id job hjob
      rw [jobs] at hjob
      split_ifs at hjob
      · cases hjob
        exact Nat.le_add_left 1 orig.attempt
      · exact hn.positive hjob
    · intro id job hjob htwo
      rw [jobs] at hjob
      rw [jobIDs]
      split_ifs at hjob with heq
      · cases hjob
        rw [heq, nextAttempt, if_pos rfl]
        exact List.mem_append_right _ (.head _)
      · have hmem := hn.listed hjob htwo
        split_ifs with hrun
        · rw [hrun] at hmem
          exact List.mem_append_left _ hmem
        · exact hmem

end

end Attempts

theorem numbering_new : Numbering new where
  positive := fun h => by cases h
  unique := fun ⟨_, h, _⟩ => by cases h
  closed := fun _ ⟨_, h, _⟩ => by cases h
  listed := fun h => by cases h

theorem numbering_reachable (h : Reachable W s) : Numbering s := by
  induction h with
  | refl => exact numbering_new
  | tail hreach hstep ih =>
    obtain ⟨op, rfl⟩ := hstep
    exact ih.grow (growth_apply (inv_reachable hreach) op)

/-! ## Every job has a run -/

theorem Owned.rewrite (ho : Owned s) (h : Rewritten s s') : Owned s' := by
  intro id job hjob
  obtain ⟨old, hold, hsame⟩ := h.job hjob
  rw [(JobRunRecord.of_asCreated_eq hsame).2.1]
  exact h.symm.stored (ho id old hold)

theorem owned_createRun (hi : Inv W s) (ho : Owned s) {seed} (hkeys : (seed.jobs.map (·.jobKey)).Nodup) (now : Time) :
    Owned (s.createRun W seed now).2 := by
  have hout := createRun_outcome W s seed now
  generalize s.createRun W seed now = out at hout
  cases hout with
  | found | refused => exact ho
  | created recorded unbound nonempty distinct =>
    intro id job hjob
    rw [committed_stored]
    rcases committed_job hi.minted hjob with ⟨hrun, -⟩ | ⟨-, hold⟩
    · exact .inl hrun
    · exact .inr (ho id job hold)
  | duplicate recorded unbound repeated => exact absurd hkeys repeated

theorem owned_rerequestJob (hi : Inv W s) (ho : Owned s) (id : JobRunID) (now : Time) :
    Owned (s.rerequestJob W id now).2 := by
  have hout := rerequestJob_outcome W s id now
  generalize s.rerequestJob W id now = out at hout
  cases hout with
  | missing | existing => exact ho
  | orphan found unstored =>
    have hsome := (hi.indexing.stored_iff _).mpr (ho id _ found)
    rw [unstored] at hsome
    cases hsome
  | @attempt orig keyIndex found last stored =>
    intro i job hjob
    rw [reattempted_stored]
    rcases reattempted_job hjob with ⟨-, rfl⟩ | hold
    · exact ho id orig found
    · exact ho i job hold

theorem owned_step (hi : Inv W s) (hok : DistinctKeys s op) (ho : Owned s) : Owned (op.apply W s) := by
  cases op using apply_cases W s with
  | recordDelivery d =>
    rw [StoreOp.apply, recordDelivery]
    split <;> exact ho
  | createRun seed now => exact owned_createRun hi ho hok now
  | rerequestJob i now => exact owned_rerequestJob hi ho i now
  | rewrites op hre => exact ho.rewrite hre.toRewritten

theorem owned_reachable (h : ReachableWith W DistinctKeys s) : Owned s :=
  h.invariant (fun _ _ h => by cases h) fun hi hok => owned_step hi hok

/-! ## The attempts of a key, and the next one -/

theorem exists_indexed (hi : Inv W s) {id} (hr : s.Stored job.runID) (hjob : s.jobs.lookup id = some job) :
    ∃ last job', s.indexed job.runID job.jobKey = some last ∧ s.jobs.lookup last = some job' ∧
      job'.runID = job.runID ∧ job'.jobKey = job.jobKey ∧
      ∀ id' job'', s.jobs.lookup id' = some job'' → job''.runID = job.runID → job''.jobKey = job.jobKey →
        job''.attempt ≤ job'.attempt := by
  obtain ⟨last, hlast⟩ := Option.isSome_iff_exists.mp (hi.indexing.present hr hjob)
  obtain ⟨job', hjob', hrun, hkey, hmax⟩ := hi.indexing.latest hlast
  exact ⟨last, job', hlast, hjob', hrun, hkey, hmax⟩

theorem depStatus_iff {r} (hi : Inv W s) (hr : s.Stored r) {key status} :
    s.depStatus r key = some status ↔
      ∃ id job, s.jobs.lookup id = some job ∧ job.runID = r ∧ job.jobKey = key ∧ job.status = status ∧
        ∀ id' job', s.jobs.lookup id' = some job' → job'.runID = r → job'.jobKey = key →
          job'.attempt ≤ job.attempt := by
  constructor
  · intro h
    obtain ⟨id, job, -, hjob⟩ := hi.indexing.depStatus h
    exact ⟨id, job, hjob⟩
  · rintro ⟨id, job, hjob, rfl, rfl, rfl, hmax⟩
    obtain ⟨last, job', hlast, hjob', hrun', hkey', hmax'⟩ := exists_indexed hi hr hjob
    have hatt : job'.attempt = job.attempt := le_antisymm (hmax last job' hjob' hrun' hkey') (hmax' id job hjob rfl rfl)
    obtain rfl := hi.indexing.attempt_unique hr hjob hjob' hrun' hkey' hatt
    rw [depStatus, hlast, Option.bind_some, hjob, Option.map_some]

theorem exists_depStatus {r} (hi : Inv W s) (hr : s.Stored r) (h : job ∈ s.jobsOf r) :
    ∃ status, s.depStatus r job.jobKey = some status := by
  obtain ⟨id, hjob, rfl⟩ := (hi.listing.mem_jobsOf_iff hr).mp h
  obtain ⟨last, latest, hlast, hlatest, -⟩ := exists_indexed hi hr hjob
  exact ⟨latest.status, by rw [depStatus, hlast, Option.bind_some, hlatest, Option.map_some]⟩

/-- The attempts of a key are numbered up to some `n`, and the index points to the `n`-th. -/
theorem attempts_of_key (hi : Inv W s) (hn : Numbering s) (ho : Owned s) (r : RunID) (key : String) :
    ∃ n, (∀ a, 1 ≤ a → a ≤ n → ∃! id, s.AttemptOf r key a id) ∧ (∀ a id, s.AttemptOf r key a id → 1 ≤ a ∧ a ≤ n) ∧
      ∀ id, s.indexed r key = some id ↔ s.AttemptOf r key n id := by
  cases hidx : s.indexed r key with
  | none =>
    have hno : ∀ a id, ¬s.AttemptOf r key a id := by
      rintro a id ⟨job, hjob, rfl, rfl, -⟩
      have hsome := hi.indexing.present (ho id job hjob) hjob
      rw [hidx] at hsome
      cases hsome
    refine ⟨0, fun a h1 h0 => ?_, fun a id h => absurd h (hno a id), fun id => ?_⟩
    · omega
    · exact iff_of_false (fun h => by cases h) (hno 0 id)
  | some last =>
    obtain ⟨j, hj, hrun, hkey, hmax⟩ := hi.indexing.latest hidx
    have hlast : s.AttemptOf r key j.attempt last := ⟨j, hj, hrun, hkey, rfl⟩
    refine ⟨j.attempt, fun a h1 hle => ?_, ?_, fun id => ?_⟩
    · obtain ⟨id, hid⟩ := hn.closed a hlast h1 hle
      exact ⟨id, hid, fun id' hid' => hn.unique hid hid'⟩
    · rintro a id ⟨job, hjob, hrun', hkey', rfl⟩
      exact ⟨hn.positive hjob, hmax id job hjob hrun' hkey'⟩
    · constructor
      · intro h
        cases h
        exact hlast
      · intro h
        rw [hn.unique h hlast]

theorem rerequestJob_existing (hi : Inv W s) (hn : Numbering s) {id new} (hjob : s.jobs.lookup id = some job)
    (hnew : s.AttemptOf job.runID job.jobKey (job.attempt + 1) new) (now : Time) :
    s.rerequestJob W id now = (.ok new, s) := by
  obtain ⟨j, hj, hrun, hkey, hatt⟩ := hnew
  have hpos := hn.positive hjob
  have hmem := hn.listed hj (by omega)
  rw [hrun] at hmem
  obtain ⟨j', hlisted, hkey', hatt', heq⟩ :=
    rerequestJob_of_listed (W := W) hjob (mem_jobsOf.mpr ⟨new, hmem, hj⟩) hkey hatt now
  obtain ⟨id', hj', hrun'⟩ := hi.listing.of_mem hlisted
  have hsame : id' = new := hn.unique ⟨j, hj, hrun, hkey, hatt⟩ ⟨j', hj', hrun', hkey', hatt'⟩
  rw [heq, hi.minted.job_id hj', hsame]

theorem AttemptOf.carry {s'' r key a id} (h : s.AttemptOf r key a id) (hreach : Reachable W s)
    (hcalls : ReflTransGen (Step W) s s'') : s''.AttemptOf r key a id := by
  induction hcalls with
  | refl => exact h
  | tail hbefore hstep ih =>
    obtain ⟨op, rfl⟩ := hstep
    exact ih.grow (growth_apply (inv_reachable (ReflTransGen.trans hreach hbefore)) op)

/-- `RerequestJob` returns the next attempt, which it creates if there is none. -/
theorem rerequestJob_next (hi : Inv W s) (hn : Numbering s) (ho : Owned s) {id} (hjob : s.jobs.lookup id = some job)
    (now : Time) : ∃ new s', s.rerequestJob W id now = (.ok new, s') ∧
      s'.AttemptOf job.runID job.jobKey (job.attempt + 1) new ∧
      ((s.AttemptOf job.runID job.jobKey (job.attempt + 1) new ∧ s' = s) ∨
        ((∀ i, ¬s.AttemptOf job.runID job.jobKey (job.attempt + 1) i) ∧ s.jobs.lookup new = none ∧
          ∀ i, i ≠ new → s'.jobs.lookup i = s.jobs.lookup i)) := by
  by_cases hex : ∃ new, s.AttemptOf job.runID job.jobKey (job.attempt + 1) new
  · obtain ⟨new, hnew⟩ := hex
    exact ⟨new, s, rerequestJob_existing hi hn hjob hnew now, hnew, .inl ⟨hnew, rfl⟩⟩
  · have hout := rerequestJob_outcome W s id now
    generalize s.rerequestJob W id now = out at hout
    cases hout with
    | missing absent =>
      rw [hjob] at absent
      cases absent
    | @existing orig j found listed key next =>
      obtain rfl := Option.mem_unique hjob found
      obtain ⟨id', hj, hrun⟩ := hi.listing.of_mem listed
      exact absurd ⟨id', j, hj, hrun, key, next⟩ hex
    | orphan found unstored =>
      have hsome := (hi.indexing.stored_iff _).mpr (ho id _ found)
      rw [unstored] at hsome
      cases hsome
    | attempt found last stored =>
      obtain rfl := Option.mem_unique hjob found
      refine ⟨_, _, rfl, ⟨_, reattempted_new, rfl, rfl, rfl⟩, .inr ⟨not_exists.mp hex, ?_, ?_⟩⟩
      · exact fresh_of_minted hi.minted _ (le_refl _)
      · intro i hne
        rw [reattempted_lookup, if_neg hne]

/-- In every reachable store whose runs were created with distinct keys, the attempts of every key are numbered `1,
..., n`, one job each, the by-key index points to the `n`-th, and `RerequestJob` returns the next one, creating it
only once whatever calls follow. -/
theorem attempts_numbered (W : Wiring) (s : DurableStore) (h : ReachableWith W DistinctKeys s) :
    (∀ r key, ∃ n, (∀ a, 1 ≤ a → a ≤ n → ∃! id, s.AttemptOf r key a id) ∧
      (∀ a id, s.AttemptOf r key a id → 1 ≤ a ∧ a ≤ n) ∧ ∀ id, s.indexed r key = some id ↔ s.AttemptOf r key n id) ∧
    ∀ id job now, s.getJobRun id = .ok job → ∃ new s', s.rerequestJob W id now = (.ok new, s') ∧
        s'.AttemptOf job.runID job.jobKey (job.attempt + 1) new ∧
        ((s.AttemptOf job.runID job.jobKey (job.attempt + 1) new ∧ s' = s) ∨
          ((∀ i, ¬s.AttemptOf job.runID job.jobKey (job.attempt + 1) i) ∧ s.jobs.lookup new = none ∧
            ∀ i, i ≠ new → s'.jobs.lookup i = s.jobs.lookup i)) ∧
        ∀ s'', ReflTransGen (StepWith W DistinctKeys) s' s'' → ∀ now', s''.rerequestJob W id now' = (.ok new, s'') := by
  have hreach := reachable_of_with h
  have hi := inv_reachable hreach
  have hn := numbering_reachable hreach
  have ho := owned_reachable h
  refine ⟨attempts_of_key hi hn ho, fun id job now hjob => ?_⟩
  have hfound := getJobRun_eq_ok.mp hjob
  obtain ⟨new, s', heq, hnew, hhow⟩ := rerequestJob_next hi hn ho hfound now
  refine ⟨new, s', heq, hnew, hhow, fun s'' hcalls now' => ?_⟩
  -- the job and its next attempt are still there after any calls
  have hone : ReflTransGen (Step W) s s' := .single ⟨.rerequestJob id now, by rw [StoreOp.apply, heq]⟩
  have hlater := hone.trans (steps_of_with hcalls)
  have hreach'' := ReflTransGen.trans hreach hlater
  obtain ⟨job'', hfound'', hrun, hkey, hatt⟩ := (attemptOf_lookup hfound).carry hreach hlater
  have hnew'' := hnew.carry (ReflTransGen.trans hreach hone) (steps_of_with hcalls)
  rw [← hrun, ← hkey, ← hatt] at hnew''
  exact rerequestJob_existing (inv_reachable hreach'') (numbering_reachable hreach'') hfound'' hnew'' now'

/-- A job fails and is asked for again. -/
def retryOps : List StoreOp :=
  [.recordDelivery pushDelivery, .createRun (pushSeed [intentOf "a" [] ""]) 0, .claimNextQueuedJob,
    .ackDispatched "ii" ⟨"jobrun-ii", "u"⟩ 1, .applyObserved "ii" .failed 2, .rerequestJob "ii" 3]

theorem reachableWith_foldl (h : ReachableWith W ok s) (ops : List StoreOp) (hok : ∀ op ∈ ops, ∀ s, ok s op) :
    ReachableWith W ok (ops.foldl (fun s op => op.apply W s) s) := by
  induction ops generalizing s with
  | nil => exact h
  | cons op rest ih =>
    refine ih (h.tail ⟨op, hok op (.head _) s, rfl⟩) fun op' hmem => ?_
    exact hok op' (.tail _ hmem)

theorem distinct_retryOps : ∀ op ∈ retryOps, ∀ s, DistinctKeys s op := by
  simp [retryOps, DistinctKeys, pushSeed]

/-- There is one second attempt, and asking again returns it. -/
theorem attempts_numbered_retried : (∃! id, (afterOps Wiring.unary retryOps).AttemptOf "i" "a" 2 id) ∧
      ∀ s'', ReflTransGen (StepWith Wiring.unary DistinctKeys) (afterOps Wiring.unary retryOps) s'' →
        ∀ now, s''.rerequestJob Wiring.unary "ii" now = (.ok "iii", s'') := by
  obtain ⟨hnum, hnext⟩ := attempts_numbered Wiring.unary (afterOps Wiring.unary retryOps)
    (reachableWith_foldl .refl retryOps distinct_retryOps)
  have hsecond : (afterOps Wiring.unary retryOps).AttemptOf "i" "a" 2 "iii" := ⟨_, rfl, rfl, rfl, rfl⟩
  constructor
  · obtain ⟨n, hone, hle, -⟩ := hnum "i" "a"
    exact hone 2 (by decide) (hle 2 "iii" hsecond).2
  · obtain ⟨new, s', heq, -, -, hlater⟩ := hnext "ii" _ 9 rfl
    obtain ⟨hnew, rfl⟩ := Prod.mk.inj heq
    cases hnew
    exact hlater

end Forgelet.DurableStore
