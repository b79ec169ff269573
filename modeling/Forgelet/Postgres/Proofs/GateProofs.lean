import Mathlib.Data.List.Dedup
import Forgelet.Postgres.Proofs.ClaimsProofs
import Forgelet.Store.Proofs.NumberingProofs

/-!
# Proofs: the dependency gates of the two stores

The in-memory store looks the keys of a job up one after the other. The PostgreSQL store selects the latest attempts of
all of them at once and compares the number of rows with the length of the list. The two agree unless a key is repeated
and the job does not wait anyway.
-/

namespace Forgelet.Postgres

open DurableStore

/-- The rows of a run are the records the in-memory store has for it. -/
def SameRecords (t : Rows) (s : DurableStore) (r : RunID) : Prop :=
  ∀ id record, record.runID = r →
    ((∃ row, t.jobRuns.lookup id = some row ∧ row.toJobRunRecord = record) ↔ s.jobs.lookup id = some record)

variable {state : DepState} {job : JobRow}

namespace Rows

theorem depLoop_ready {l} : depLoop state l = .depsReady ↔ state = .depsReady ∧ ∀ status ∈ l, status = .succeeded := by
  induction l generalizing state with
  | nil => simp [depLoop]
  | cons status rest ih =>
    rw [depLoop]
    simp only [List.forall_mem_cons]
    split_ifs with hok hend
    · rw [ih]
      simp [hok]
    · simp [hok]
    · rw [ih]
      simp [hok]

theorem depLoop_failed (hstate : state ≠ .depsFailed) {l} :
    depLoop state l = .depsFailed ↔ ∃ status ∈ l, status.isTerminal ∧ status ≠ .succeeded := by
  induction l generalizing state with
  | nil => simp [depLoop, hstate]
  | cons status rest ih =>
    rw [depLoop]
    simp only [List.exists_mem_cons_iff]
    split_ifs with hok hend
    · rw [ih hstate]
      simp [hok]
    · simp [hok, hend]
    · rw [ih (by decide)]
      simp [hend]

end Rows

section Gate

variable {W : Wiring} {s : DurableStore} {t : Rows} {r : RunID}

theorem dependencyLoop_failed_iff (hstate : state ≠ .depsFailed) {keys}
    (hkeys : ∀ key ∈ keys, ∃ status, s.depStatus r key = some status) : dependencyLoop s r state keys = .depsFailed ↔
      ∃ status, (∃ key ∈ keys, s.depStatus r key = some status) ∧ status.isTerminal ∧ status ≠ .succeeded := by
  constructor
  · intro h
    obtain ⟨before, key, after, rfl, -, status, hstatus, hstop⟩ := dependencyLoop_failed hstate h
    refine ⟨status, ⟨key, List.mem_append_right _ (.head _), hstatus⟩, ?_⟩
    rcases hstop with rfl | rfl | rfl <;> decide
  · rintro ⟨status, ⟨key, hmem, hstatus⟩, hend, hne⟩
    induction keys generalizing state with
    | nil => cases hmem
    | cons first rest ih =>
      obtain ⟨⟨seen, hseen⟩, hrest⟩ := List.forall_mem_cons.mp hkeys
      obtain ⟨i, hi⟩ : ∃ i, s.indexed r first = some i := by
        obtain ⟨i, hi, -⟩ := Option.bind_eq_some_iff.mp hseen
        exact ⟨i, hi⟩
      rw [dependencyLoop_cons, hi, hseen]
      rcases List.mem_cons.mp hmem with rfl | hlater
      · obtain rfl := Option.mem_unique hseen hstatus
        cases seen with
        | succeeded => exact absurd rfl hne
        | failed => rfl
        | cancelled => rfl
        | skipped => rfl
        | queued => cases hend
        | dispatched => cases hend
        | running => cases hend
      · cases seen with
        | succeeded => exact ih hstate hrest hlater
        | failed => rfl
        | cancelled => rfl
        | skipped => rfl
        | queued => exact ih (by decide) hrest hlater
        | dispatched => exact ih (by decide) hrest hlater
        | running => exact ih (by decide) hrest hlater

/-- The latest attempt of some key is open, and that of none has ended without success. -/
def Waits (s : DurableStore) (r : RunID) (keys : List String) : Prop :=
  (∃ key ∈ keys, ∃ status, s.depStatus r key = some status ∧ status.isTerminal = false) ∧
    ∀ key ∈ keys, ∀ status, s.depStatus r key = some status → status.isTerminal → status = .succeeded

theorem dependencyLoop_blocked_iff {keys} (hkeys : ∀ key ∈ keys, ∃ status, s.depStatus r key = some status) :
    dependencyLoop s r .depsReady keys = .depsBlocked ↔ Waits s r keys := by
  have hblocked : ∀ state : DepState, state = .depsBlocked ↔ state ≠ .depsReady ∧ state ≠ .depsFailed := by
    intro state
    cases state <;> decide
  rw [hblocked, ne_eq, dependencyLoop_ready, ne_eq, dependencyLoop_failed_iff (by decide) hkeys]
  constructor
  · rintro ⟨hready, hfailed⟩
    have hsafe : ∀ key ∈ keys, ∀ status, s.depStatus r key = some status → status.isTerminal → status = .succeeded := by
      intro key hkey status hstatus hend
      by_contra hne
      exact hfailed ⟨status, ⟨key, hkey, hstatus⟩, hend, hne⟩
    refine ⟨?_, hsafe⟩
    by_contra hnone
    refine hready ⟨rfl, fun key hkey => ?_⟩
    obtain ⟨status, hstatus⟩ := hkeys key hkey
    cases hend : status.isTerminal with
    | true => rw [hstatus, hsafe key hkey status hstatus hend]
    | false => exact absurd ⟨key, hkey, status, hstatus, hend⟩ hnone
  · rintro ⟨⟨key, hkey, status, hstatus, hopen⟩, hsafe⟩
    refine ⟨fun hready => ?_, ?_⟩
    · cases hstatus.symm.trans (hready.2 key hkey)
      cases hopen
    · rintro ⟨status', ⟨key', hkey', hstatus'⟩, hend, hne⟩
      exact hne (hsafe key' hkey' status' hstatus' hend)

/-- The rows that the query of the gate selects. -/
def depRows (t : Rows) (job : JobRow) : List JobRow :=
  ((t.jobsOf job.runID).filter fun row => row.jobKey ∈ job.dependsOn).filter fun row =>
    ((t.jobsOf job.runID).filter fun row => row.jobKey ∈ job.dependsOn).all fun other =>
      other.jobKey ≠ row.jobKey || other.attempt ≤ row.attempt

theorem depStatuses_eq (t : Rows) (job : JobRow) : t.depStatuses job = (depRows t job).map (·.status) := rfl

theorem mem_jobsOf_same (hsame : SameRecords t s r) {row} (h : row ∈ t.jobsOf r) :
    ∃ id, t.jobRuns.lookup id = some row ∧ s.jobs.lookup id = some row.toJobRunRecord ∧ row.runID = r := by
  obtain ⟨⟨id, hid⟩, hrun⟩ := Rows.mem_jobsOf.mp h
  exact ⟨id, hid, (hsame id _ hrun).mp ⟨row, hid, rfl⟩, hrun⟩

theorem mem_depRows (hsame : SameRecords t s r) {row} (hjob : job.runID = r) :
    row ∈ depRows t job ↔ row.jobKey ∈ job.dependsOn ∧ ∃ id, t.jobRuns.lookup id = some row ∧ row.runID = r ∧
      ∀ id' job', s.jobs.lookup id' = some job' → job'.runID = r → job'.jobKey = row.jobKey →
        job'.attempt ≤ row.attempt := by
  unfold depRows
  rw [hjob]
  simp only [List.mem_filter, List.all_eq_true, decide_eq_true_eq, Bool.or_eq_true]
  constructor
  · rintro ⟨⟨hrow, hdep⟩, hall⟩
    obtain ⟨id, hid, -, hrun⟩ := mem_jobsOf_same hsame hrow
    refine ⟨hdep, id, hid, hrun, fun id' job' hjob' hrun' hkey' => ?_⟩
    obtain ⟨row', hrow', rfl⟩ := (hsame id' job' hrun').mpr hjob'
    rcases hall row' ⟨Rows.mem_jobsOf.mpr ⟨⟨id', hrow'⟩, hrun'⟩, hkey' ▸ hdep⟩ with hne | hle
    · exact absurd hkey' hne
    · exact hle
  · rintro ⟨hdep, id, hid, hrun, hmax⟩
    refine ⟨⟨Rows.mem_jobsOf.mpr ⟨⟨id, hid⟩, hrun⟩, hdep⟩, fun other hother => ?_⟩
    obtain ⟨id', -, hjob', hrun'⟩ := mem_jobsOf_same hsame hother.1
    by_cases hkey : other.jobKey = row.jobKey
    · exact .inr (hmax id' _ hjob' hrun' hkey)
    · exact .inl hkey

theorem depRow_of_depStatus (hi : Inv W s) (hr : s.Stored r) (hsame : SameRecords t s r) (hjob : job.runID = r)
    {key status} (hdep : key ∈ job.dependsOn) (hstatus : s.depStatus r key = some status) :
    ∃ row ∈ depRows t job, row.jobKey = key ∧ row.status = status := by
  obtain ⟨id, record, hrecord, hrun, rfl, rfl, hmax⟩ := (depStatus_iff hi hr).mp hstatus
  obtain ⟨row, hid, rfl⟩ := (hsame id record hrun).mpr hrecord
  exact ⟨row, (mem_depRows hsame hjob).mpr ⟨hdep, id, hid, hrun, hmax⟩, rfl, rfl⟩

/-- A status is selected exactly if it is the one of a key. -/
theorem mem_depStatuses (hi : Inv W s) (hr : s.Stored r) (hsame : SameRecords t s r) (hjob : job.runID = r) {status} :
    status ∈ t.depStatuses job ↔ ∃ key ∈ job.dependsOn, s.depStatus r key = some status := by
  rw [depStatuses_eq, List.mem_map]
  constructor
  · rintro ⟨row, hrow, rfl⟩
    obtain ⟨hdep, id, hid, hrun, hmax⟩ := (mem_depRows hsame hjob).mp hrow
    refine ⟨row.jobKey, hdep, (depStatus_iff hi hr).mpr ⟨id, row.toJobRunRecord, ?_, hrun, rfl, rfl, hmax⟩⟩
    exact (hsame id _ hrun).mp ⟨row, hid, rfl⟩
  · rintro ⟨key, hdep, hstatus⟩
    obtain ⟨row, hrow, -, heq⟩ := depRow_of_depStatus hi hr hsame hjob hdep hstatus
    exact ⟨row, hrow, heq⟩

theorem nodup_jobsOf (hi : Inv W s) (hsame : SameRecords t s r) : (t.jobsOf r).Nodup := by
  unfold Rows.jobsOf
  rw [List.filter_map]
  refine List.Nodup.map_on ?_ (t.jobRuns.nodupKeys.nodup.filter _)
  -- every row is stored under its own id
  have hown : ∀ e ∈ t.jobRuns.entries.filter ((fun row : JobRow => decide (row.runID = r)) ∘ (·.2)), e.2.id = e.1 := by
    intro e he
    obtain ⟨hmem, hrun⟩ := List.mem_filter.mp he
    have hrow := (GoMap.mem_entries_iff _ e).mp hmem
    exact hi.minted.job_id ((hsame e.1 _ (of_decide_eq_true hrun)).mp ⟨e.2, hrow, rfl⟩)
  intro e he e' he' heq
  refine Sigma.ext ?_ (heq_of_eq heq)
  rw [← hown e he, ← hown e' he', heq]

section

variable (hi : Inv W s) (hr : s.Stored r) (hsame : SameRecords t s r) (hjob : job.runID = r)
  (hkeys : ∀ key ∈ job.dependsOn, ∃ status, s.depStatus r key = some status)
include hi hr hsame hjob hkeys

theorem depRows_keys :
    ((depRows t job).map (·.jobKey)).Perm job.dependsOn.dedup := by
  have hnodup : ((depRows t job).map (·.jobKey)).Nodup := by
    refine List.Nodup.map_on ?_ ?_
    · intro row hrow row' hrow' hkey
      obtain ⟨-, id, hid, hrun, hmax⟩ := (mem_depRows hsame hjob).mp hrow
      obtain ⟨-, id', hid', hrun', hmax'⟩ := (mem_depRows hsame hjob).mp hrow'
      have hrec := (hsame id _ hrun).mp ⟨row, hid, rfl⟩
      have hrec' := (hsame id' _ hrun').mp ⟨row', hid', rfl⟩
      have hatt := le_antisymm (hmax' id _ hrec hrun hkey) (hmax id' _ hrec' hrun' hkey.symm)
      have hsameid := hi.indexing.attempt_unique (hrun' ▸ hr) hrec' hrec (hrun.trans hrun'.symm) hkey hatt
      rw [hsameid, hid', Option.some_inj] at hid
      exact hid.symm
    · unfold depRows
      rw [hjob]
      exact ((nodup_jobsOf hi hsame).filter _).filter _
  refine (List.perm_ext_iff_of_nodup hnodup (List.nodup_dedup _)).mpr fun key => ?_
  rw [List.mem_dedup, List.mem_map]
  constructor
  · rintro ⟨row, hrow, rfl⟩
    exact ((mem_depRows hsame hjob).mp hrow).1
  · intro hdep
    obtain ⟨status, hstatus⟩ := hkeys key hdep
    obtain ⟨row, hrow, heq, -⟩ := depRow_of_depStatus hi hr hsame hjob hdep hstatus
    exact ⟨row, hrow, heq⟩

theorem length_depStatuses :
    (t.depStatuses job).length = job.dependsOn.length ↔ job.dependsOn.Nodup := by
  have hlen := (depRows_keys hi hr hsame hjob hkeys).length_eq
  rw [List.length_map] at hlen
  rw [depStatuses_eq, List.length_map, hlen, ← List.dedup_eq_self]
  constructor
  · exact (List.dedup_sublist _).eq_of_length
  · intro heq
    rw [heq]

end

end Gate

theorem depState_ext {a b : DepState} (hready : a = .depsReady ↔ b = .depsReady)
    (hfailed : a = .depsFailed ↔ b = .depsFailed) : a = b := by
  cases a <;> cases b <;> simp_all

/-- The two stores classify a job alike exactly if its list repeats no key or it has to wait. -/
theorem depState_eq_iff (W : Wiring) (s : DurableStore) (h : Reachable W s) (t : Rows) (r : RunID) (hr : s.Stored r)
    (hsame : SameRecords t s r) (id : JobRunID) (job : JobRunRecord) (hjob : s.jobs.lookup id = some job)
    (hrun : job.runID = r) (hkeys : ∀ key ∈ job.dependsOn, ∃ other ∈ s.jobsOf r, other.jobKey = key) :
    t.depState id = s.dependencyState id ↔ job.dependsOn.Nodup ∨ Waits s r job.dependsOn := by
  have hi := inv_reachable h
  obtain ⟨row, hrow, rfl⟩ := (hsame id job hrun).mpr hjob
  have hstatuses : ∀ key ∈ row.dependsOn, ∃ status, s.depStatus r key = some status := by
    intro key hdep
    obtain ⟨other, hother, rfl⟩ := hkeys key hdep
    exact exists_depStatus hi hr hother
  have hlength := length_depStatuses hi hr hsame hrun hstatuses
  have hpg : t.depState id =
      if row.dependsOn.Nodup then Rows.depLoop .depsReady (t.depStatuses row) else .depsBlocked := by
    unfold Rows.depState
    rw [hrow]
    dsimp only
    by_cases hnodup : row.dependsOn.Nodup
    · have hlen := hlength.mpr hnodup
      rw [if_pos hnodup, if_neg (not_not_intro hlen)]
      split_ifs with hempty
      · rw [hempty, List.length_nil, List.length_eq_zero_iff] at hlen
        rw [hlen]
        rfl
      · rfl
    · have hempty : row.dependsOn ≠ [] := fun hnil => hnodup (hnil ▸ List.nodup_nil)
      rw [if_neg hnodup, if_neg hempty, if_pos (mt hlength.mp hnodup)]
  have hloop : Rows.depLoop .depsReady (t.depStatuses row) = s.dependencyState id := by
    rw [dependencyState_eq hjob, hrun]
    refine depState_ext ?_ ?_
    · rw [Rows.depLoop_ready, dependencyLoop_ready]
      refine and_congr_right fun _ => ?_
      simp only [mem_depStatuses hi hr hsame hrun]
      constructor
      · intro hall key hdep
        obtain ⟨status, hstatus⟩ := hstatuses key hdep
        rw [hstatus, hall status ⟨key, hdep, hstatus⟩]
      · rintro hall status ⟨key, hdep, hstatus⟩
        exact Option.mem_unique hstatus (hall key hdep)
    · rw [Rows.depLoop_failed (by decide), dependencyLoop_failed_iff (by decide) hstatuses]
      simp only [mem_depStatuses hi hr hsame hrun]
  rw [hpg, hloop, ← dependencyLoop_blocked_iff hstatuses, ← hrun, ← dependencyState_eq hjob]
  split_ifs with hnodup
  · exact iff_of_true rfl (.inl hnodup)
  · simp only [hnodup, false_or]
    exact eq_comm

/-- The rows with the records of an in-memory store, none of them claimed. -/
def rowsOf (s : DurableStore) : Rows where
  jobRuns :=
    { entries := s.jobs.entries.map fun e => ⟨e.1, { e.2 with claimedAt := none }⟩
      nodupKeys := by
        unfold List.NodupKeys List.keys
        rw [List.map_map]
        exact s.jobs.nodupKeys }
  workflowRuns := s.runs

theorem sameRecords_rowsOf (s : DurableStore) (r : RunID) : SameRecords (rowsOf s) s r := by
  intro id record _
  constructor
  · rintro ⟨row, hrow, rfl⟩
    obtain ⟨e, he, heq⟩ := List.mem_map.mp ((GoMap.mem_entries_iff _ ⟨id, row⟩).mpr hrow)
    cases heq
    exact (GoMap.mem_entries_iff _ e).mp he
  · intro hrecord
    refine ⟨{ record with claimedAt := none }, (GoMap.mem_entries_iff _ ⟨id, _⟩).mp ?_, rfl⟩
    exact List.mem_map.mpr ⟨⟨id, record⟩, (GoMap.mem_entries_iff _ ⟨id, record⟩).mpr hrecord, rfl⟩

/-- A push whose job `c` needs the keys given, after its job `a` has failed and succeeded at the second attempt. -/
def neededOps (keys : List String) : List StoreOp :=
  [.recordDelivery pushDelivery,
    .createRun (pushSeed [intentOf "a" [] "", intentOf "b" [] "", intentOf "c" keys ""]) 0,
    .applyObserved "ii" .failed 1, .rerequestJob "ii" 2, .applyObserved "iiiii" .succeeded 3]

/-- The first attempt at `a` does not count, and `b` is open. -/
theorem depState_eq_needed : (rowsOf (afterOps Wiring.unary (neededOps ["a", "b"]))).depState "iiii" =
      (afterOps Wiring.unary (neededOps ["a", "b"])).dependencyState "iiii" ∧
    (afterOps Wiring.unary (neededOps ["a", "b"])).dependencyState "iiii" = .depsBlocked := by
  refine ⟨(depState_eq_iff Wiring.unary _ (reachable_afterOps Wiring.unary _) _ "i" ⟨_, rfl⟩
    (sameRecords_rowsOf _ "i") "iiii" _ rfl rfl ?_).mpr (.inl ?_), ?_⟩ <;> decide

/-- A job that names its dependency twice is ready in one store and blocked in the other. -/
theorem repeated_need_blocked : (afterOps Wiring.unary (neededOps ["a", "a"])).dependencyState "iiii" = .depsReady ∧
      (rowsOf (afterOps Wiring.unary (neededOps ["a", "a"]))).depState "iiii" = .depsBlocked := by
  decide

end Forgelet.Postgres
