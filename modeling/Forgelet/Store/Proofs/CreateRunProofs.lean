import Forgelet.Store.Invariant
import Forgelet.Store.Proofs.MemoryProofs

/-!
# Proofs: `CreateRun`

The loop over the seed's jobs writes their drafts one by one and stops at the first key it has seen before. So
`CreateRun` finds the run of the delivery, refuses the seed before it writes anything, creates the run, or leaves the
drafts of a part of the seed.
-/

namespace Forgelet.DurableStore

variable {s : DurableStore} {l : List JobRunRecord}

theorem addJobs_minted (s : DurableStore) (n : Nat) (l : List JobRunRecord) :
    ({ s with minted := n } : DurableStore).addJobs l = { s.addJobs l with minted := n } := by
  induction l generalizing s with
  | nil => rfl
  | cons job rest ih => exact ih (s.setJob job.id job)

theorem addJobs_frame (s : DurableStore) (l : List JobRunRecord) :
    s.addJobs l = { s with jobs := (s.addJobs l).jobs } := by
  induction l generalizing s with
  | nil => rfl
  | cons job rest ih =>
    rw [addJobs, ih]
    rfl

variable {id : JobRunID} {job : JobRunRecord}

theorem addJobs_lookup_of_not_mem (h : ∀ j ∈ l, j.id ≠ id) : (s.addJobs l).jobs.lookup id = s.jobs.lookup id := by
  induction l generalizing s with
  | nil => rfl
  | cons job rest ih =>
    rw [List.forall_mem_cons] at h
    rw [addJobs, ih h.2, setJob_lookup, if_neg h.1.symm]

theorem addJobs_lookup_of_mem (hnodup : (l.map (·.id)).Nodup) (h : job ∈ l) :
    (s.addJobs l).jobs.lookup job.id = some job := by
  induction l generalizing s with
  | nil => cases h
  | cons first rest ih =>
    rw [List.map_cons, List.nodup_cons] at hnodup
    rcases List.mem_cons.mp h with rfl | hmem
    · have hrest : ∀ j ∈ rest, j.id ≠ job.id := by
        intro j hj heq
        exact hnodup.1 (heq ▸ List.mem_map_of_mem hj)
      rw [addJobs, addJobs_lookup_of_not_mem hrest, setJob_lookup, if_pos rfl]
    · exact ih hnodup.2 hmem

theorem addJobs_lookup_eq_some (hnodup : (l.map (·.id)).Nodup) :
    (s.addJobs l).jobs.lookup id = some job ↔
      (job ∈ l ∧ job.id = id) ∨ ((∀ j ∈ l, j.id ≠ id) ∧ s.jobs.lookup id = some job) := by
  by_cases hex : ∃ j ∈ l, j.id = id
  · obtain ⟨j, hj, rfl⟩ := hex
    rw [addJobs_lookup_of_mem hnodup hj, Option.some_inj]
    constructor
    · rintro rfl
      exact .inl ⟨hj, rfl⟩
    · rintro (⟨hjob, hid⟩ | ⟨hno, _⟩)
      · exact List.inj_on_of_nodup_map hnodup hj hjob hid.symm
      · exact absurd rfl (hno j hj)
  · have hno : ∀ j ∈ l, j.id ≠ id := fun j hj heq => hex ⟨j, hj, heq⟩
    rw [addJobs_lookup_of_not_mem hno]
    constructor
    · intro h
      exact .inr ⟨hno, h⟩
    · rintro (⟨hjob, hid⟩ | ⟨_, h⟩)
      · exact absurd hid (hno job hjob)
      · exact h

theorem mem_drafts {W r now n intents} (h : job ∈ drafts W r now n intents) :
    ∃ intent ∈ intents, ∃ i, n ≤ i ∧ i < n + intents.length ∧ job = newJob (W.ids.mint i) r intent now := by
  induction intents generalizing n with
  | nil => cases h
  | cons first rest ih =>
    rcases List.mem_cons.mp h with rfl | hmem
    · refine ⟨first, (.head _), n, le_refl n, ?_, rfl⟩
      rw [List.length_cons]
      omega
    · obtain ⟨intent, hin, i, hlo, hhi, rfl⟩ := ih hmem
      refine ⟨intent, .tail _ hin, i, by omega, ?_, rfl⟩
      rw [List.length_cons]
      omega

theorem drafts_map_jobKey (W : Wiring) (r : RunID) (now : Time) (n : Nat) (intents : List JobIntent) :
    (drafts W r now n intents).map (·.jobKey) = intents.map (·.jobKey) := by
  induction intents generalizing n with
  | nil => rfl
  | cons first rest ih =>
    rw [drafts, List.map_cons, List.map_cons, ih]
    rfl

theorem drafts_ids_nodup (W : Wiring) (r : RunID) (now : Time) (n : Nat) (intents : List JobIntent) :
    ((drafts W r now n intents).map (·.id)).Nodup := by
  induction intents generalizing n with
  | nil => exact List.nodup_nil
  | cons first rest ih =>
    rw [drafts, List.map_cons, List.nodup_cons]
    refine ⟨?_, ih (n + 1)⟩
    intro hmem
    obtain ⟨job, hjob, hid⟩ := List.mem_map.mp hmem
    obtain ⟨_, _, i, hlo, _, rfl⟩ := mem_drafts hjob
    have : i = n := W.ids.mint_injective hid
    omega

theorem addKeys_lookup {idx key} (hnodup : (l.map (·.jobKey)).Nodup) : (addKeys idx l).lookup key = some id ↔
      (∃ j ∈ l, j.jobKey = key ∧ j.id = id) ∨ ((∀ j ∈ l, j.jobKey ≠ key) ∧ idx.lookup key = some id) := by
  induction l generalizing idx with
  | nil => simp [addKeys]
  | cons first rest ih =>
    rw [List.map_cons, List.nodup_cons] at hnodup
    rw [addKeys, ih hnodup.2, GoMap.lookup_insert_ite]
    simp only [List.mem_cons, or_and_right, exists_or, exists_eq_left, forall_eq_or_imp]
    by_cases hk : key = first.jobKey
    · have hrest : ∀ j ∈ rest, j.jobKey ≠ key := by
        intro j hj heq
        exact hnodup.1 (hk ▸ heq ▸ List.mem_map_of_mem hj)
      have hno : ¬ ∃ j ∈ rest, j.jobKey = key ∧ j.id = id := by
        rintro ⟨j, hj, heq, _⟩
        exact hrest j hj heq
      rw [if_pos hk, Option.some_inj]
      constructor
      · rintro (h | ⟨_, h⟩)
        · exact absurd h hno
        · exact .inl (.inl ⟨hk.symm, h⟩)
      · rintro ((⟨_, h⟩ | h) | ⟨h, _⟩)
        · exact .inr ⟨hrest, h⟩
        · exact absurd h hno
        · exact absurd hk.symm h.1
    · have hk' : first.jobKey ≠ key := fun h => hk h.symm
      rw [if_neg hk]
      simp [hk']

/-- The keys are not in the index, and none comes twice. -/
def Novel (idx : GoMap String JobRunID) (intents : List JobIntent) : Prop :=
  (intents.map (·.jobKey)).Nodup ∧ ∀ i ∈ intents, idx.lookup i.jobKey = none

section CreateJobs

variable {idx : GoMap String JobRunID} {intents : List JobIntent}

theorem novel_nil : Novel idx [] := ⟨List.nodup_nil, fun i hi => by cases hi⟩

theorem novel_cons {first} (id : JobRunID) : Novel idx (first :: intents) ↔
    idx.lookup first.jobKey = none ∧ Novel (idx.insert first.jobKey id) intents := by
  have hinsert : ∀ i : JobIntent, (idx.insert first.jobKey id).lookup i.jobKey = none ↔
      i.jobKey ≠ first.jobKey ∧ idx.lookup i.jobKey = none := by
    intro i
    rw [GoMap.lookup_insert_ite]
    split_ifs with heq
    · simp [heq]
    · simp [heq]
  simp only [Novel, List.map_cons, List.nodup_cons, List.forall_mem_cons, List.mem_map, hinsert]
  grind

section

variable (W : Wiring) (r : RunID) (now : Time)
include W r now

theorem addJobs_drafts_cons (s : DurableStore) (first : JobIntent)
    (l : List JobIntent) :
    ({ (({ s with minted := s.minted + 1 } : DurableStore).setJob (W.ids.mint s.minted)
        (newJob (W.ids.mint s.minted) r first now)).addJobs (drafts W r now (s.minted + 1) l) with
        minted := s.minted + 1 + l.length } : DurableStore) =
      { s.addJobs (drafts W r now s.minted (first :: l)) with minted := s.minted + (first :: l).length } := by
  rw [List.length_cons, Nat.add_assoc, Nat.add_comm 1]
  exact congrArg (fun t : DurableStore => { t with minted := s.minted + (l.length + 1) })
    (addJobs_minted (s.setJob _ _) (s.minted + 1) _)

theorem createJobs_ok (ids : List JobRunID) (h : Novel idx intents) :
    createJobs W r now s idx ids intents = (.ok (addKeys idx (drafts W r now s.minted intents),
          ids ++ (drafts W r now s.minted intents).map (·.id)),
        { s.addJobs (drafts W r now s.minted intents) with
          minted := s.minted + intents.length }) := by
  induction intents generalizing s idx ids with
  | nil => simp [createJobs, drafts, addKeys, addJobs]
  | cons first rest ih =>
    rw [novel_cons (W.ids.mint s.minted)] at h
    rw [createJobs, h.1, if_neg (by simp), ← addJobs_drafts_cons]
    refine (ih _ h.2).trans ?_
    rw [List.append_assoc]
    rfl

/-- Any other seed is drafted up to the first key that is not new. -/
theorem createJobs_error (ids : List JobRunID) (h : ¬Novel idx intents) :
    ∃ err l, l <+: intents ∧ Novel idx l ∧ ((∀ i ∈ intents.head?, idx.lookup i.jobKey = none) → l ≠ []) ∧
      createJobs W r now s idx ids intents =
        (.error err, { s.addJobs (drafts W r now s.minted l) with minted := s.minted + l.length }) := by
  induction intents generalizing s idx ids with
  | nil => exact absurd novel_nil h
  | cons first rest ih =>
    rw [createJobs]
    cases hseen : idx.lookup first.jobKey with
    | some id =>
      refine ⟨_, [], List.nil_prefix, novel_nil, fun hhead => ?_, rfl⟩
      rw [hhead first rfl] at hseen
      cases hseen
    | none =>
      rw [novel_cons (W.ids.mint s.minted), and_iff_right hseen] at h
      obtain ⟨err, l, hpre, hnovel, -, heq⟩ :=
        ih (s := ({ s with minted := s.minted + 1 } : DurableStore).setJob _
          (newJob (W.ids.mint s.minted) r first now)) (ids ++ [W.ids.mint s.minted]) h
      refine ⟨err, first :: l, List.cons_prefix_cons.mpr ⟨rfl, hpre⟩, (novel_cons _).mpr ⟨hseen, hnovel⟩,
        fun _ => List.cons_ne_nil _ _, ?_⟩
      rw [← addJobs_drafts_cons]
      exact heq

end

theorem novel_empty : Novel ∅ intents ↔ (intents.map (·.jobKey)).Nodup :=
  and_iff_left fun i _ => AList.lookup_empty i.jobKey

end CreateJobs

/-- The outcomes of `CreateRun`. -/
inductive CreateRunOutcome (W : Wiring) (s : DurableStore) (seed : RunSeed) (now : Time) :
    Outcome (RunRecord × Bool) → Prop
  | found {record r run} (recorded : s.deliveries.lookup seed.delivery = some record) (bound : record.runID = some r)
      (stored : s.runs.lookup r = some run) : CreateRunOutcome W s seed now (.ok (run, false), s)
  | refused {err}
      (nothing : ∀ record, s.deliveries.lookup seed.delivery = some record → record.runID = none → seed.jobs = []) :
      CreateRunOutcome W s seed now (.error err, s)
  | created {record} (recorded : s.deliveries.lookup seed.delivery = some record) (unbound : record.runID = none)
      (nonempty : seed.jobs ≠ []) (distinct : (seed.jobs.map (·.jobKey)).Nodup) :
      CreateRunOutcome W s seed now (.ok (newRun W s seed now, true), committed W s record seed now)
  | duplicate {record err l} (recorded : s.deliveries.lookup seed.delivery = some record)
      (unbound : record.runID = none) (repeated : ¬(seed.jobs.map (·.jobKey)).Nodup) (nonempty : l ≠ [])
      (part : l <+: seed.jobs) : CreateRunOutcome W s seed now (.error err, drafted W s l now)

theorem createRun_outcome (W : Wiring) (s : DurableStore) (seed : RunSeed) (now : Time) :
    CreateRunOutcome W s seed now (s.createRun W seed now) := by
  unfold createRun
  cases hrec : s.deliveries.lookup seed.delivery with
  | none => exact .refused fun record h => by rw [hrec] at h; cases h
  | some record =>
    obtain ⟨key, event, payload, at_, bound⟩ := record
    cases bound with
    | some r =>
      simp only [getRun]
      cases hrun : s.runs.lookup r with
      | none =>
        refine .refused fun record h hnone => ?_
        obtain rfl := Option.mem_unique hrec h
        cases hnone
      | some run => exact .found hrec rfl hrun
    | none =>
      dsimp only
      by_cases hempty : seed.jobs = []
      · rw [if_pos (by simp [hempty])]
        exact .refused fun _ _ _ => hempty
      · rw [if_neg (by simp [hempty])]
        by_cases hnodup : (seed.jobs.map (·.jobKey)).Nodup
        · rw [createJobs_ok W _ now [] (novel_empty.mpr hnodup)]
          rw [addJobs_minted, addJobs_frame]
          exact .created hrec rfl hempty hnodup
        · obtain ⟨err, l, hpre, -, hne, heq⟩ :=
            createJobs_error W (W.ids.mint s.minted) now (s := { s with minted := s.minted + 1 }) []
              (novel_empty.not.mpr hnodup)
          rw [heq]
          rw [addJobs_minted, addJobs_frame]
          exact .duplicate hrec rfl hnodup (hne fun i _ => AList.lookup_empty i.jobKey) hpre

theorem createRun_repeated (W : Wiring) {seed record} (hrec : s.deliveries.lookup seed.delivery = some record)
    (hnone : record.runID = none) (hrep : ¬(seed.jobs.map (·.jobKey)).Nodup) (now : Time) :
    ∃ l : List JobIntent, (l.map (·.jobKey)).Nodup ∧ (s.createRun W seed now).2 = drafted W s l now := by
  obtain ⟨key, event, payload, at_, bound⟩ := record
  subst hnone
  have hempty : seed.jobs ≠ [] := by
    intro h
    rw [h] at hrep
    exact hrep List.nodup_nil
  obtain ⟨err, l, -, hnovel, -, heq⟩ :=
    createJobs_error W (W.ids.mint s.minted) now (s := { s with minted := s.minted + 1 }) [] (novel_empty.not.mpr hrep)
  refine ⟨l, hnovel.1, ?_⟩
  unfold createRun
  rw [hrec]
  dsimp only
  rw [if_neg (by simp [hempty]), heq]
  rw [addJobs_minted, addJobs_frame]
  rfl

/-- No job of the store has an id that is yet to be minted. -/
def Fresh (W : Wiring) (s : DurableStore) : Prop :=
  ∀ n, s.minted ≤ n → s.jobs.lookup (W.ids.mint n) = none

/-- The stores differ in their counters only. -/
def SameTables (s s' : DurableStore) : Prop :=
  s'.deliveries = s.deliveries ∧ s'.runs = s.runs ∧ s'.jobs = s.jobs ∧ s'.runJobs = s.runJobs ∧
    s'.byJobKey = s.byJobKey ∧ s'.claimed = s.claimed

/-- The first draft of a part of a seed is a job the store did not have. -/
theorem drafted_jobs_ne {W} (hfresh : Fresh W s) {l} (hl : l ≠ []) (now : Time) :
    (drafted W s l now).jobs ≠ s.jobs := by
  intro heq
  cases l with
  | nil => exact hl rfl
  | cons intent rest =>
    have hmem : newJob (W.ids.mint (s.minted + 1)) (W.ids.mint s.minted) intent now ∈
        newJobs W s (intent :: rest) now := (.head _)
    have hlook := addJobs_lookup_of_mem (s := s) (drafts_ids_nodup W _ now _ _) hmem
    have hnone := hfresh (s.minted + 1) (Nat.le_succ _)
    have : (drafted W s (intent :: rest) now).jobs.lookup (W.ids.mint (s.minted + 1)) =
        some (newJob (W.ids.mint (s.minted + 1)) (W.ids.mint s.minted) intent now) := hlook
    rw [heq, hnone] at this
    cases this

/-- A failed `CreateRun` leaves the store, and so what can be listed and claimed, as it was exactly when it does not
get to a seed with a repeated key. -/
theorem createRun_atomic_iff (W : Wiring) (s : DurableStore) (hfresh : Fresh W s) (seed : RunSeed) (now : Time) :
    (∀ err, (s.createRun W seed now).1 = .error err → SameTables s (s.createRun W seed now).2 ∧
        (s.createRun W seed now).2.listQueuedJobs = s.listQueuedJobs ∧
        ((s.createRun W seed now).2.claimNextQueuedJob W).1 = (s.claimNextQueuedJob W).1) ↔
    ¬∃ record, s.deliveries.lookup seed.delivery = some record ∧ record.runID = none ∧
      ¬(seed.jobs.map (·.jobKey)).Nodup := by
  have hout := createRun_outcome W s seed now
  generalize s.createRun W seed now = out at hout
  cases hout with
  | found recorded bound stored =>
    refine ⟨fun _ => ?_, fun _ err h => by cases h⟩
    rintro ⟨record', hrec, hnone, _⟩
    obtain rfl := Option.mem_unique recorded hrec
    rw [bound] at hnone
    cases hnone
  | refused nothing =>
    refine ⟨fun _ => ?_, fun _ _ _ => ⟨⟨rfl, rfl, rfl, rfl, rfl, rfl⟩, rfl, rfl⟩⟩
    rintro ⟨record', hrec, hnone, hrep⟩
    exact hrep (by rw [nothing record' hrec hnone]; exact List.nodup_nil)
  | created recorded unbound nonempty distinct =>
    refine ⟨fun _ => ?_, fun _ err h => by cases h⟩
    rintro ⟨_, _, _, hrep⟩
    exact hrep distinct
  | duplicate recorded unbound repeated nonempty part =>
    refine ⟨fun h => ?_, fun h => absurd ⟨_, recorded, unbound, repeated⟩ h⟩
    -- the drafts written before the repeated key was seen are still there
    exact absurd (h _ rfl).1.2.2.1 (drafted_jobs_ne hfresh nonempty now)

/-- A push to the main branch. -/
def pushEvent : Event where
  provider := "github"
  name := "push"
  deliveryID := "d1"
  repository := { provider := "github", owner := "acme", name := "app" }
  ref := "refs/heads/main"
  sha := "abc123"
  actor := "octo"

/-- The delivery of the push. -/
def pushDelivery : Delivery where
  key := { provider := "github", deliveryID := "d1" }
  event := pushEvent
  payload := []

/-- A job with dependencies and a condition. -/
def intentOf (key : String) (dependsOn : List String) (condition : String) : JobIntent where
  jobKey := key
  runnerClass := "default"
  dependsOn := dependsOn
  matrix := none
  planDigest := ""
  condition := condition

/-- The run of the push. -/
def pushSeed (jobs : List JobIntent) : RunSeed where
  delivery := pushDelivery.key
  event := pushEvent
  jobs := jobs

theorem fresh_new (W : Wiring) : Fresh W new := fun n _ => AList.lookup_empty (W.ids.mint n)

/-- A call for a delivery that was never recorded fails and leaves the new store as it is. -/
theorem createRun_atomic_unrecorded : Fresh Wiring.unary new ∧
      ((new.createRun Wiring.unary (pushSeed [intentOf "a" [] "", intentOf "a" [] ""]) 0).1 =
          .error (.errorf "memory: delivery github:d1 not recorded")) ∧ SameTables new
        (new.createRun Wiring.unary (pushSeed [intentOf "a" [] "", intentOf "a" [] ""]) 0).2 := by
  refine ⟨fresh_new _, by decide, ?_⟩
  refine (((createRun_atomic_iff Wiring.unary new (fresh_new _)
    (pushSeed [intentOf "a" [] "", intentOf "a" [] ""]) 0).mpr ?_) _ rfl).1
  rintro ⟨record, hrec, _⟩
  cases hrec

/-- With two jobs of one key no run is stored, and the first job is nevertheless claimed. -/
theorem createRun_leaves_drafts :
    let s := (new.recordDelivery Wiring.unary pushDelivery).2
    let out := s.createRun Wiring.unary (pushSeed [intentOf "a" [] "", intentOf "a" [] ""]) 0
    out.1 = .error (.errorf "memory: duplicate job key \"a\" in run i") ∧
      out.2.runs = s.runs ∧ out.2.jobs ≠ s.jobs ∧
      s.listQueuedJobs = [] ∧
      out.2.listQueuedJobs = [newJob "ii" "i" (intentOf "a" [] "") 0] ∧
      (s.claimNextQueuedJob Wiring.unary).1 = .error .errNoQueuedJob ∧
      (out.2.claimNextQueuedJob Wiring.unary).1 = .ok (newJob "ii" "i" (intentOf "a" [] "") 0) := by
  decide

end Forgelet.DurableStore
