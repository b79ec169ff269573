import Forgelet.Postgres.Proofs.AttemptsProofs

/-!
# Proofs: CreateRun is a create-or-get

If a call of CreateRun selects its delivery while it is bound, or while no run is there for its delivery id and no
other call is creating one, the calls of one delivery return one run, those of different deliveries different ones, and
exactly one call has created a run that was not there. `Call` says for each point of a call what it has locked and
written.
-/

namespace Forgelet.Postgres.Creation

open ReadCommitted Interleaving

/-- The run is committed, and its delivery is bound to it. -/
structure Served (s : Db) (run : RunRecord) : Prop where
  row : s.workflowRuns.rows.lookup run.id = some run
  bound : ∃ record, s.deliveries.rows.lookup run.delivery = some record ∧ record.runID = some run.id

/-- The run can be created: its id is new, its delivery unbound, its delivery id free. -/
structure Vacant (ids : IDSource) (s : Db) (run : RunRecord) : Prop where
  minted : Minted ids s.minted run.id
  row : s.workflowRuns.rows.lookup run.id = none
  index : s.deliveryIDs.rows.lookup run.delivery.deliveryID = none
  unbound : ∃ record, s.deliveries.rows.lookup run.delivery = some record ∧ record.runID = none

/-- A transaction touches only jobs whose ids were minted. -/
structure JobsMinted (ids : IDSource) (n : Nat) (jobs : Access JobRunID JobRow) : Prop where
  held : ∀ id ∈ jobs.held, Minted ids n id
  writes : ∀ id row, jobs.writes.lookup id = some row → Minted ids n id

/-- The row of the run, its entry in the index, and the bound delivery. -/
abbrev runWritten (run : RunRecord) : Access RunID RunRecord := .only run.id run

@[inherit_doc runWritten]
abbrev indexWritten (run : RunRecord) : Access String RunID := .only run.delivery.deliveryID run.id

@[inherit_doc runWritten]
abbrev deliveryWritten (record : DeliveryRecord) (run : RunRecord) : Access DeliveryKey DeliveryRecord :=
  .only run.delivery { record with runID := some run.id }

/-- A call that has written nothing yet. -/
abbrev reading (seed : RunSeed) (now : Time) (point : Point) : Tx :=
  ⟨.createRun seed now, point, .nothing, .nothing, .nothing, .nothing⟩

/-- A call that has written its run, and these jobs. -/
abbrev writing (seed : RunSeed) (now : Time) (run : RunRecord) (jobs : Access JobRunID JobRow) (point : Point) : Tx :=
  ⟨.createRun seed now, point, .nothing, runWritten run, indexWritten run, jobs⟩

/-- A call of CreateRun, at each of its points. -/
inductive Call (ids : IDSource) (s : Db) : Tx → Prop
  | first {seed now} : Call ids s (.begin (.createRun seed now))
  | getRun {seed now run} (served : Served s run) (key : run.delivery = seed.delivery) :
      Call ids s (reading seed now (.getRun run.id))
  | insertRun {seed now run} (vacant : Vacant ids s run) (key : run.delivery = seed.delivery) :
      Call ids s (reading seed now (.insertRun run))
  | insertJobs {seed now run todo jobs} (vacant : Vacant ids s run) (key : run.delivery = seed.delivery)
      (minted : JobsMinted ids s.minted jobs) : Call ids s (writing seed now run jobs (.insertJobs run todo))
  | bindDelivery {seed now run jobs} (vacant : Vacant ids s run) (key : run.delivery = seed.delivery)
      (minted : JobsMinted ids s.minted jobs) : Call ids s (writing seed now run jobs (.bindDelivery run))
  | commitCreated {seed now run record jobs} (vacant : Vacant ids s run) (key : run.delivery = seed.delivery)
      (minted : JobsMinted ids s.minted jobs) :
      Call ids s ⟨.createRun seed now, .commitRun run true, deliveryWritten record run, runWritten run,
        indexWritten run, jobs⟩
  | commitFound {seed now run} (served : Served s run) (key : run.delivery = seed.delivery) :
      Call ids s (reading seed now (.commitRun run false))
  | returned {seed now run created} (served : Served s run) (key : run.delivery = seed.delivery) :
      Call ids s (reading seed now (.returned (.ok (.run run created))))

/-- The run that a call has created, once it has returned. -/
def Tx.created (tx : Tx) : Option RunRecord :=
  match tx.point with
  | .returned (.ok (.run run true)) => some run
  | _ => none

/-- The statements that a call has left, at most. -/
def Tx.left (tx : Tx) : Nat :=
  match tx.point, tx.op with
  | .first, .createRun seed _ => seed.jobs.length + 5
  | .insertRun _, .createRun seed _ => seed.jobs.length + 4
  | .insertJobs _ todo, _ => todo.length + 3
  | .bindDelivery _, _ | .getRun _, _ => 2
  | .commitRun _ _, _ => 1
  | _, _ => 0

/-- In every table, the statement takes and gives back its own locks only. -/
structure AllHands (s : Db) (p : Tx) (s' : Db) (p' : Tx) : Prop where
  deliveries : Hands s.deliveries p.deliveries s'.deliveries p'.deliveries
  runs : Hands s.workflowRuns p.runs s'.workflowRuns p'.runs
  deliveryIDs : Hands s.deliveryIDs p.deliveryIDs s'.deliveryIDs p'.deliveryIDs
  jobs : Hands s.jobRuns p.jobs s'.jobRuns p'.jobs

/-- The committed rows are the same, and ids may have been minted. -/
structure Same (s s' : Db) : Prop where
  deliveries : s'.deliveries.rows = s.deliveries.rows
  runs : s'.workflowRuns.rows = s.workflowRuns.rows
  deliveryIDs : s'.deliveryIDs.rows = s.deliveryIDs.rows
  jobs : s'.jobRuns.rows = s.jobRuns.rows
  minted : s.minted ≤ s'.minted

/-- The commit of a new run. -/
structure Adds (ids : IDSource) (s : Db) (run : RunRecord) (s' : Db) : Prop where
  deliveries : ∃ record : DeliveryRecord, ∀ key, s'.deliveries.rows.lookup key =
    if key = run.delivery then some { record with runID := some run.id } else s.deliveries.rows.lookup key
  runs : ∀ id, s'.workflowRuns.rows.lookup id = if id = run.id then some run else s.workflowRuns.rows.lookup id
  deliveryIDs : ∀ id, s'.deliveryIDs.rows.lookup id =
    if id = run.delivery.deliveryID then some run.id else s.deliveryIDs.rows.lookup id
  jobs : ∀ id row, s'.jobRuns.rows.lookup id = some row →
    s.jobRuns.rows.lookup id = some row ∨ Minted ids s.minted id
  minted : s'.minted = s.minted

/-- What a statement of a call does to the tables and the run it is creating. -/
inductive Change (ids : IDSource) (s : Db) (p : Tx) : Db → Tx → Prop
  | quiet {s' p'} (same : Same s s') (creating : p'.creating = p.creating)
      (created : p'.created = none ∨ p'.created = p.created) : Change ids s p s' p'
  | started {s' p' seed} {run : RunRecord} {record} (same : Same s s')
      (selecting : p.selecting = some seed) (key : run.delivery = seed.delivery) (id : run.id = ids.mint s.minted)
      (selected : s.deliveries.rows.lookup seed.delivery = some record) (unbound : boundTo record = none)
      (creating : p'.creating = some run) (created : p'.created = none) : Change ids s p s' p'
  | committed {s' p' run} (vacant : Vacant ids s run) (adds : Adds ids s run s') (was : p.creating = some run)
      (creating : p'.creating = none) (created : p'.created = some run) : Change ids s p s' p'

/-! ## What holds of the tables stays -/

variable {ids : IDSource} {s s' : Db} {p p' q : Tx}

variable {run run' : RunRecord} {jobs : Access JobRunID JobRow} {seed : RunSeed} {now : Time}

theorem Same.refl (s : Db) : Same s s := ⟨rfl, rfl, rfl, rfl, le_rfl⟩

theorem Served.same (h : Served s run) (same : Same s s') : Served s' run :=
  ⟨same.runs ▸ h.row, same.deliveries ▸ h.bound⟩

theorem Vacant.same (h : Vacant ids s run) (same : Same s s') : Vacant ids s' run :=
  ⟨h.minted.mono same.minted, same.runs ▸ h.row, same.deliveryIDs ▸ h.index, same.deliveries ▸ h.unbound⟩

theorem JobsMinted.mono {n n'} (h : JobsMinted ids n jobs) (hle : n ≤ n') : JobsMinted ids n' jobs :=
  ⟨fun id hid => (h.held id hid).mono hle, fun id row hrow => (h.writes id row hrow).mono hle⟩

theorem jobsMinted_nothing (n : Nat) : JobsMinted ids n .nothing where
  held _ hid := absurd hid List.not_mem_nil
  writes id row hrow := by
    rw [Access.nothing, AList.lookup_empty] at hrow
    cases hrow

theorem Vacant.delivery_ne (vacant : Vacant ids s run) (served : Served s run') : run.delivery ≠ run'.delivery := by
  intro heq
  obtain ⟨record, hrecord, hunbound⟩ := vacant.unbound
  obtain ⟨record', hrecord', hbound⟩ := served.bound
  rw [← heq] at hrecord'
  rw [Option.mem_unique hrecord' hrecord, hunbound] at hbound
  cases hbound

/-- Runs that are there stay, as new ones have other ids and other deliveries. -/
theorem Served.adds (h : Served s run) (vacant : Vacant ids s run') (adds : Adds ids s run' s') : Served s' run := by
  obtain ⟨record, hrecord, hbound⟩ := h.bound
  obtain ⟨written, hdeliveries⟩ := adds.deliveries
  have hid : run.id ≠ run'.id := by
    intro heq
    have hrow := h.row
    rw [heq, vacant.row] at hrow
    cases hrow
  exact ⟨(adds.runs run.id).trans ((if_neg hid).trans h.row), record,
    (hdeliveries run.delivery).trans ((if_neg (vacant.delivery_ne h).symm).trans hrecord), hbound⟩

theorem Adds.served (adds : Adds ids s run s') : Served s' run := by
  obtain ⟨record, hdeliveries⟩ := adds.deliveries
  exact ⟨(adds.runs run.id).trans (if_pos rfl), _, (hdeliveries run.delivery).trans (if_pos rfl), rfl⟩

/-- A run can still be created after one with another id and another delivery id was. -/
theorem Vacant.adds (h : Vacant ids s run) (adds : Adds ids s run' s') (hid : run.id ≠ run'.id)
    (hdelivery : run.delivery.deliveryID ≠ run'.delivery.deliveryID) : Vacant ids s' run := by
  obtain ⟨record, hrecord, hunbound⟩ := h.unbound
  obtain ⟨written, hdeliveries⟩ := adds.deliveries
  refine ⟨adds.minted.symm ▸ h.minted, (adds.runs run.id).trans ((if_neg hid).trans h.row),
    (adds.deliveryIDs _).trans ((if_neg hdelivery).trans h.index), record, ?_, hunbound⟩
  exact (hdeliveries run.delivery).trans ((if_neg fun heq => hdelivery (congrArg _ heq)).trans hrecord)

/-! ## What a statement does -/

/-- Between calls: ids were minted, and the run of a bound delivery is there. -/
structure Stored (ids : IDSource) (s : Db) : Prop where
  runs : ∀ id run, s.workflowRuns.rows.lookup id = some run → Minted ids s.minted id
  jobs : ∀ id row, s.jobRuns.rows.lookup id = some row → Minted ids s.minted id
  bound : ∀ key record id, s.deliveries.rows.lookup key = some record → record.runID = some id →
    ∃ run, s.workflowRuns.rows.lookup id = some run ∧ run.id = id ∧ run.delivery = key

/-- The condition on a step, as it is used for each other call. -/
def Clear (s : Db) (p q : Tx) : Prop :=
  ∀ seed ∈ p.selecting, ∃ record ∈ s.deliveries.rows.lookup seed.delivery, (boundTo record).isSome ∨
    seed.jobs ≠ [] ∧ (s.deliveryIDs.rows.lookup seed.delivery.deliveryID).isNone ∧
      ∀ run ∈ q.creating, run.delivery.deliveryID ≠ seed.delivery.deliveryID

/-- A statement of a call leads to a call again, which has less to do. -/
structure CallStep (ids : IDSource) (s : Db) (p : Tx) (s' : Db) (p' : Tx) : Prop where
  call : Call ids s' p'
  change : Change ids s p s' p'
  hands : AllHands s p s' p'
  left : p'.left < p.left
  past : p'.point ≠ .first

variable {record : DeliveryRecord}

/-- A minted id is not empty, so an unbound delivery has no run id. -/
theorem Stored.unbound (hs : Stored ids s) {key} (hrecord : s.deliveries.rows.lookup key = some record)
    (h : boundTo record = none) : record.runID = none := by
  cases hid : record.runID with
  | none => rfl
  | some id =>
    obtain ⟨run, hrun, -, -⟩ := hs.bound key record id hrecord hid
    obtain ⟨m, -, hm⟩ := hs.runs id run hrun
    have hne : id ≠ "" := hm ▸ ids.mint_ne_empty m
    rw [boundTo, hid, Option.filter_some, if_pos (decide_eq_true hne)] at h
    cases h

theorem Stored.served (hs : Stored ids s) {key id} (hrecord : s.deliveries.rows.lookup key = some record)
    (h : boundTo record = some id) : ∃ run, run.id = id ∧ run.delivery = key ∧ Served s run := by
  have hid : record.runID = some id := (Option.filter_eq_some_iff.mp h).1
  obtain ⟨run, hrun, rfl, rfl⟩ := hs.bound key record id hrecord hid
  exact ⟨run, rfl, rfl, hrun, record, hrecord, hid⟩

theorem select_step (hs : Stored ids s) (hp : p = .begin (.createRun seed now)) (hclear : Clear s p q) :
    CallStep ids s p (selectDelivery ids s p seed now).1 (selectDelivery ids s p seed now).2 := by
  subst hp
  obtain ⟨record, hrecord, hready⟩ := hclear seed rfl
  unfold selectDelivery
  dsimp only [Tx.begin]
  rw [Table.visible_nothing, hrecord]
  dsimp only
  cases hbound : boundTo record with
  | some id =>
    obtain ⟨run, rfl, hkey, hserved⟩ := hs.served hrecord hbound
    refine ⟨.getRun hserved hkey, .quiet (.refl s) rfl (Or.inl rfl), ⟨.stay, .stay, .stay, .stay⟩,
      ?_, nofun⟩
    show 2 < seed.jobs.length + 5
    omega
  | none =>
    rw [hbound] at hready
    obtain ⟨hjobs, hindex, -⟩ := hready.resolve_left (by decide)
    rw [if_neg hjobs]
    have hsame : Same s (mint s) := ⟨rfl, rfl, rfl, rfl, Nat.le_succ _⟩
    refine ⟨.insertRun ⟨⟨s.minted, Nat.lt_succ_self _, rfl⟩, ?_, ?_, record, hrecord, hs.unbound hrecord hbound⟩ rfl,
      .started hsame rfl rfl rfl hrecord hbound rfl rfl, ⟨.stay, .stay, .stay, .stay⟩,
      Nat.lt_succ_self _, nofun⟩
    · cases hrow : s.workflowRuns.rows.lookup (ids.mint s.minted) with
      | none => exact hrow
      | some run => exact absurd (hs.runs _ run hrow) (not_minted_mint s.minted)
    · exact Option.isNone_iff_eq_none.mp hindex

theorem insertRun_step (vacant : Vacant ids s run) (key : run.delivery = seed.delivery)
    (h : insertRun s (reading seed now (.insertRun run)) run (.insertJobs run seed.jobs) = some (s', p')) :
    CallStep ids s (reading seed now (.insertRun run)) s' p' := by
  unfold insertRun at h
  dsimp only at h
  rw [Table.visible_nothing, Table.visible_nothing, vacant.row, vacant.index, if_neg (by decide)] at h
  split_ifs at h with hfree hsome hfree'
  · cases hsome
  · cases h
    have hsame : Same s { s with
        workflowRuns := s.workflowRuns.lock .nothing run.id
        deliveryIDs := s.deliveryIDs.lock .nothing run.delivery.deliveryID } :=
      ⟨rfl, Table.lock_rows .., Table.lock_rows .., rfl, le_rfl⟩
    exact ⟨.insertJobs (vacant.same hsame) key (jobsMinted_nothing _), .quiet hsame rfl (.inl rfl),
      ⟨.stay, .lock, .lock, .stay⟩, Nat.lt_succ_self _, nofun⟩

theorem job_absent (hs : Stored ids s) (minted : JobsMinted ids s.minted jobs) :
    (s.jobRuns.visible jobs).lookup (ids.mint s.minted) = none := by
  rw [Table.visible_lookup]
  cases hw : jobs.writes.lookup (ids.mint s.minted) with
  | some row => exact absurd (minted.writes _ row hw) (not_minted_mint s.minted)
  | none =>
    rw [Option.none_or]
    cases hr : s.jobRuns.rows.lookup (ids.mint s.minted) with
    | some row => exact absurd (hs.jobs _ row hr) (not_minted_mint s.minted)
    | none => rfl

theorem run_visible (s : Db) (run : RunRecord) :
    (s.workflowRuns.visible (runWritten run)).lookup run.id = some run := by
  rw [Table.visible_lookup, Access.only_lookup, if_pos rfl, Option.some_or]

theorem JobsMinted.insert {n} (h : JobsMinted ids n jobs) (row : JobRow) :
    JobsMinted ids (n + 1) ((jobs.lock (ids.mint n)).write (ids.mint n) row) := by
  have hmint : Minted ids (n + 1) (ids.mint n) := ⟨n, Nat.lt_succ_self n, rfl⟩
  refine ⟨fun id hid => ?_, fun id row' hrow' => ?_⟩
  · rcases (Access.mem_held_lock jobs (ids.mint n) id).mp hid with rfl | hold
    · exact hmint
    · exact (h.held id hold).mono (Nat.le_succ n)
  · rcases GoMap.lookup_insert_cases hrow' with ⟨rfl, -⟩ | hold
    · exact hmint
    · rw [Access.lock_writes] at hold
      exact (h.writes id row' hold).mono (Nat.le_succ n)

theorem insertJob_eq (hs : Stored ids s) (minted : JobsMinted ids s.minted jobs) (intent : JobIntent) (what : String)
    (point next : Point) :
    insertJob (mint s) (writing seed now run jobs point) (newJob (ids.mint s.minted) run.id intent now) what next =
      if ¬s.jobRuns.Free jobs (ids.mint s.minted) then none
      else some ({ mint s with jobRuns := s.jobRuns.lock jobs (ids.mint s.minted) }, writing seed now run
        ((jobs.lock (ids.mint s.minted)).write (ids.mint s.minted)
          (newJob (ids.mint s.minted) run.id intent now)) next) := by
  have habsent : ((mint s).jobRuns.visible jobs).lookup (newJob (ids.mint s.minted) run.id intent now).id = none :=
    job_absent hs minted
  have hvisible : ((mint s).workflowRuns.visible (runWritten run)).lookup
      (newJob (ids.mint s.minted) run.id intent now).runID = some run := run_visible s run
  unfold insertJob
  rw [habsent, hvisible, if_neg (by decide), Option.isNone_some, if_neg Bool.false_ne_true]
  rfl

section

variable (vacant : Vacant ids s run) (key : run.delivery = seed.delivery) (minted : JobsMinted ids s.minted jobs)
include vacant key minted

theorem insertJob_step (hs : Stored ids s) {intent rest}
    (h : insertJob (mint s) (writing seed now run jobs (.insertJobs run (intent :: rest)))
      (newJob (ids.mint s.minted) run.id intent now) "postgres: insert job: "
      (.insertJobs run rest) = some (s', p')) :
    CallStep ids s (writing seed now run jobs (.insertJobs run (intent :: rest))) s' p' := by
  rw [insertJob_eq hs minted] at h
  split_ifs at h with hfree
  cases h
  have hsame : Same s { mint s with jobRuns := s.jobRuns.lock jobs (ids.mint s.minted) } :=
    ⟨rfl, rfl, rfl, Table.lock_rows .., Nat.le_succ _⟩
  exact ⟨.insertJobs (vacant.same hsame) key (minted.insert _), .quiet hsame rfl (.inl rfl),
    ⟨.stay, .stay, .stay, .lock⟩, Nat.lt_succ_self _, nofun⟩

theorem bindDelivery_step
    (h : bindDelivery s (writing seed now run jobs (.bindDelivery run)) run seed.delivery = some (s', p')) :
    CallStep ids s (writing seed now run jobs (.bindDelivery run)) s' p' := by
  obtain ⟨record, hrecord, hunbound⟩ := vacant.unbound
  unfold bindDelivery at h
  rw [Table.visible_nothing, ← key, hrecord] at h
  dsimp only at h
  rw [hunbound, if_neg (by decide)] at h
  split_ifs at h with hfree
  cases h
  have hsame : Same s { s with deliveries := s.deliveries.lock .nothing run.delivery } :=
    ⟨Table.lock_rows .., rfl, rfl, rfl, le_rfl⟩
  exact ⟨.commitCreated (vacant.same hsame) key minted, .quiet hsame rfl (.inl rfl),
    ⟨.lock, .stay, .stay, .stay⟩, Nat.lt_succ_self _, nofun⟩

theorem commitCreated_step
    (h : some (commit s ⟨.createRun seed now, .commitRun run true, deliveryWritten record run,
      runWritten run, indexWritten run, jobs⟩ (.run run true)) = some (s', p')) :
    CallStep ids s ⟨.createRun seed now, .commitRun run true, deliveryWritten record run, runWritten run,
      indexWritten run, jobs⟩ s' p' := by
  cases h
  have hadds : Adds ids s run (commit s ⟨.createRun seed now, .commitRun run true, deliveryWritten record run,
      runWritten run, indexWritten run, jobs⟩ (.run run true)).1 := by
    refine ⟨⟨record, fun key => Table.commit_only_lookup ..⟩, fun id => Table.commit_only_lookup ..,
      fun id => Table.commit_only_lookup .., fun id row hrow => ?_, rfl⟩
    have hrow : (s.jobRuns.commit jobs).rows.lookup id = some row := hrow
    rw [Table.commit_lookup] at hrow
    rcases Option.or_eq_some_iff.mp hrow with hw | ⟨-, hold⟩
    · exact .inr (minted.writes id row hw)
    · exact .inl hold
  exact ⟨.returned hadds.served key, .committed vacant hadds rfl rfl rfl,
    ⟨.ended, .ended, .ended, .ended⟩, Nat.lt_succ_self _, nofun⟩

end

theorem commitFound_step (served : Served s run) (key : run.delivery = seed.delivery)
    (h : some (commit s (reading seed now (.commitRun run false)) (.run run false)) = some (s', p')) :
    CallStep ids s (reading seed now (.commitRun run false)) s' p' := by
  cases h
  have hsame : Same s (commit s (reading seed now (.commitRun run false)) (.run run false)).1 :=
    ⟨Table.commit_nothing_rows _, Table.commit_nothing_rows _, Table.commit_nothing_rows _,
      Table.commit_nothing_rows _, le_rfl⟩
  exact ⟨.returned (served.same hsame) key, .quiet hsame rfl (.inl rfl),
    ⟨.ended, .ended, .ended, .ended⟩, Nat.lt_succ_self _, nofun⟩

theorem call_step (hs : Stored ids s) (hp : Call ids s p) (hclear : Clear s p q) (h : Runs ids s p s' p') :
    CallStep ids s p s' p' := by
  unfold Runs at h
  cases hp with
  | @first seed now =>
    have hstep := select_step hs rfl hclear
    have heq : selectDelivery ids s (.begin (.createRun seed now)) seed now = (s', p') := Option.some.inj h
    rw [heq] at hstep
    exact hstep
  | @getRun seed now run served key =>
    have hexec : exec ids s (reading seed now (.getRun run.id)) =
        some (s, reading seed now (.commitRun run false)) := by
      show some (getRun _ _ _) = _
      unfold getRun
      rw [Table.visible_nothing, served.row]
    rw [hexec] at h
    cases h
    exact ⟨.commitFound served key, .quiet (.refl s) rfl (.inl rfl), ⟨.stay, .stay, .stay, .stay⟩,
      Nat.lt_succ_self _, nofun⟩
  | insertRun vacant key => exact insertRun_step vacant key h
  | @insertJobs seed now run todo jobs vacant key minted =>
    cases todo with
    | nil =>
      cases h
      exact ⟨.bindDelivery vacant key minted, .quiet (.refl s) rfl (.inl rfl),
        ⟨.stay, .stay, .stay, .stay⟩, Nat.lt_succ_self _, nofun⟩
    | cons intent rest => exact insertJob_step vacant key minted hs h
  | bindDelivery vacant key minted => exact bindDelivery_step vacant key minted h
  | commitCreated vacant key minted => exact commitCreated_step vacant key minted h
  | commitFound served key => exact commitFound_step served key h
  | returned => cases h

/-! ## Any interleaving -/

/-- Two calls create runs with different ids, for different delivery ids. -/
structure CallsApart (p q : Tx) : Prop where
  creating : ∀ run ∈ p.creating, ∀ run' ∈ q.creating,
    run.delivery.deliveryID ≠ run'.delivery.deliveryID ∧ run.id ≠ run'.id
  created : ∀ run ∈ p.created, ∀ run' ∈ q.created, run.delivery ≠ run'.delivery

theorem CallsApart.symm (h : CallsApart p q) : CallsApart q p where
  creating run hrun run' hrun' := ⟨(h.creating run' hrun' run hrun).1.symm, (h.creating run' hrun' run hrun).2.symm⟩
  created run hrun run' hrun' := (h.created run' hrun' run hrun).symm

theorem callsApart_begin : CallsApart (.begin (.createRun seed now)) q where
  creating _ hrun := by cases hrun
  created _ hrun := by cases hrun

theorem Call.creating_vacant (h : Call ids s p) (hrun : run ∈ p.creating) : Vacant ids s run := by
  cases h with
  | insertRun vacant | insertJobs vacant | bindDelivery vacant | commitCreated vacant =>
    cases hrun
    exact vacant
  | first | getRun | commitFound | returned => cases hrun

theorem Call.created_served (h : Call ids s p) (hrun : run ∈ p.created) : Served s run := by
  cases h with
  | @returned seed now run created served key =>
    cases created with
    | true =>
      cases hrun
      exact served
    | false => cases hrun
  | first | getRun | insertRun | insertJobs | bindDelivery | commitCreated | commitFound => cases hrun

theorem Stored.step (hs : Stored ids s) (h : Change ids s p s' p') : Stored ids s' := by
  have hsame : Same s s' → Stored ids s' := by
    intro same
    refine ⟨fun id run hrun => ?_, fun id row hrow => ?_, fun key record id hrecord hid => ?_⟩
    · exact (hs.runs id run (same.runs ▸ hrun)).mono same.minted
    · exact (hs.jobs id row (same.jobs ▸ hrow)).mono same.minted
    · rw [same.deliveries] at hrecord
      rw [same.runs]
      exact hs.bound key record id hrecord hid
  cases h with
  | quiet same | started same => exact hsame same
  | @committed run vacant adds =>
    obtain ⟨written, hdeliveries⟩ := adds.deliveries
    refine ⟨fun id run' hrun' => ?_, fun id row hrow => ?_, fun key record id hrecord hid => ?_⟩
    · rw [adds.minted]
      rw [adds.runs] at hrun'
      split_ifs at hrun' with heq
      · exact heq ▸ vacant.minted
      · exact hs.runs id run' hrun'
    · rw [adds.minted]
      exact (adds.jobs id row hrow).elim (hs.jobs id row) fun hminted => hminted
    · rw [hdeliveries] at hrecord
      split_ifs at hrecord with heq
      · cases hrecord
        cases hid
        exact ⟨run, (adds.runs run.id).trans (if_pos rfl), rfl, heq.symm⟩
      · obtain ⟨run', hrun', rfl, rfl⟩ := hs.bound key record id hrecord hid
        exact ⟨run', (Served.adds ⟨hrun', record, hrecord, hid⟩ vacant adds).row, rfl, rfl⟩

/-- The steps of another call leave a call as it is. -/
theorem Call.keep (hq : Call ids s q) (hapart : CallsApart p q) (h : Change ids s p s' p') : Call ids s' q := by
  have hserved : ∀ {run}, Served s run → Served s' run := by
    intro run served
    cases h with
    | quiet same | started same => exact served.same same
    | committed vacant adds => exact served.adds vacant adds
  have hvacant : ∀ {run}, run ∈ q.creating → Vacant ids s run → Vacant ids s' run := by
    intro run hrun vacant
    cases h with
    | quiet same | started same => exact vacant.same same
    | committed vacant' adds was =>
      obtain ⟨hdelivery, hid⟩ := hapart.creating _ was run hrun
      exact vacant.adds adds hid.symm hdelivery.symm
  have hminted : s.minted ≤ s'.minted := by
    cases h with
    | quiet same | started same => exact same.minted
    | committed vacant adds => exact adds.minted.ge
  cases hq with
  | first => exact .first
  | getRun served key => exact .getRun (hserved served) key
  | insertRun vacant key => exact .insertRun (hvacant rfl vacant) key
  | insertJobs vacant key minted => exact .insertJobs (hvacant rfl vacant) key (minted.mono hminted)
  | bindDelivery vacant key minted => exact .bindDelivery (hvacant rfl vacant) key (minted.mono hminted)
  | commitCreated vacant key minted => exact .commitCreated (hvacant rfl vacant) key (minted.mono hminted)
  | commitFound served key => exact .commitFound (hserved served) key
  | returned served key => exact .returned (hserved served) key

theorem CallsApart.step (hapart : CallsApart p q) (hq : Call ids s q) (hclear : Clear s p q) (h : Change ids s p s' p')
    : CallsApart p' q := by
  cases h with
  | quiet same creating created =>
    refine ⟨creating ▸ hapart.creating, ?_⟩
    rcases created with hnone | hsame
    · intro run hrun
      rw [hnone] at hrun
      cases hrun
    · exact hsame ▸ hapart.created
  | @started seed run record same selecting key id selected unbound creating created =>
    refine ⟨fun run₁ hrun₁ run₂ hrun₂ => ?_, fun run₁ hrun₁ => ?_⟩
    · rw [creating] at hrun₁
      cases hrun₁
      obtain ⟨record', hrecord', hready⟩ := hclear seed selecting
      rw [selected] at hrecord'
      cases hrecord'
      rw [unbound] at hready
      obtain ⟨-, -, hothers⟩ := hready.resolve_left (by decide)
      refine ⟨fun heq => hothers run₂ hrun₂ (heq.symm.trans (congrArg _ key)), fun heq => ?_⟩
      have hminted := (hq.creating_vacant hrun₂).minted
      rw [← heq, id] at hminted
      exact not_minted_mint s.minted hminted
    · rw [created] at hrun₁
      cases hrun₁
  | committed vacant adds was creating created =>
    refine ⟨fun run₁ hrun₁ => ?_, fun run₁ hrun₁ run₂ hrun₂ => ?_⟩
    · rw [creating] at hrun₁
      cases hrun₁
    · rw [created] at hrun₁
      cases hrun₁
      exact vacant.delivery_ne (hq.created_served hrun₂)

theorem calls_proof (ids : IDSource) :
    GuardedProof Creates (Runs ids) Clear (Stored ids) (Call ids) (fun _ p q => CallsApart p q) where
  spawn _ := by
    rintro ⟨seed, now, rfl⟩
    exact .first
  spawn_pair _ := by
    rintro ⟨seed, now, rfl⟩ -
    exact ⟨callsApart_begin, callsApart_begin.symm⟩
  shared hs hp hclear h := hs.step (call_step hs hp hclear h).change
  act hs hp hclear h := (call_step hs hp hclear h).call
  act_pair hs hp hq hclear hapart _ h := by
    have hstep := hapart.step hq hclear (call_step hs hp hclear h).change
    exact ⟨hstep, hstep.symm⟩
  keep hs hp hq hclear hapart _ h := hq.keep hapart (call_step hs hp hclear h).change
  keep_pair _ _ _ _ _ _ hapart _ := hapart

/-! ## Locks, and who has created a run -/

variable {db : Db} {c c' : Config Db Tx} {i : Nat}

/-- What is known of every state that the calls reach from `db`. -/
structure Tracked (ids : IDSource) (db : Db) (c : Config Db Tx) : Prop where
  holds : Holds (Stored ids) (Call ids) (fun _ p q => CallsApart p q) c
  deliveries : Accounted c.shared.deliveries (c.procs.map (·.deliveries))
  runs : Accounted c.shared.workflowRuns (c.procs.map (·.runs))
  deliveryIDs : Accounted c.shared.deliveryIDs (c.procs.map (·.deliveryIDs))
  jobs : Accounted c.shared.jobRuns (c.procs.map (·.jobs))
  created : ∀ key record, c.shared.deliveries.rows.lookup key = some record → record.runID.isSome →
    db.deliveries.rows.lookup key = some record ∨ ∃ q ∈ c.procs, ∃ run ∈ q.created, run.delivery = key

theorem tracked_start (h : Consistent ids db) : Tracked ids db ⟨db, []⟩ where
  holds := holds_idle ⟨h.runs, h.jobs, h.bound⟩
  deliveries := accounted_of_unlocked h.unlocked.1
  runs := accounted_of_unlocked h.unlocked.2.1
  deliveryIDs := accounted_of_unlocked h.unlocked.2.2.1
  jobs := accounted_of_unlocked h.unlocked.2.2.2
  created _ _ hrecord _ := .inl hrecord

theorem Ready.clear (h : Ready c p) (hq : q ∈ c.procs) : Clear c.shared p q := by
  intro seed hseed
  obtain ⟨record, hrecord, hready⟩ := h seed hseed
  exact ⟨record, hrecord, hready.imp id fun hcreatable => ⟨hcreatable.1, hcreatable.2.1, hcreatable.2.2 q hq⟩⟩

theorem Call.not_created_of_runs (hp : Call ids s p) (h : Runs ids s p s' p') : p.created = none := by
  cases hp with
  | returned => cases h
  | first | getRun | insertRun | insertJobs | bindDelivery | commitCreated | commitFound => rfl

theorem Change.created_kept (h : Change ids s p s' p') (hp : p.created = none) {procs : List Tx}
    (hi : procs[i]? = some p)
    (hcreated : ∀ key record, s.deliveries.rows.lookup key = some record → record.runID.isSome →
      db.deliveries.rows.lookup key = some record ∨
        ∃ q ∈ procs, ∃ run ∈ q.created, run.delivery = key) :
    ∀ key record, s'.deliveries.rows.lookup key = some record → record.runID.isSome →
      db.deliveries.rows.lookup key = some record ∨ ∃ q ∈ procs.set i p', ∃ run ∈ q.created, run.delivery = key := by
  intro key record hrecord hbound
  have hold : s.deliveries.rows.lookup key = some record → db.deliveries.rows.lookup key = some record ∨
      ∃ q ∈ procs.set i p', ∃ run ∈ q.created, run.delivery = key := by
    intro hbefore
    refine (hcreated key record hbefore hbound).imp id fun hsome => exists_mem_set hi hsome ?_
    rintro ⟨run, hrun, -⟩
    rw [hp] at hrun
    cases hrun
  cases h with
  | quiet same | started same => exact hold (same.deliveries ▸ hrecord)
  | @committed run vacant adds was creating created =>
    obtain ⟨written, hdeliveries⟩ := adds.deliveries
    rw [hdeliveries] at hrecord
    split_ifs at hrecord with heq
    · obtain ⟨hlt, -⟩ := List.getElem?_eq_some_iff.mp hi
      exact .inr ⟨p', List.mem_set hlt p', run, created, heq.symm⟩
    · exact hold hrecord

theorem Tracked.turn (h : Tracked ids db c) (hturn : GuardedTurn Creates (Runs ids) Ready c c') :
    Tracked ids db c' := by
  have hholds := (calls_proof ids).turn Ready.clear h.holds hturn
  cases hturn with
  | @spawn p started =>
    refine ⟨hholds, h.deliveries.append _, h.runs.append _, h.deliveryIDs.append _, h.jobs.append _,
      fun key record hrecord hbound => (h.created key record hrecord hbound).imp id ?_⟩
    rintro ⟨q, hq, hrun⟩
    exact ⟨q, List.mem_append_left _ hq, hrun⟩
  | @act i p p' s' proc allowed stepped =>
    have hp := h.holds.proc proc
    have hstep := call_step h.holds.shared hp (allowed.clear (List.mem_of_getElem? proc)) stepped
    exact ⟨hholds, h.deliveries.step proc hstep.hands.deliveries, h.runs.step proc hstep.hands.runs,
      h.deliveryIDs.step proc hstep.hands.deliveryIDs, h.jobs.step proc hstep.hands.jobs,
      hstep.change.created_kept (hp.not_created_of_runs stepped) proc h.created⟩

theorem tracked_reaches (hdb : Consistent ids db) (hreach : GuardedReaches Creates (Runs ids) Ready ⟨db, []⟩ c) :
    Tracked ids db c := by
  induction hreach with
  | refl => exact tracked_start hdb
  | tail _ hturn ih => exact ih.turn hturn

/-! ## No call waits for ever -/

/-- What a call has locked belongs to the run that it is creating. -/
theorem Call.held (h : Call ids s p) :
    (∀ id ∈ p.runs.held, ∃ run ∈ p.creating, run.id = id) ∧
    (∀ id ∈ p.deliveryIDs.held, ∃ run ∈ p.creating, run.delivery.deliveryID = id) ∧
    (∀ key ∈ p.deliveries.held, ∃ run ∈ p.creating, run.delivery = key) ∧
    ∀ id ∈ p.jobs.held, Minted ids s.minted id := by
  cases h with
  | insertJobs _ _ minted | bindDelivery _ _ minted =>
    exact ⟨fun id hid => ⟨_, rfl, ((Access.only_held ..).mp hid).symm⟩,
      fun id hid => ⟨_, rfl, ((Access.only_held ..).mp hid).symm⟩, nofun, minted.held⟩
  | commitCreated _ _ minted =>
    exact ⟨fun id hid => ⟨_, rfl, ((Access.only_held ..).mp hid).symm⟩,
      fun id hid => ⟨_, rfl, ((Access.only_held ..).mp hid).symm⟩,
      fun key hkey => ⟨_, rfl, ((Access.only_held ..).mp hkey).symm⟩, minted.held⟩
  | first | getRun | insertRun | commitFound | returned =>
    exact ⟨nofun, nofun, nofun, nofun⟩

theorem runs_of_isSome (h : (exec ids s p).isSome) : ∃ s' p', Runs ids s p s' p' := by
  obtain ⟨⟨s', p'⟩, hout⟩ := Option.isSome_iff_exists.mp h
  exact ⟨s', p', hout⟩

theorem insertRun_runs (vacant : Vacant ids s run) (hfree : s.workflowRuns.Free .nothing run.id)
    (hfree' : s.deliveryIDs.Free .nothing run.delivery.deliveryID) :
    ∃ s' p', Runs ids s (reading seed now (.insertRun run)) s' p' := by
  refine runs_of_isSome ?_
  show (insertRun ..).isSome
  unfold insertRun
  dsimp only
  rw [Table.visible_nothing, Table.visible_nothing, vacant.row, vacant.index, if_neg (by decide),
    if_neg (not_not.mpr hfree), if_neg (by decide), if_neg (not_not.mpr hfree')]
  rfl

theorem insertJob_runs (hs : Stored ids s) {intent rest} (minted : JobsMinted ids s.minted jobs)
    (hfree : s.jobRuns.Free jobs (ids.mint s.minted)) :
    ∃ s' p', Runs ids s (writing seed now run jobs (.insertJobs run (intent :: rest))) s' p' :=
  ⟨_, _, (insertJob_eq hs minted ..).trans (if_neg (not_not.mpr hfree))⟩

theorem bindDelivery_runs (vacant : Vacant ids s run) (key : run.delivery = seed.delivery)
    (hfree : s.deliveries.Free .nothing run.delivery) :
    ∃ s' p', Runs ids s (writing seed now run jobs (.bindDelivery run)) s' p' := by
  obtain ⟨record, hrecord, hunbound⟩ := vacant.unbound
  refine runs_of_isSome ?_
  show (bindDelivery ..).isSome
  unfold bindDelivery
  rw [Table.visible_nothing, ← key, hrecord]
  dsimp only
  rw [hunbound, if_neg (by decide), if_pos hfree]
  rfl

theorem Tracked.runs_next (h : Tracked ids db c) (hi : c.procs[i]? = some p) :
    (∃ run created, p.point = .returned (.ok (.run run created))) ∨ ∃ s' p', Runs ids c.shared p s' p' := by
  have hpair : ∀ {j q}, j ≠ i → c.procs[j]? = some q → CallsApart p q :=
    fun hj hq => h.holds.pair hj.symm hi hq
  have hcall := h.holds.proc hi
  cases hcall with
  | first | getRun => exact .inr ⟨_, _, rfl⟩
  | @insertRun seed now run vacant key =>
    have hfree : c.shared.workflowRuns.Free .nothing run.id :=
      Accounted.free (f := Tx.runs) h.runs hi fun j q hj hq hheld => by
        obtain ⟨run', hrun', heq⟩ := (h.holds.proc hq).held.1 _ hheld
        exact ((hpair hj hq).creating run rfl run' hrun').2 heq.symm
    have hfree' : c.shared.deliveryIDs.Free .nothing run.delivery.deliveryID :=
      Accounted.free (f := Tx.deliveryIDs) h.deliveryIDs hi fun j q hj hq hheld => by
        obtain ⟨run', hrun', heq⟩ := (h.holds.proc hq).held.2.1 _ hheld
        exact ((hpair hj hq).creating run rfl run' hrun').1 heq.symm
    exact .inr (insertRun_runs vacant hfree hfree')
  | @insertJobs seed now run todo jobs vacant key minted =>
    cases todo with
    | nil => exact .inr ⟨_, _, rfl⟩
    | cons intent rest =>
      have hfree : c.shared.jobRuns.Free jobs (ids.mint c.shared.minted) :=
        Accounted.free (f := Tx.jobs) h.jobs hi fun j q hj hq hheld =>
          not_minted_mint c.shared.minted ((h.holds.proc hq).held.2.2.2 _ hheld)
      exact .inr (insertJob_runs h.holds.shared minted hfree)
  | @bindDelivery seed now run jobs vacant key minted =>
    have hfree : c.shared.deliveries.Free .nothing run.delivery :=
      Accounted.free (f := Tx.deliveries) h.deliveries hi fun j q hj hq hheld => by
        obtain ⟨run', hrun', heq⟩ := (h.holds.proc hq).held.2.2.1 _ hheld
        exact ((hpair hj hq).creating run rfl run' hrun').1 (congrArg _ heq.symm)
    exact .inr (bindDelivery_runs vacant key hfree)
  | commitCreated | commitFound => exact .inr ⟨_, _, rfl⟩
  | returned => exact .inl ⟨_, _, rfl⟩

theorem ready_of_ne_first (h : p.point ≠ .first) : Ready c p := by
  intro seed hseed
  unfold Tx.selecting at hseed
  split at hseed
  next hpoint hop => exact absurd hpoint h
  next => cases hseed

/-- A call can run to its end, by induction on the statements that it has left. -/
theorem Tracked.returns (h : Tracked ids db c) (hi : c.procs[i]? = some p) (hready : Ready c p) :
    ∃ c' p', GuardedReaches Creates (Runs ids) Ready c c' ∧ c'.procs[i]? = some p' ∧
      ∃ run created, p'.point = .returned (.ok (.run run created)) := by
  induction hleft : p.left using Nat.strong_induction_on generalizing c p with
  | _ n ih =>
    rcases h.runs_next hi with hreturned | ⟨s', p', hruns⟩
    · exact ⟨c, p, .refl, hi, hreturned⟩
    · have hturn : GuardedTurn Creates (Runs ids) Ready c ⟨s', c.procs.set i p'⟩ := .act hi hready hruns
      have hstep := call_step h.holds.shared (h.holds.proc hi) (hready.clear (List.mem_of_getElem? hi)) hruns
      obtain ⟨hlt, -⟩ := List.getElem?_eq_some_iff.mp hi
      have hi' : (c.procs.set i p')[i]? = some p' := List.getElem?_set_self hlt
      obtain ⟨c'', p'', hreach, hi'', hreturned⟩ := ih p'.left (hleft ▸ hstep.left) (h.turn hturn) hi'
        (ready_of_ne_first hstep.past) rfl
      exact ⟨c'', p'', .head hturn hreach, hi'', hreturned⟩

/-! ## Create-or-get -/

theorem Call.returned_served (h : Call ids s p) {result} (hpoint : p.point = .returned result) :
    ∃ run created, result = .ok (.run run created) ∧ p.delivery = some run.delivery ∧ Served s run := by
  cases h with
  | @returned seed now run created served key =>
    cases hpoint
    exact ⟨run, created, rfl, congrArg some key.symm, served⟩
  | first | getRun | insertRun | insertJobs | bindDelivery | commitCreated | commitFound => cases hpoint

theorem Served.unique (h : Served s run) (h' : Served s run') (hdelivery : run.delivery = run'.delivery) :
    run = run' := by
  obtain ⟨record, hrecord, hbound⟩ := h.bound
  obtain ⟨record', hrecord', hbound'⟩ := h'.bound
  rw [hdelivery] at hrecord
  obtain rfl := Option.mem_unique hrecord hrecord'
  have hid := Option.mem_unique hbound hbound'
  exact Option.mem_unique h.row (hid ▸ h'.row)

theorem created_of_point (h : p.point = .returned (.ok (.run run true))) : run ∈ p.created := by
  unfold Tx.created
  rw [h]
  rfl

/-- In every interleaving of calls of CreateRun that select their deliveries when they are bound or creatable, no call
fails, calls have the same run if and only if they have the same delivery, exactly one has created a run that was not
there before, and every call can run to its end. -/
theorem create_or_get (ids : IDSource) (db : Db) (hdb : Consistent ids db) (c : Config Db Tx)
    (hreach : GuardedReaches Creates (Runs ids) Ready ⟨db, []⟩ c) :
    (∀ tx ∈ c.procs, ∀ result, tx.point = .returned result →
      ∃ run created, result = .ok (.run run created) ∧ tx.delivery = some run.delivery) ∧
    (∀ (i j : Nat) p q run run' created created', c.procs[i]? = some p → c.procs[j]? = some q →
      p.point = .returned (.ok (.run run created)) → q.point = .returned (.ok (.run run' created')) →
      (run = run' ↔ p.delivery = q.delivery) ∧ (p.delivery = q.delivery → created → created' → i = j)) ∧
    (∀ tx ∈ c.procs, ∀ run created record, tx.point = .returned (.ok (.run run created)) →
      db.deliveries.rows.lookup run.delivery = some record → record.runID = none →
      ∃ tx' ∈ c.procs, tx'.point = .returned (.ok (.run run true))) ∧ ∀ (i : Nat) p, c.procs[i]? = some p → Ready c p →
      ∃ c' p', GuardedReaches Creates (Runs ids) Ready c c' ∧ c'.procs[i]? = some p' ∧
        ∃ run created, p'.point = .returned (.ok (.run run created)) := by
  have htracked := tracked_reaches hdb hreach
  have hcall : ∀ {tx}, tx ∈ c.procs → Call ids c.shared tx := by
    intro tx htx
    obtain ⟨i, hi⟩ := List.mem_iff_getElem?.mp htx
    exact htracked.holds.proc hi
  have hserved : ∀ {tx run created}, tx ∈ c.procs → tx.point = .returned (.ok (.run run created)) →
      tx.delivery = some run.delivery ∧ Served c.shared run := by
    intro tx run created htx hpoint
    obtain ⟨run', created', hresult, hdelivery, hserved⟩ := (hcall htx).returned_served hpoint
    cases hresult
    exact ⟨hdelivery, hserved⟩
  refine ⟨fun tx htx result hpoint => ?_, fun i j p q run run' created created' hi hj hp hq => ?_,
    fun tx htx run created record hpoint hrecord hunbound => ?_, fun i p hi hready => htracked.returns hi hready⟩
  · obtain ⟨run, created, hresult, hdelivery, -⟩ := (hcall htx).returned_served hpoint
    exact ⟨run, created, hresult, hdelivery⟩
  · obtain ⟨hdelivery, hrun⟩ := hserved (List.mem_of_getElem? hi) hp
    obtain ⟨hdelivery', hrun'⟩ := hserved (List.mem_of_getElem? hj) hq
    rw [hdelivery, hdelivery', Option.some_inj]
    refine ⟨⟨fun heq => congrArg _ heq, hrun.unique hrun'⟩, fun heq hcreated hcreated' => ?_⟩
    by_contra hne
    subst hcreated hcreated'
    exact (htracked.holds.pair hne hi hj).created run (created_of_point hp) run' (created_of_point hq) heq
  · obtain ⟨-, hrun⟩ := hserved htx hpoint
    obtain ⟨record', hrecord', hbound⟩ := hrun.bound
    rcases htracked.created run.delivery record' hrecord' (by rw [hbound]; rfl) with hbefore | hsome
    · rw [hrecord, Option.some_inj] at hbefore
      rw [← hbefore, hunbound] at hbound
      cases hbound
    · obtain ⟨tx', htx', run', hrun', hdelivery⟩ := hsome
      have heq : run' = run := ((hcall htx').created_served hrun').unique hrun hdelivery
      subst heq
      refine ⟨tx', htx', ?_⟩
      unfold Tx.created at hrun'
      split at hrun'
      next hpoint' => cases hrun'; exact hpoint'
      next => cases hrun'

theorem consistent_recorded (ids : IDSource) (key key' : DeliveryKey) : Consistent ids (recorded [key, key']) where
  unlocked := ⟨rfl, rfl, rfl, rfl⟩
  runs id run hrun := by cases hrun
  jobs id row hrow := by cases hrow
  bound key₁ record id hrecord hid := by
    simp only [recorded, List.foldr_cons, List.foldr_nil] at hrecord
    rcases GoMap.lookup_insert_cases hrecord with ⟨-, rfl⟩ | hrest
    · cases hid
    · rcases GoMap.lookup_insert_cases hrest with ⟨-, rfl⟩ | hempty
      · cases hid
      · cases hempty

/-- The transactions of these calls, before they begin. -/
def callsOf (calls : List (RunSeed × Time)) : List Tx := calls.map fun call => .begin (.createRun call.1 call.2)

theorem creates_callsOf (calls : List (RunSeed × Time)) : ∀ tx ∈ callsOf calls, Creates tx := by
  intro tx htx
  obtain ⟨call, -, rfl⟩ := List.mem_map.mp htx
  exact ⟨call.1, call.2, rfl⟩

/-- Two calls for one delivery, and one for another at the same time: two runs, each created once. -/
theorem create_or_get_replayed :
    ∃ c, GuardedReaches Creates (Runs .unary) Ready ⟨recorded [⟨"github", "d"⟩, ⟨"github", "e"⟩], []⟩ c ∧
      results c = [some (.ok (.run (newRun "i" (seedOf ⟨"github", "d"⟩ ["a"]) 1) true)),
        some (.ok (.run (newRun "i" (seedOf ⟨"github", "d"⟩ ["a"]) 1) false)),
        some (.ok (.run (newRun "ii" (seedOf ⟨"github", "e"⟩ ["a"]) 3) true))] ∧
      ∃ tx' ∈ c.procs, tx'.point = .returned (.ok (.run (newRun "i" (seedOf ⟨"github", "d"⟩ ["a"]) 1) true)) := by
  have hspawn : GuardedReaches Creates (Runs .unary) Ready ⟨recorded [⟨"github", "d"⟩, ⟨"github", "e"⟩], []⟩
      ⟨recorded [⟨"github", "d"⟩, ⟨"github", "e"⟩], [] ++ callsOf [(seedOf ⟨"github", "d"⟩ ["a"], 1),
        (seedOf ⟨"github", "d"⟩ ["a"], 2), (seedOf ⟨"github", "e"⟩ ["a"], 3)]⟩ :=
    guardedReaches_spawn [] _ (creates_callsOf _)
  have hreach := hspawn.trans (guardedReaches_of_playGuarded id [0, 2, 0, 2, 0, 2, 0, 2, 0, 2, 0, 1, 2, 1, 1] rfl)
  have hget := (create_or_get .unary _ (consistent_recorded _ _ _) _ hreach).2.2.1
  exact ⟨_, hreach, rfl, hget _ (.tail _ (.head _)) _ _ _ rfl rfl rfl⟩

/-- Of two first calls that select before one inserts, one fails, and so does one for the id of another provider. -/
theorem create_or_get_refused :
    (∃ c, Interleaving.Reaches Creates (Runs .unary) ⟨recorded [⟨"github", "d"⟩, ⟨"gitea", "d"⟩], []⟩ c ∧
      results c = [some (.ok (.run (newRun "i" (seedOf ⟨"github", "d"⟩ ["a"]) 1) true)),
        some (.error (.wrap "postgres: insert run: " (uniqueViolation "workflow_runs_delivery_id_key") ""))] ∧
      c.procs.map (·.delivery) = [some ⟨"github", "d"⟩, some ⟨"github", "d"⟩]) ∧
    ∃ c, Interleaving.Reaches Creates (Runs .unary) ⟨recorded [⟨"github", "d"⟩, ⟨"gitea", "d"⟩], []⟩ c ∧
      results c = [some (.ok (.run (newRun "i" (seedOf ⟨"github", "d"⟩ ["a"]) 1) true)),
        some (.error (.wrap "postgres: insert run: " (uniqueViolation "workflow_runs_delivery_id_key") ""))] ∧
      c.procs.map (·.delivery) = [some ⟨"github", "d"⟩, some ⟨"gitea", "d"⟩] := by
  exact ⟨⟨_, (reaches_spawn (callsOf [(seedOf ⟨"github", "d"⟩ ["a"], 1), (seedOf ⟨"github", "d"⟩ ["a"], 2)])
      (creates_callsOf _)).trans (reaches_of_play id [0, 1, 0, 0, 0, 0, 0, 1] rfl), rfl, rfl⟩,
    ⟨_, (reaches_spawn (callsOf [(seedOf ⟨"github", "d"⟩ ["a"], 1), (seedOf ⟨"gitea", "d"⟩ ["a"], 2)])
      (creates_callsOf _)).trans (reaches_of_play id [0, 0, 0, 0, 0, 0, 1, 1] rfl), rfl, rfl⟩⟩

end Forgelet.Postgres.Creation
