import Forgelet.Scheduler.Workers
import Forgelet.Store.Proofs.ActiveProofs
import Forgelet.Store.Proofs.HistoryProofs

/-!
# Proofs: the windows between the calls of the workers

A dispatch whose acknowledgement was lost is completed by the next one, unless the job was observed running in between.
An object that is created for a job after its collection stays, unless `CreateOrGet` is called in time.
-/

namespace Forgelet

open DurableStore Relation Interleaving
open Workers (InTime PastCollection new)

variable {W : Wiring} {w w' : Stores}

variable {p p' : Worker} {id : JobRunID} {job : JobRunRecord} {s : DurableStore} {c : Workers}

/-! ## What a step does -/

namespace Worker

/-- What one step of a worker can do. -/
inductive Effect (W : Wiring) (w : Stores) : Worker → Stores → Worker → Prop
  | dispatching {faults : DispatchFaults} {now : Time} {id : JobRunID} {point point' : DispatchPoint} :
      Effect W w (.dispatch faults now id point) w (.dispatch faults now id point')
  | ensured {faults : DispatchFaults} {now : Time} {id : JobRunID} {point' : DispatchPoint} :
      Effect W w (.dispatch faults now id .create) { w with active := (w.active.createOrGet id).2 }
        (.dispatch faults now id point')
  | acked {faults : DispatchFaults} {now : Time} {id : JobRunID} {uid : String} {point' : DispatchPoint} :
      Effect W w (.dispatch faults now id (.ack uid))
        { w with durable := StoreOp.apply W w.durable (.ackDispatched id ⟨crName id, uid⟩ now) }
        (.dispatch faults now id point')
  | called {p p' : Worker} (op : StoreOp) (allowed : Background op) (nothing : p'.toDelete = p.toDelete)
      (unmarked : ∀ id, ¬p'.Marks id) : Effect W w p { w with durable := op.apply W w.durable } p'
  | listed {clock : Nat → Time} {collected : Nat} :
      Effect W w (.collect clock collected .list) w
        (.collect clock collected (nextJob (w.durable.listGCReadyJobs.map (·.id))))
  | deleted {clock : Nat → Time} {collected : Nat} {id : JobRunID} {rest : List JobRunID} :
      Effect W w (.collect clock collected (.delete id rest)) { w with active := w.active.delete id }
        (.collect clock collected (.mark id rest))
  | marked {clock : Nat → Time} {collected : Nat} {id : JobRunID} {rest : List JobRunID} {p' : Worker}
      (next : (∃ job, w.durable.jobs.lookup id = some job) → p'.toDelete = rest)
      (unmarked : ∀ i, ¬p'.Marks i) :
      Effect W w (.collect clock collected (.mark id rest))
        { w with durable := StoreOp.apply W w.durable (.markCollected id (clock collected)) } p'

theorem nextJob_toDelete (clock : Nat → Time) (collected : Nat) (ids : List JobRunID) :
    (Worker.collect clock collected (nextJob ids)).toDelete = ids := by
  cases ids <;> rfl

theorem nextJob_unmarked (clock : Nat → Time) (collected : Nat) (ids : List JobRunID) (id : JobRunID) :
    ¬(Worker.collect clock collected (nextJob ids)).Marks id := by
  cases ids <;> exact fun h => h

theorem mark_effect (w : Stores) (clock : Nat → Time) (collected : Nat) (id : JobRunID) (rest : List JobRunID) :
    Effect W w (.collect clock collected (.mark id rest)) (mark w clock collected id rest).1
      (mark w clock collected id rest).2 := by
  unfold mark
  cases hout : w.durable.markCollected id (clock collected) with
  | mk result durable =>
    have hdurable : durable = StoreOp.apply W w.durable (.markCollected id (clock collected)) := by
      rw [StoreOp.apply, hout]
    subst hdurable
    cases result with
    | ok => exact .marked (fun _ => nextJob_toDelete clock _ rest) (nextJob_unmarked clock _ rest)
    | error err =>
      -- `MarkCollected` fails only for a job that is not stored
      refine .marked (fun hstored => ?_) fun _ h => h
      obtain ⟨job, hjob⟩ := hstored
      unfold markCollected at hout
      rw [hjob] at hout
      dsimp only at hout
      split at hout <;> cases hout

theorem ack_effect (w : Stores) (faults : DispatchFaults) (now : Time) (id : JobRunID) (uid : String) :
    Effect W w (.dispatch faults now id (.ack uid)) (ack w faults id uid now).1
      (.dispatch faults now id (ack w faults id uid now).2) := by
  unfold ack
  split
  · exact .dispatching
  · split
    · rename_i err durable hout
      have hdurable : durable = StoreOp.apply W w.durable (.ackDispatched id ⟨crName id, uid⟩ now) := by
        rw [StoreOp.apply, hout]
      subst hdurable
      exact .acked
    · rename_i durable hout
      have hdurable : durable = StoreOp.apply W w.durable (.ackDispatched id ⟨crName id, uid⟩ now) := by
        rw [StoreOp.apply, hout]
      subst hdurable
      exact .acked

theorem create_effect (w : Stores) (faults : DispatchFaults) (now : Time) (id : JobRunID) :
    Effect W w (.dispatch faults now id .create) (create w faults id).1
      (.dispatch faults now id (create w faults id).2) := by
  unfold create
  split
  · exact .dispatching
  · exact .ensured

theorem step_effect (h : Step W w p w' p') : Effect W w p w' p' := by
  cases p with
  | dispatch faults now id point =>
    cases point with
    | load =>
      cases h
      exact .dispatching
    | create =>
      cases h
      exact create_effect w faults now id
    | ack uid =>
      cases h
      exact ack_effect w faults now id uid
    | returned result => cases h
  | collect clock collected point =>
    cases point with
    | list =>
      cases h
      exact .listed
    | delete id rest =>
      cases h
      exact .deleted
    | mark id rest =>
      have heq : mark w clock collected id rest = (w', p') := Option.some.inj h
      have heffect := mark_effect (W := W) w clock collected id rest
      rw [heq] at heffect
      exact heffect
    | returned err => cases h
  | cancel r now result =>
    cases result with
    | none =>
      cases h
      exact .called (.cancelRun r now) trivial rfl fun _ h => h
    | some => cases h
  | project id phase now result =>
    cases result with
    | none =>
      cases h
      exact .called (.applyObserved id phase now) trivial rfl fun _ h => h
    | some => cases h
  | background op allowed finished =>
    cases finished with
    | false =>
      cases h
      exact .called op allowed rfl fun _ h => h
    | true => cases h

/-- The store changes by one of its calls; acknowledged objects have the name of their job. -/
theorem Effect.durable (h : Effect W w p w' p') :
    w'.durable = w.durable ∨ ∃ op : StoreOp, w'.durable = op.apply W w.durable ∧
      ∀ id obj now, op = .ackDispatched id obj now → obj.name = crName id := by
  cases h with
  | dispatching | ensured => exact .inl rfl
  | @acked _ now id uid =>
    refine .inr ⟨.ackDispatched id ⟨crName id, uid⟩ now, rfl, fun i obj t heq => ?_⟩
    cases heq
    rfl
  | called op allowed =>
    refine .inr ⟨op, rfl, fun id obj now heq => ?_⟩
    subst heq
    cases allowed
  | listed | deleted => exact .inl rfl
  | @marked clock collected id =>
    exact .inr ⟨.markCollected id (clock collected), rfl, fun i obj now heq => by cases heq⟩

end Worker

/-- The steps of a `Dispatch`, one after the other, are the function `Stores.dispatch`. -/
theorem dispatch_steps {A} {R : A → A → Prop} (f : Stores → DispatchPoint → A) {faults id now}
    (load : ∀ w, R (f w .load) (f w (Worker.load w.durable id)))
    (create : ∀ w, R (f w .create) (f (Worker.create w faults id).1 (Worker.create w faults id).2))
    (ack : ∀ w uid, R (f w (.ack uid)) (f (Worker.ack w faults id uid now).1 (Worker.ack w faults id uid now).2))
    (w : Stores) :
    ReflTransGen R (f w .load) (f (w.dispatch faults id now).2 (.returned (w.dispatch faults id now).1)) := by
  refine .head (load w) ?_
  unfold Stores.dispatch Worker.load
  cases w.durable.getJobRun id with
  | error err => exact .refl
  | ok job =>
    dsimp only
    split_ifs
    · exact .refl
    · refine .head (create w) ?_
      unfold Worker.create
      cases faults.createOrGet with
      | some err => exact .refl
      | none =>
        refine .head (ack { w with active := (w.active.createOrGet id).2 } (w.active.createOrGet id).1.uid) ?_
        unfold Worker.ack
        cases faults.ackDispatched with
        | some err => exact .refl
        | none =>
          cases w.durable.ackDispatched id ⟨crName id, (w.active.createOrGet id).1.uid⟩ now with
          | mk result durable => cases result <;> exact .refl

/-! ## Lost acknowledgements -/

/-- A dispatched job has the object of its name. -/
def DurableStore.NamedAcks (s : DurableStore) : Prop :=
  ∀ id job, s.jobs.lookup id = some job → job.status = .dispatched → job.activeName = crName id

theorem writes_named {op job'} (h : ReflTransGen (JobWrite op id) job job')
    (hop : ∀ id obj now, op = .ackDispatched id obj now → obj.name = crName id)
    (hjob : job.status = .dispatched → job.activeName = crName id) :
    job'.status = .dispatched → job'.activeName = crName id := by
  induction h with
  | refl => exact hjob
  | tail _ hwrite ih =>
    cases hwrite with
    | skip queued now => exact fun h => by cases h
    | ack waiting obj now => exact fun _ => hop id obj now rfl
    | observe opened implied forward now =>
      intro hd
      rw [observed_status] at hd
      rcases jobStatusFromPhase_cases implied with rfl | rfl | rfl | rfl <;> cases hd
    | cancel opened now => exact fun h => by cases h
    | collect now => exact ih

theorem namedAcks_apply (hi : Inv W s) (h : s.NamedAcks) (op : StoreOp)
    (hop : ∀ id obj now, op = .ackDispatched id obj now → obj.name = crName id) : (op.apply W s).NamedAcks := by
  intro id job' hjob'
  rcases origin_apply hi op hjob' with hnew | ⟨job, hold, hwrites⟩
  · intro hd
    rw [← hnew] at hd
    cases hd
  · exact writes_named hwrites hop (h id job hold)

/-- Workers keep the invariants, and acknowledge jobs under their own names. -/
theorem workers_inv (h : Reaches Worker.Begins (Worker.Step W) new c) :
    Inv W c.shared.durable ∧ c.shared.durable.NamedAcks := by
  induction h with
  | refl => exact ⟨inv_new W, fun id job hjob => by cases hjob⟩
  | tail _ hturn ih =>
    cases hturn with
    | spawn started => exact ih
    | act proc stepped =>
      rcases (Worker.step_effect stepped).durable with hsame | ⟨op, hop, hname⟩
      · rw [hsame]
        exact ih
      · rw [hop]
        exact ⟨inv_step ih.1 op, namedAcks_apply ih.1 ih.2 op hname⟩

theorem ackDispatched_waiting {obj} (hj : s.jobs.lookup id = some job)
    (hwait : job.status = .queued ∨ (job.status = .dispatched ∧ job.activeName = obj.name)) (now : Time) :
    s.ackDispatched id obj now = (.ok (), s.ackJob job id obj now) := by
  unfold ackDispatched
  rw [hj]
  dsimp only
  rcases hwait with hq | ⟨hd, hname⟩
  · rw [hq]
  · rw [hd]
    rw [if_neg fun h => h.2 hname]

/-- After any interleaving, a dispatch without failures of a job that is not terminal and has an object succeeds and
records the object exactly if the job was not observed running before. -/
theorem dispatch_converges_iff (W : Wiring) (c : Workers) (hreach : Reaches Worker.Begins (Worker.Step W) Workers.new c)
    (id : JobRunID) (job : JobRunRecord) (obj : ActiveObject) (hjob : c.shared.durable.getJobRun id = .ok job)
    (hopen : job.status.isTerminal = false) (hobj : c.shared.active.objects.lookup id = some obj) (now : Time) :
    (∃ w' job', c.shared.dispatch .none id now = (.ok (), w') ∧ w'.durable.getJobRun id = .ok job' ∧
        job'.activeName = crName id ∧ (w'.active.objects.lookup id).map (·.uid) = some job'.activeUID) ↔
      job.status ≠ .running := by
  have hfound := getJobRun_eq_ok.mp hjob
  unfold Stores.dispatch
  rw [hjob]
  dsimp only
  constructor
  · rintro ⟨w', job', heq, -⟩ hrunning
    rw [hrunning, if_pos (by decide)] at heq
    cases heq
  · intro hne
    have hwait : job.status = .queued ∨ (job.status = .dispatched ∧ job.activeName = crName id) := by
      cases hstatus : job.status with
      | queued => exact .inl rfl
      | dispatched => exact .inr ⟨rfl, (workers_inv hreach).2 id job hfound hstatus⟩
      | running => exact absurd hstatus hne
      | _ =>
        rw [hstatus] at hopen
        cases hopen
    have hcheck : ¬(job.status ≠ .queued ∧ job.status ≠ .dispatched) := fun h =>
      hwait.elim h.1 fun hd => h.2 hd.1
    rw [if_neg hcheck, ActiveStore.createOrGet_of_some hobj]
    rw [ackDispatched_waiting hfound hwait]
    refine ⟨_, _, rfl, getJobRun_eq_ok.mpr ((ackJob_lookup ..).trans (if_pos rfl)), rfl, ?_⟩
    rw [hobj]
    rfl

/-- A run with one job, whose dispatch is not acknowledged, and which runs. -/
def lostAck : List Worker :=
  [.background (.recordDelivery pushDelivery) trivial false,
    .background (.createRun (pushSeed [intentOf "a" [] ""]) 0) trivial false,
    .dispatch ⟨none, some .errNoQueuedJob⟩ 1 "ii" .load, .project "ii" .running 2 none]

theorem lostAck_begins : ∀ p ∈ lostAck, Worker.Begins p := by
  simp only [lostAck, List.forall_mem_cons]
  exact ⟨.background _ _, .background _ _, .dispatch _ _ _, .project _ _ _, fun p hp => by cases hp⟩

theorem reaches_schedule {ps : List Worker} (hps : ∀ p ∈ ps, Worker.Begins p) (schedule : List Nat)
    (hplay : play (Worker.exec W) schedule ⟨new.shared, ps⟩ = some c) :
    Reaches Worker.Begins (Worker.Step W) new c :=
  (reaches_spawn ps hps).trans (reaches_of_play id schedule hplay)

/-- The dispatch that follows a lost acknowledgement succeeds. -/
theorem dispatch_converges_queued : ∃ c job obj, Reaches Worker.Begins (Worker.Step Wiring.unary) Workers.new c ∧
      c.shared.durable.getJobRun "ii" = .ok job ∧ job.status = .queued ∧
      c.shared.active.objects.lookup "ii" = some obj ∧
      ∃ w' job', c.shared.dispatch .none "ii" 3 = (.ok (), w') ∧ w'.durable.getJobRun "ii" = .ok job' ∧
        job'.activeName = crName "ii" ∧ (w'.active.objects.lookup "ii").map (·.uid) = some job'.activeUID := by
  have hreach := reaches_schedule (W := Wiring.unary) lostAck_begins [0, 1, 2, 2, 2] rfl
  exact ⟨_, _, _, hreach, rfl, rfl, rfl,
    (dispatch_converges_iff Wiring.unary _ hreach "ii" _ _ rfl rfl rfl 3).mpr (by decide)⟩

/-- A job that runs before its dispatch is acknowledged is refused at the next one. -/
theorem dispatch_refused_running : ∃ c job obj, Reaches Worker.Begins (Worker.Step Wiring.unary) Workers.new c ∧
      c.shared.durable.getJobRun "ii" = .ok job ∧ job.status.isTerminal = false ∧
      c.shared.active.objects.lookup "ii" = some obj ∧ job.activeName = "" ∧ (c.shared.dispatch .none "ii" 3).1 =
        .error (.wrap "" .errJobNotDispatchable ": ii in status running") :=
  ⟨_, _, _, reaches_schedule lostAck_begins [0, 1, 2, 2, 2, 3] rfl, rfl, rfl, rfl, rfl, rfl⟩

/-! ## Collection -/

theorem mem_listGCReadyJobs :
    job ∈ s.listGCReadyJobs ↔ ∃ r run, s.runs.lookup r = some run ∧ run.status.isTerminal ∧
      job ∈ s.jobsOf r ∧ job.status.isTerminal ∧ job.activeCollectedAt = none := by
  unfold listGCReadyJobs sortedRunIDs
  simp only [List.mem_flatMap, List.mem_insertionSort]
  constructor
  · rintro ⟨r, -, hjob⟩
    cases hrun : s.runs.lookup r with
    | none => simp [hrun] at hjob
    | some run =>
      simp only [hrun] at hjob
      split_ifs at hjob with hterm
      · rw [List.mem_filter, Bool.and_eq_true, Option.isNone_iff_eq_none] at hjob
        exact ⟨r, run, hrun, hterm, hjob.1, hjob.2⟩
      · cases hjob
  · rintro ⟨r, run, hrun, hterm, hmem, hjob⟩
    refine ⟨r, AList.lookup_isSome.mp (by rw [hrun]; rfl), ?_⟩
    simp only [hrun]
    rw [if_pos hterm, List.mem_filter, Bool.and_eq_true, Option.isNone_iff_eq_none]
    exact ⟨hmem, hjob⟩

theorem observed_activeCollectedAt (job : JobRunRecord) (target : JobRunStatus) (now : Time) :
    (observed job target now).activeCollectedAt = job.activeCollectedAt := by
  unfold observed
  split <;> rfl

theorem writes_collected {op job'} (h : ReflTransGen (JobWrite op id) job job') :
    job'.activeCollectedAt = job.activeCollectedAt ∨ ∃ now, op = .markCollected id now := by
  induction h with
  | refl => exact .inl rfl
  | tail _ hwrite ih =>
    cases hwrite with
    | skip | ack => exact ih
    | observe opened implied forward now => exact ih.imp_left (observed_activeCollectedAt ..).trans
    | cancel opened now => exact ih
    | collect now => exact .inr ⟨now, rfl⟩

/-- Only `MarkCollected` marks a job as collected. -/
theorem collected_apply (hi : Inv W s) (op : StoreOp) (h : (op.apply W s).Collected id) :
    s.Collected id ∨ ∃ now, op = .markCollected id now := by
  obtain ⟨job', hjob', hcollected⟩ := h
  rcases origin_apply hi op hjob' with hnew | ⟨job, hold, hwrites⟩
  · rw [← hnew] at hcollected
    exact absurd rfl hcollected
  · refine (writes_collected hwrites).imp_left fun hsame => ⟨job, hold, ?_⟩
    rw [← hsame]
    exact hcollected

/-- What a `Collect` works on is stored, and an object past collection will be deleted by one in progress. -/
structure Collecting (W : Wiring) (c : Workers) : Prop where
  inv : Inv W c.shared.durable
  stored : ∀ p ∈ c.procs, ∀ id, id ∈ p.toDelete ∨ p.Marks id →
    ∃ job, c.shared.durable.jobs.lookup id = some job
  visible : ∀ id obj, c.shared.active.objects.lookup id = some obj → c.PastCollection id →
    ∃ q ∈ c.procs, id ∈ q.toDelete

theorem Worker.Effect.stored (h : Effect W w p w' p') (hi : Inv W w.durable)
    (hp : ∀ id, id ∈ p.toDelete ∨ p.Marks id → ∃ job, w.durable.jobs.lookup id = some job)
    (hid : id ∈ p'.toDelete ∨ p'.Marks id) : ∃ job, w.durable.jobs.lookup id = some job := by
  cases h with
  | dispatching | ensured | acked => rcases hid with hid | hid <;> cases hid
  | called op allowed nothing unmarked =>
    rcases hid with hid | hid
    · rw [nothing] at hid
      exact hp id (.inl hid)
    · exact absurd hid (unmarked id)
  | @listed clock collected =>
    rcases hid with hid | hid
    · rw [Worker.nextJob_toDelete] at hid
      obtain ⟨job, hjob, rfl⟩ := List.mem_map.mp hid
      obtain ⟨r, -, -, -, hmem, -⟩ := mem_listGCReadyJobs.mp hjob
      obtain ⟨i, -, hlook⟩ := mem_jobsOf.mp hmem
      rw [hi.minted.job_id hlook]
      exact ⟨job, hlook⟩
    · exact absurd hid (Worker.nextJob_unmarked _ _ _ id)
  | @deleted clock collected i rest =>
    rcases hid with hid | hid
    · exact hp id (.inl (List.mem_cons_of_mem i hid))
    · exact hp id (.inl (hid ▸ (.head _)))
  | marked next unmarked =>
    rcases hid with hid | hid
    · rw [next (hp _ (.inr rfl))] at hid
      exact hp id (.inl hid)
    · exact absurd hid (unmarked id)

theorem Worker.Effect.kept (h : Effect W w p w' p') (hi : Inv W w.durable) :
    Inv W w'.durable ∧ ∀ id, (∃ job, w.durable.jobs.lookup id = some job) →
      ∃ job, w'.durable.jobs.lookup id = some job := by
  rcases h.durable with hsame | ⟨op, hop, -⟩
  · rw [hsame]
    exact ⟨hi, fun _ h => h⟩
  · rw [hop]
    refine ⟨inv_step hi op, fun id ⟨job, hjob⟩ => ?_⟩
    obtain ⟨job', hjob', -⟩ := carried_apply hi op id job hjob
    exact ⟨job', hjob'⟩

/-- A job past its collection was so before the step, unless the step made it so. -/
theorem past_before {i} (h : PastCollection ⟨w', c.procs.set i p'⟩ id)
    (hcollected : w'.durable.Collected id → c.PastCollection id) (hmarks : p'.Marks id → c.PastCollection id) :
    c.PastCollection id := by
  rcases h with hcol | ⟨q, hq, hmark⟩
  · exact hcollected hcol
  · rcases List.mem_or_eq_of_mem_set hq with hold | rfl
    · exact .inr ⟨q, hold, hmark⟩
    · exact hmarks hmark

theorem Collecting.visible_step (hc : Collecting W c) {i} (proc : c.procs[i]? = some p) (allowed : c.InTime p)
    (heffect : Worker.Effect W c.shared p w' p') (id : JobRunID) (obj : ActiveObject)
    (hobj : w'.active.objects.lookup id = some obj) (hpast : PastCollection ⟨w', c.procs.set i p'⟩ id) :
    ∃ q ∈ c.procs.set i p', id ∈ q.toDelete := by
  have hmem : p ∈ c.procs := List.mem_of_getElem? proc
  -- a step that creates no object and leaves the worker what it has to delete
  have hquiet : w'.active = c.shared.active → c.PastCollection id → (id ∈ p.toDelete → id ∈ p'.toDelete) →
      ∃ q ∈ c.procs.set i p', id ∈ q.toDelete := by
    intro hactive hbefore hkeep
    rw [hactive] at hobj
    exact exists_mem_set proc (hc.visible id obj hobj hbefore) hkeep
  cases heffect with
  | dispatching => exact hquiet rfl (past_before hpast .inl fun h => h.elim) fun h => h
  | @ensured faults now i point' =>
    have hbefore := past_before hpast .inl fun h => h.elim
    refine exists_mem_set proc ?_ fun h => h
    by_cases heq : id = i
    · subst heq
      exact allowed hbefore
    · rw [ActiveStore.createOrGet_lookup, if_neg heq] at hobj
      exact hc.visible id obj hobj hbefore
  | acked =>
    refine hquiet rfl (past_before hpast (fun hcol => ?_) fun h => h.elim) fun h => h
    rcases collected_apply hc.inv _ hcol with hold | ⟨now, heq⟩
    · exact .inl hold
    · cases heq
  | called op op_allowed nothing unmarked =>
    refine hquiet rfl (past_before hpast (fun hcol => ?_) fun h => absurd h (unmarked id)) fun h => ?_
    · rcases collected_apply hc.inv op hcol with hold | ⟨now, heq⟩
      · exact .inl hold
      · subst heq
        cases op_allowed
    · rw [nothing]
      exact h
  | listed =>
    have hbefore := past_before hpast .inl fun h => absurd h (Worker.nextJob_unmarked _ _ _ id)
    exact hquiet rfl hbefore fun h => by cases h
  | @deleted clock collected i rest =>
    rw [ActiveStore.delete_lookup] at hobj
    split_ifs at hobj with heq
    have hbefore := past_before hpast .inl fun h => absurd h.symm heq
    refine exists_mem_set proc (hc.visible id obj hobj hbefore) fun h => ?_
    rcases List.mem_cons.mp h with hhead | hrest
    · exact absurd hhead heq
    · exact hrest
  | @marked clock collected i rest p' next unmarked =>
    refine hquiet rfl (past_before hpast (fun hcol => ?_) fun h => absurd h (unmarked id)) fun h => ?_
    · rcases collected_apply hc.inv _ hcol with hold | ⟨now, heq⟩
      · exact .inl hold
      · cases heq
        exact .inr ⟨_, hmem, rfl⟩
    · rw [next (hc.stored _ hmem i (.inr rfl))]
      exact h

theorem collecting_turn {c' : Workers} (hc : Collecting W c)
    (hturn : GuardedTurn Worker.Begins (Worker.Step W) InTime c c') : Collecting W c' := by
  cases hturn with
  | spawn started =>
    refine ⟨hc.inv, fun q hq id hid => ?_, fun id obj hobj hpast => ?_⟩
    · rcases List.mem_append.mp hq with hold | hnew
      · exact hc.stored q hold id hid
      · obtain rfl := List.mem_singleton.mp hnew
        cases started <;> (rcases hid with hid | hid <;> cases hid)
    · have hbefore : c.PastCollection id := by
        rcases hpast with hcol | ⟨q, hq, hmark⟩
        · exact .inl hcol
        · rcases List.mem_append.mp hq with hold | hnew
          · exact .inr ⟨q, hold, hmark⟩
          · obtain rfl := List.mem_singleton.mp hnew
            cases started <;> cases hmark
      obtain ⟨q, hq, hid⟩ := hc.visible id obj hobj hbefore
      exact ⟨q, List.mem_append_left _ hq, hid⟩
  | @act i p p' s' proc allowed stepped =>
    have heffect := Worker.step_effect stepped
    obtain ⟨hinv, hkept⟩ := heffect.kept hc.inv
    refine ⟨hinv, fun q hq id hid => hkept id ?_, hc.visible_step proc allowed heffect⟩
    rcases List.mem_or_eq_of_mem_set hq with hold | rfl
    · exact hc.stored q hold id hid
    · exact heffect.stored hc.inv (hc.stored p (List.mem_of_getElem? proc)) hid

theorem collecting_reaches (h : GuardedReaches Worker.Begins (Worker.Step W) InTime new c) :
    Collecting W c := by
  induction h with
  | refl =>
    exact ⟨inv_new W, fun p hp => (by cases hp), fun id obj hobj => (by cases hobj)⟩
  | tail _ hturn ih => exact collecting_turn ih hturn

theorem returned_toDelete (h : p.Returned) : p.toDelete = [] := by
  cases p with
  | collect clock collected point =>
    cases point with
    | delete | mark => cases h
    | _ => rfl
  | _ => rfl

/-- If `CreateOrGet` is called in time, then whenever no call is in progress no collected job has an object, and the
next collection finds the object of a terminal job of a terminal run. -/
theorem no_orphan_past_collection (W : Wiring) (c : Workers)
    (hreach : GuardedReaches Worker.Begins (Worker.Step W) Workers.InTime Workers.new c) (hquiet : c.Quiet)
    (id : JobRunID) (obj : ActiveObject) (hobj : c.shared.active.objects.lookup id = some obj) :
    ¬c.shared.durable.Collected id ∧
      ∀ job run, c.shared.durable.getJobRun id = .ok job → c.shared.durable.getRun job.runID = .ok run →
        job.status.isTerminal → run.status.isTerminal → job ∈ c.shared.durable.listGCReadyJobs := by
  have hc := collecting_reaches hreach
  have huncollected : ¬c.shared.durable.Collected id := by
    intro hcol
    obtain ⟨q, hq, hid⟩ := hc.visible id obj hobj (.inl hcol)
    rw [returned_toDelete (hquiet q hq)] at hid
    cases hid
  refine ⟨huncollected, fun job run hjob hrun hterm hrunterm => ?_⟩
  have hfound := getJobRun_eq_ok.mp hjob
  have hstored := getRun_eq_ok.mp hrun
  have hlisted := hc.inv.listing.complete ⟨run, hstored⟩ hfound rfl
  refine mem_listGCReadyJobs.mpr ⟨job.runID, run, hstored, hrunterm, mem_jobsOf.mpr ⟨id, hlisted, hfound⟩, hterm, ?_⟩
  by_contra hne
  exact huncollected ⟨job, hfound, hne⟩

/-- A run with one job, its dispatch, a cancellation and a collection. -/
def lateCreate : List Worker :=
  [.background (.recordDelivery pushDelivery) trivial false,
    .background (.createRun (pushSeed [intentOf "a" [] ""]) 0) trivial false,
    .dispatch .none 1 "ii" .load, .cancel "i" 2 none, .collect (fun _ => 3) 0 .list]

theorem lateCreate_begins : ∀ p ∈ lateCreate, Worker.Begins p := by
  simp only [lateCreate, List.forall_mem_cons]
  exact ⟨.background _ _, .background _ _, .dispatch _ _ _, .cancel _ _, .collect _, fun p hp => by cases hp⟩

theorem guardedReaches_schedule {ps : List Worker} (hps : ∀ p ∈ ps, Worker.Begins p) (schedule : List Nat)
    (hplay : playGuarded InTime (Worker.exec W) schedule ⟨new.shared, ps⟩ = some c) :
    GuardedReaches Worker.Begins (Worker.Step W) InTime new c :=
  (guardedReaches_spawn [] ps hps).trans (guardedReaches_of_playGuarded id schedule hplay)

/-- A job cancelled between `CreateOrGet` and `AckDispatched` is collected. -/
theorem no_orphan_past_collection_cancelled :
    ∃ c job obj, GuardedReaches Worker.Begins (Worker.Step Wiring.unary) Workers.InTime Workers.new c ∧
      c.shared.durable.getJobRun "ii" = .ok job ∧ job.status = .cancelled ∧
      c.shared.active.objects.lookup "ii" = some obj ∧ job ∈ c.shared.durable.listGCReadyJobs := by
  have hreach := guardedReaches_schedule (W := Wiring.unary)
    (fun p hp => lateCreate_begins p (List.mem_of_mem_take hp)) [0, 1, 2, 2, 3, 2]
    (show playGuarded InTime (Worker.exec Wiring.unary) _ ⟨_, lateCreate.take 4⟩ = some _ from rfl)
  exact ⟨_, _, _, hreach, rfl, rfl, rfl,
    (no_orphan_past_collection Wiring.unary _ hreach (by decide) "ii" _ rfl).2 _ _ rfl rfl rfl rfl⟩

/-- A job cancelled and collected before `CreateOrGet` keeps its object. -/
theorem orphan_past_collection : ∃ (c : Workers) (obj : ActiveObject),
      Reaches Worker.Begins (Worker.Step Wiring.unary) Workers.new c ∧ c.Quiet ∧
      c.shared.active.objects.lookup "ii" = some obj ∧ c.shared.durable.Collected "ii" ∧
      c.shared.durable.listGCReadyJobs = [] :=
  ⟨_, _, reaches_schedule lateCreate_begins [0, 1, 2, 3, 4, 4, 4, 2, 2] rfl, by decide, rfl, by decide, rfl⟩

end Forgelet
