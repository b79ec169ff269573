import Forgelet.Server.Checks
import Forgelet.Store.Proofs.HistoryProofs

/-!
# Proofs: what the provider shows of a job

A `reportCheck` sends what it has read, and others may read and send in the meantime. When the calls for a job follow
one another, the accepted reports are in the order of the reads, so that the last of them shows the job as it is once
it was read after its last change, and a completed check stays completed.
-/

namespace Forgelet.Server

open DurableStore Report Interleaving Relation

variable {W : Wiring} {base : String} {b b' : Board} {p p' q : Activity} {id : JobRunID}

variable {job job' : JobRunRecord} {check : Check} {c : Activities}

/-! ## Records over time -/

/-- A record of a job, and a later one. -/
structure Later (job cur : JobRunRecord) : Prop where
  created : cur.asCreated = job.asCreated
  forward : Forward job cur

theorem Later.refl (job : JobRunRecord) : Later job job := ⟨rfl, .refl job⟩

variable {cur rec : JobRunRecord} {id' : JobRunID}

theorem Later.trans {cur'} (h : Later job cur) (h' : Later cur cur') : Later job cur' :=
  ⟨h'.created.trans h.created, h.forward.trans h'.forward⟩

theorem later_apply (hi : Inv W b.durable) (op : StoreOp) (h : b.durable.jobs.lookup id = some job) :
    ∃ cur, (op.apply W b.durable).jobs.lookup id = some cur ∧ Later job cur := by
  obtain ⟨cur, hcur, hwrites⟩ := carried_apply hi op id job h
  exact ⟨cur, hcur, writes_asCreated hwrites, forward_of_writes hwrites⟩

/-! ## The mapping -/

theorem mapJobRun_ok (h : mapJobRun job base = .ok check) :
    check.externalID = job.id ∧ check.startedAt = job.startedAt ∧
      (check.status = .completed ↔ job.status.isTerminal) := by
  unfold mapJobRun at h
  split_ifs at h
  cases hstatus : job.status <;> rw [hstatus] at h <;> cases h <;> simp [JobRunStatus.isTerminal]

theorem mapJobRun_state {check'} (hstatus : job'.status = job.status) (h : mapJobRun job base = .ok check)
    (h' : mapJobRun job' base = .ok check') : check'.status = check.status ∧ check'.conclusion = check.conclusion := by
  unfold mapJobRun at h h'
  split_ifs at h h'
  rw [hstatus] at h'
  cases hs : job.status <;> rw [hs] at h h' <;> cases h <;> cases h' <;> exact ⟨rfl, rfl⟩

theorem mapJobRun_later (h : Later job cur) (hstatus : cur.status = job.status)
    (hcheck : mapJobRun job base = .ok check) : mapJobRun cur base = .ok { check with startedAt := cur.startedAt } := by
  obtain ⟨hid, hrun, hkey, -⟩ := JobRunRecord.of_asCreated_eq h.created
  have hfinal := h.forward.final
  unfold mapJobRun at hcheck ⊢
  rw [hid, hrun, hkey, hstatus]
  split_ifs at hcheck ⊢
  cases hs : job.status <;> rw [hs] at hcheck hfinal <;> cases hcheck <;> try rfl
  all_goals
    obtain ⟨-, hfinished⟩ := hfinal rfl
    simp only [hfinished]

/-! ## What one step does -/

/-- One step of an activity, by what it does. -/
inductive Acts (W : Wiring) (base : String) (b : Board) : Activity → Board → Activity → Prop
  | missing {id accepted} (absent : b.durable.jobs.lookup id = none) :
      Acts W base b (.report id accepted .loadJob) (b.read id) (.report id accepted .returned)
  | read {id accepted job} (found : b.durable.jobs.lookup id = some job) :
      Acts W base b (.report id accepted .loadJob) (b.read id) (.report id accepted (.loadRun job))
  | failed {id accepted job} (fails : ¬Activity.Succeeds base b (.report id accepted (.loadRun job))) :
      Acts W base b (.report id accepted (.loadRun job)) b (.report id accepted .returned)
  | mapped {id accepted job run check} (maps : mapJobRun job base = .ok check) :
      Acts W base b (.report id accepted (.loadRun job)) b (.report id accepted (.send job run check))
  | sent {id accepted job run check} :
      Acts W base b (.report id accepted (.send job run check)) (if accepted then b.accept run check else b)
        (.report id accepted .returned)
  | called {op} : Acts W base b (.store op false) (b.call W op) (.store op true)

theorem acts_of_step (h : ActivityStep W base b p b' p') : Acts W base b p b' p' := by
  unfold ActivityStep at h
  match p with
  | .report id accepted .loadJob =>
    rw [Activity.exec, Option.some_inj, Prod.mk.injEq] at h
    obtain ⟨rfl, rfl⟩ := h
    unfold loadedJob getJobRun
    cases hjob : b.durable.jobs.lookup id with
    | none => exact .missing hjob
    | some job => exact .read hjob
  | .report id accepted (.loadRun job) =>
    rw [Activity.exec, Option.some_inj, Prod.mk.injEq] at h
    obtain ⟨rfl, rfl⟩ := h
    unfold loadedRun
    cases hrun : b.durable.getRun job.runID with
    | error err => exact .failed fun hok => by rw [Activity.Succeeds, hrun] at hok; cases hok.1
    | ok run =>
      cases hcheck : mapJobRun job base with
      | error err => exact .failed fun hok => by rw [Activity.Succeeds, hcheck] at hok; cases hok.2
      | ok check => exact .mapped hcheck
  | .report id accepted (.send job run check) =>
    rw [Activity.exec, Option.some_inj, Prod.mk.injEq] at h
    obtain ⟨rfl, rfl⟩ := h
    exact .sent
  | .report _ _ .returned => cases h
  | .store op false =>
    rw [Activity.exec, Option.some_inj, Prod.mk.injEq] at h
    obtain ⟨rfl, rfl⟩ := h
    exact .called
  | .store _ true => cases h

theorem holds_loadRun (id id' : JobRunID) (accepted : Bool) (job : JobRunRecord) :
    (Activity.report id accepted (.loadRun job)).holds id' = if id = id' then some job else none := rfl

theorem holds_send (id id' : JobRunID) (accepted : Bool) (job : JobRunRecord) (run : RunRecord) (check : Check) :
    (Activity.report id accepted (.send job run check)).holds id' = if id = id' then some job else none := rfl

theorem not_finished (h : (p.holds id).isSome) : ¬p.finished := by
  match p with
  | .report _ _ .loadJob => cases h
  | .report _ _ (.loadRun _) => nofun
  | .report _ _ (.send _ _ _) => nofun
  | .report _ _ .returned => cases h
  | .store _ _ => cases h

/-! ## What the calls hold -/

/-- The reports show jobs as they are or were; a completed check stays. -/
structure BoardOk (W : Wiring) (base : String) (b : Board) : Prop where
  inv : Inv W b.durable
  logged : ∀ e ∈ b.accepted, ∃ job cur, mapJobRun job base = .ok e.2 ∧ b.durable.jobs.lookup job.id = some cur ∧
    Later job cur
  ordered : b.accepted.Pairwise fun e e' => e'.2.externalID = e.2.externalID → e.2.status = .completed →
    e'.2.status = .completed ∧ e'.2.conclusion = e.2.conclusion

/-- A record that is not reported yet shows the completed check of its job. -/
structure Holding (base : String) (b : Board) (id : JobRunID) (job : JobRunRecord) : Prop where
  stored : ∃ cur, b.durable.jobs.lookup id = some cur ∧ Later job cur
  after : ∀ e ∈ b.accepted, e.2.externalID = id → e.2.status = .completed → ∀ check, mapJobRun job base = .ok check →
    check.status = .completed ∧ check.conclusion = e.2.conclusion

/-- A `reportCheck` that holds a record will have its report accepted. -/
def Activity.Fair (base : String) : Activity → Prop
  | .report _ accepted (.loadRun _) => accepted = true
  | .report _ accepted (.send job _ check) => accepted = true ∧ mapJobRun job base = .ok check
  | _ => True

/-- What is true of an activity in flight. -/
structure ActivityOk (base : String) (b : Board) (p : Activity) : Prop where
  fair : p.Fair base
  held : ∀ id job, p.holds id = some job → Holding base b id job

/-- No job is reported by both. -/
def Apart (p q : Activity) : Prop := ∀ id, p.holds id = none ∨ q.holds id = none

theorem Holding.id_eq (h : Holding base b id job) (hb : BoardOk W base b) : job.id = id := by
  obtain ⟨cur, hcur, hlater⟩ := h.stored
  obtain ⟨hid, -⟩ := JobRunRecord.of_asCreated_eq hlater.created
  rw [← hid, hb.inv.minted.job_id hcur]

theorem BoardOk.terminal (hb : BoardOk W base b) {e} (he : e ∈ b.accepted) (hdone : e.2.status = .completed)
    (hcur : b.durable.jobs.lookup e.2.externalID = some cur) (hcheck : mapJobRun cur base = .ok check) :
    check.status = .completed ∧ check.conclusion = e.2.conclusion := by
  obtain ⟨job, cur', hjob, hcur', hlater⟩ := hb.logged e he
  obtain ⟨hid, -, hterminal⟩ := mapJobRun_ok hjob
  rw [hid] at hcur
  obtain rfl := Option.mem_unique hcur' hcur
  obtain ⟨hstatus, -⟩ := hlater.forward.final (hterminal.mp hdone)
  obtain ⟨hs, hc⟩ := mapJobRun_state hstatus hjob hcheck
  exact ⟨hs.trans hdone, hc⟩

theorem BoardOk.call (hb : BoardOk W base b) (op : StoreOp) : BoardOk W base (b.call W op) where
  inv := inv_step hb.inv op
  logged e he := by
    obtain ⟨job, cur, hjob, hcur, hlater⟩ := hb.logged e he
    obtain ⟨cur', hcur', hlater'⟩ := later_apply hb.inv op hcur
    exact ⟨job, cur', hjob, hcur', hlater.trans hlater'⟩
  ordered := hb.ordered

theorem BoardOk.accept (hb : BoardOk W base b) (run : RunRecord) (h : Holding base b id job)
    (hcheck : mapJobRun job base = .ok check) : BoardOk W base (b.accept run check) where
  inv := hb.inv
  logged e he := by
    rcases List.mem_append.mp he with hold | hnew
    · exact hb.logged e hold
    · rw [List.mem_singleton.mp hnew]
      obtain ⟨cur, hcur, hlater⟩ := h.stored
      exact ⟨job, cur, hcheck, by rw [h.id_eq hb]; exact hcur, hlater⟩
  ordered := by
    refine List.pairwise_append.mpr ⟨hb.ordered, List.pairwise_singleton _ _, fun e he e' he' hid hdone => ?_⟩
    rw [List.mem_singleton.mp he'] at hid ⊢
    rw [(mapJobRun_ok hcheck).1, h.id_eq hb] at hid
    exact h.after e he hid.symm hdone check hcheck

theorem Holding.call (h : Holding base b id job) (hb : BoardOk W base b) (op : StoreOp) :
    Holding base (b.call W op) id job where
  stored := by
    obtain ⟨cur, hcur, hlater⟩ := h.stored
    obtain ⟨cur', hcur', hlater'⟩ := later_apply hb.inv op hcur
    exact ⟨cur', hcur', hlater.trans hlater'⟩
  after := h.after

theorem Holding.accept (h : Holding base b id job) (run : RunRecord) (hne : check.externalID ≠ id) :
    Holding base (b.accept run check) id job where
  stored := h.stored
  after e he hid := by
    rcases List.mem_append.mp he with hold | hnew
    · exact h.after e hold hid
    · rw [List.mem_singleton.mp hnew] at hid
      exact absurd hid hne

theorem Holding.read (h : Holding base b id job) (id' : JobRunID) : Holding base (b.read id') id job :=
  ⟨h.stored, h.after⟩

theorem ActivityOk.idle (hfair : p.Fair base) (h : ∀ id, p.holds id = none) : ActivityOk base b p :=
  ⟨hfair, fun id job hjob => by rw [h id] at hjob; cases hjob⟩

theorem apart_idle (h : ∀ id, p.holds id = none) : Apart p q ∧ Apart q p :=
  ⟨fun id => .inl (h id), fun id => .inr (h id)⟩

/-- The step succeeds while the other activity is elsewhere. -/
def Guard (base : String) (b : Board) (p q : Activity) : Prop := p.Succeeds base b ∧ p.Alone q

theorem BoardOk.step (hb : BoardOk W base b) (hp : ActivityOk base b p) (hstep : Acts W base b p b' p') :
    BoardOk W base b' := by
  cases hstep with
  | missing | read => exact ⟨hb.inv, hb.logged, hb.ordered⟩
  | failed | mapped => exact hb
  | sent =>
    obtain ⟨rfl, hcheck⟩ := hp.fair
    exact hb.accept _ (hp.held _ _ ((holds_send ..).trans (if_pos rfl))) hcheck
  | called => exact hb.call _

theorem ActivityOk.step (hb : BoardOk W base b) (hp : ActivityOk base b p) (hok : p.Succeeds base b)
    (hstep : Acts W base b p b' p') : ActivityOk base b' p' := by
  cases hstep with
  | missing | failed | sent | called => exact .idle trivial fun _ => rfl
  | read found =>
    refine ⟨hok, fun id' job' hholds => ?_⟩
    rw [holds_loadRun] at hholds
    split_ifs at hholds with heq
    subst heq
    cases hholds
    refine ⟨⟨_, found, .refl _⟩, fun e he hid hdone check hcheck => ?_⟩
    exact hb.terminal he hdone (by rw [hid]; exact found) hcheck
  | mapped maps => exact ⟨⟨hp.fair, maps⟩, hp.held⟩

theorem apart_step (halone : p.Alone q) (hpq : Apart p q) (hstep : Acts W base b p b' p') :
    Apart p' q ∧ Apart q p' := by
  cases hstep with
  | missing | failed | sent | called => exact apart_idle fun _ => rfl
  | @read id accepted job found =>
    have hapart : Apart (.report id accepted (.loadRun job)) q := by
      intro id'
      rw [holds_loadRun]
      split_ifs with heq
      · subst heq
        exact .inr halone
      · exact .inl rfl
    exact ⟨hapart, fun id' => (hapart id').symm⟩
  | mapped maps => exact ⟨hpq, fun id' => (hpq id').symm⟩

theorem ActivityOk.keep (hb : BoardOk W base b) (hp : ActivityOk base b p) (hq : ActivityOk base b q) (hpq : Apart p q)
    (hstep : Acts W base b p b' p') : ActivityOk base b' q := by
  refine ⟨hq.fair, fun id job hholds => ?_⟩
  have hheld := hq.held id job hholds
  cases hstep with
  | missing | read => exact hheld.read _
  | failed | mapped => exact hheld
  | @sent id' _ job' run check =>
    obtain ⟨rfl, hcheck⟩ := hp.fair
    have hmine : (Activity.report id' true (.send job' run check)).holds id' = some job' :=
      (holds_send ..).trans (if_pos rfl)
    refine hheld.accept run fun heq => ?_
    rw [(mapJobRun_ok hcheck).1, (hp.held id' job' hmine).id_eq hb] at heq
    subst heq
    rcases hpq id' with hnone | hnone
    · rw [hmine] at hnone
      cases hnone
    · rw [hnone] at hholds
      cases hholds
  | called => exact hheld.call hb _

theorem Activity.Starts.fair (h : p.Starts) : p.Fair base := by
  cases h <;> trivial

theorem Activity.Starts.holds (h : p.Starts) (id : JobRunID) : p.holds id = none := by
  cases h <;> rfl

theorem checks_proof : GuardedProof Activity.Starts (ActivityStep W base) (Guard base) (BoardOk W base)
    (ActivityOk base) (fun _ => Apart) where
  spawn _ hstart := .idle hstart.fair hstart.holds
  spawn_pair _ hstart _ := apart_idle hstart.holds
  shared hb hp _ hstep := hb.step hp (acts_of_step hstep)
  act hb hp hguard hstep := hp.step hb hguard.1 (acts_of_step hstep)
  act_pair _ _ _ hguard hpq _ hstep := apart_step hguard.2 hpq (acts_of_step hstep)
  keep hb hp hq _ hpq _ hstep := hp.keep hb hq hpq (acts_of_step hstep)
  keep_pair _ _ _ _ _ _ hqr _ := hqr

/-! ## Reports that are up to date -/

/-- A record shows a job as it is, except that the job may have started again. -/
structure Shown (b : Board) (id : JobRunID) (rec job : JobRunRecord) : Prop where
  later : Later rec job
  status : job.status = rec.status
  start : id ∉ b.restarted → job.startedAt = rec.startedAt

/-- The last accepted report shows the job; a queued one may have none. -/
def Reported (base : String) (b : Board) (id : JobRunID) (job : JobRunRecord) : Prop :=
  (b.last id = none ∧ job.status = .queued) ∨
    ∃ rec check, b.last id = some check ∧ mapJobRun rec base = .ok check ∧ Shown b id rec job

/-- A job read since its change is shown by the call that holds it, or the last report. -/
structure UpToDate (base : String) (c : Activities) : Prop where
  held : ∀ {p id rec job}, p ∈ c.procs → p.holds id = some rec → c.shared.durable.jobs.lookup id = some job →
    id ∉ c.shared.changed → Shown c.shared id rec job
  reported : ∀ {id job}, c.shared.durable.jobs.lookup id = some job → id ∉ c.shared.changed →
    (∃ p ∈ c.procs, (p.holds id).isSome) ∨ Reported base c.shared id job

theorem Board.last_accept (b : Board) (run : RunRecord) (check : Check) (id : JobRunID) :
    (b.accept run check).last id = if check.externalID = id then some check else b.last id := by
  unfold last accept
  rw [List.map_append, List.filter_append, List.map_singleton]
  split_ifs with heq
  · simp [heq]
  · simp [heq]

theorem BoardOk.last_absent (hb : BoardOk W base b) (habsent : b.durable.jobs.lookup id = none) : b.last id = none := by
  unfold Board.last
  rw [List.getLast?_eq_none_iff, List.filter_eq_nil_iff]
  intro check hcheck hid
  obtain ⟨e, he, rfl⟩ := List.mem_map.mp hcheck
  obtain ⟨job, cur, hjob, hcur, -⟩ := hb.logged e he
  rw [← (mapJobRun_ok hjob).1, of_decide_eq_true hid, habsent] at hcur
  cases hcur

theorem not_mem_movedJobs {α : Type} [DecidableEq α] {f : JobRunRecord → α} {s s'} (hjob : s.jobs.lookup id = some job)
    (hjob' : s'.jobs.lookup id = some job') (h : id ∉ Board.movedJobs f s s') : f job' = f job := by
  unfold Board.movedJobs at h
  rw [List.mem_filter, not_and] at h
  have hkey : id ∈ s.jobs.keys := AList.lookup_isSome.mp (by rw [hjob]; rfl)
  have hsame := h hkey
  rw [hjob, hjob'] at hsame
  simpa using hsame

theorem Shown.read (h : Shown b id rec job) (hne : id ≠ id') : Shown (b.read id') id rec job :=
  ⟨h.later, h.status, fun hstart => h.start fun hmem => hstart (List.mem_filter.mpr ⟨hmem, decide_eq_true hne⟩)⟩

theorem Shown.call (h : Shown b id rec job) {op} (hlater : Later job job') (hjob : b.durable.jobs.lookup id = some job)
    (hjob' : (op.apply W b.durable).jobs.lookup id = some job') (hchanged : id ∉ (b.call W op).changed) :
    Shown (b.call W op) id rec job' := by
  have hmoved : id ∉ Board.movedJobs (·.status) b.durable (op.apply W b.durable) := fun hmem =>
    hchanged (List.mem_append_right _ hmem)
  refine ⟨h.later.trans hlater, (not_mem_movedJobs hjob hjob' hmoved).trans h.status, fun hstart => ?_⟩
  have hstart' : id ∉ Board.movedJobs (·.startedAt) b.durable (op.apply W b.durable) := fun hmem =>
    hstart (List.mem_append_right _ hmem)
  exact (not_mem_movedJobs hjob hjob' hstart').trans (h.start fun hmem => hstart (List.mem_append_left _ hmem))

theorem Reported.read (h : Reported base b id job) (hne : id ≠ id') : Reported base (b.read id') id job := by
  rcases h with hnone | ⟨rec, check, hlast, hcheck, hshown⟩
  · exact .inl hnone
  · exact .inr ⟨rec, check, hlast, hcheck, hshown.read hne⟩

theorem not_mem_read_changed (hne : id ≠ id') (h : id ∉ (b.read id').changed) : id ∉ b.changed :=
  fun hmem => h (List.mem_filter.mpr ⟨hmem, decide_eq_true hne⟩)

section Turns

variable {procs : List Activity} {i : Nat}
  (hholds : Holds (BoardOk W base) (ActivityOk base) (fun _ => Apart) ⟨b, procs⟩)
  (hup : UpToDate base ⟨b, procs⟩) (hproc : procs[i]? = some p)

include hup hproc

theorem UpToDate.same (hsame : ∀ id, p'.holds id = p.holds id) : UpToDate base ⟨b, procs.set i p'⟩ where
  held hq hrec hjob hchanged := by
    rcases List.mem_or_eq_of_mem_set hq with hold | rfl
    · exact hup.held hold hrec hjob hchanged
    · rw [hsame] at hrec
      exact hup.held (List.mem_of_getElem? hproc) hrec hjob hchanged
  reported hjob hchanged := by
    rcases hup.reported hjob hchanged with hholder | hreported
    · exact .inl (exists_mem_set hproc hholder fun h => by rw [hsame]; exact h)
    · exact .inr hreported

theorem UpToDate.read (hidle : ∀ id, p.holds id = none) (halone : ∀ q ∈ procs, q.holds id = none)
    (hnew : ∀ id' rec, p'.holds id' = some rec → id' = id ∧ b.durable.jobs.lookup id = some rec)
    (hfound : ∀ job, b.durable.jobs.lookup id = some job → (p'.holds id).isSome) :
    UpToDate base ⟨b.read id, procs.set i p'⟩ where
  held {q id' rec job} hq hrec hjob hchanged := by
    rcases List.mem_or_eq_of_mem_set hq with hold | rfl
    · have hne : id' ≠ id := by
        rintro rfl
        rw [halone q hold] at hrec
        cases hrec
      exact (hup.held hold hrec hjob (not_mem_read_changed hne hchanged)).read hne
    · obtain ⟨rfl, hcur⟩ := hnew id' rec hrec
      have hjob' : b.durable.jobs.lookup id' = some job := hjob
      obtain rfl := Option.mem_unique hcur hjob'
      exact ⟨.refl rec, rfl, fun _ => rfl⟩
  reported {id' job} hjob hchanged := by
    by_cases heq : id' = id
    · subst heq
      obtain ⟨hlt, -⟩ := List.getElem?_eq_some_iff.mp hproc
      exact .inl ⟨p', List.mem_set hlt p', hfound job hjob⟩
    · rcases hup.reported hjob (not_mem_read_changed heq hchanged) with hholder | hreported
      · exact .inl (exists_mem_set hproc hholder fun h => by rw [hidle] at h; cases h)
      · exact .inr (hreported.read heq)

include hholds

theorem UpToDate.accept {run} (hrec : p.holds id = some rec) (honly : ∀ id', id' ≠ id → p.holds id' = none)
    (hcheck : mapJobRun rec base = .ok check) (hidle : ∀ id, p'.holds id = none) :
    UpToDate base ⟨b.accept run check, procs.set i p'⟩ where
  held hq hrec' hjob hchanged := by
    rcases List.mem_or_eq_of_mem_set hq with hold | rfl
    · obtain ⟨hlater, hstatus, hstart⟩ := hup.held hold hrec' hjob hchanged
      exact ⟨hlater, hstatus, hstart⟩
    · rw [hidle] at hrec'
      cases hrec'
  reported {id' job} hjob hchanged := by
    have hid : check.externalID = id := by
      rw [(mapJobRun_ok hcheck).1]
      exact ((hholds.proc hproc).held id rec hrec).id_eq hholds.shared
    have hlast := b.last_accept run check id'
    by_cases heq : id' = id
    · subst heq
      rw [if_pos hid] at hlast
      obtain ⟨hlater, hstatus, hstart⟩ := hup.held (List.mem_of_getElem? hproc) hrec hjob hchanged
      exact .inr (.inr ⟨rec, check, hlast, hcheck, hlater, hstatus, hstart⟩)
    · rw [hid, if_neg (Ne.symm heq)] at hlast
      rcases hup.reported hjob hchanged with hholder | hnone | ⟨rec', check', hlast', hcheck', hlater, hstatus, hstart⟩
      · exact .inl (exists_mem_set hproc hholder fun h => by rw [honly id' heq] at h; cases h)
      · exact .inr (.inl ⟨hlast.trans hnone.1, hnone.2⟩)
      · exact .inr (.inr ⟨rec', check', hlast.trans hlast', hcheck', hlater, hstatus, hstart⟩)

theorem UpToDate.call (op : StoreOp) (hidle : ∀ id, p.holds id = none) (hidle' : ∀ id, p'.holds id = none) :
    UpToDate base ⟨b.call W op, procs.set i p'⟩ where
  held {q id rec job'} hq hrec hjob' hchanged := by
    rcases List.mem_or_eq_of_mem_set hq with hold | rfl
    · obtain ⟨j, hj⟩ := List.mem_iff_getElem?.mp hold
      obtain ⟨job, hjob, -⟩ := ((hholds.proc hj).held id rec hrec).stored
      obtain ⟨job'', hjob'', hlater⟩ := later_apply hholds.shared.inv op hjob
      obtain rfl := Option.mem_unique hjob'' hjob'
      have hshown := hup.held hold hrec hjob fun hmem => hchanged (List.mem_append_left _ hmem)
      exact hshown.call hlater hjob hjob' hchanged
    · rw [hidle'] at hrec
      cases hrec
  reported {id job'} hjob' hchanged := by
    have hbefore : id ∉ b.changed := fun hmem => hchanged (List.mem_append_left _ hmem)
    cases hjob : b.durable.jobs.lookup id with
    | none =>
      -- the job is new: it is queued, and was not reported yet
      have hqueued := new_asCreated hholds.shared.inv op hjob hjob'
      exact .inr (.inl ⟨hholds.shared.last_absent hjob, by rw [← hqueued]; rfl⟩)
    | some job =>
      obtain ⟨job'', hjob'', hlater⟩ := later_apply hholds.shared.inv op hjob
      obtain rfl := Option.mem_unique hjob'' hjob'
      rcases hup.reported hjob hbefore with hholder | ⟨hnone, hqueued⟩ | ⟨rec, check, hlast, hcheck, hshown⟩
      · exact .inl (exists_mem_set hproc hholder fun h => by rw [hidle] at h; cases h)
      · refine .inr (.inl ⟨hnone, ?_⟩)
        have hmoved : id ∉ Board.movedJobs (·.status) b.durable (op.apply W b.durable) := fun hmem =>
          hchanged (List.mem_append_right _ hmem)
        exact (not_mem_movedJobs hjob hjob' hmoved).trans hqueued
      · exact .inr (.inr ⟨rec, check, hlast, hcheck, hshown.call hlater hjob hjob' hchanged⟩)

end Turns

theorem UpToDate.turn {c' : Activities} (hholds : Holds (BoardOk W base) (ActivityOk base) (fun _ => Apart) c)
    (hup : UpToDate base c) (hturn : GuardedTurn Activity.Starts (ActivityStep W base) (Serial base) c c') :
    UpToDate base c' := by
  cases hturn with
  | spawn started =>
    refine ⟨fun hq hrec => ?_, fun hjob hchanged => ?_⟩
    · rcases List.mem_append.mp hq with hold | hnew
      · exact hup.held hold hrec
      · rw [List.mem_singleton.mp hnew, started.holds] at hrec
        cases hrec
    · rcases hup.reported hjob hchanged with ⟨q, hq, hholder⟩ | hreported
      · exact .inl ⟨q, List.mem_append_left _ hq, hholder⟩
      · exact .inr hreported
  | @act i p p' s' proc allowed stepped =>
    cases acts_of_step stepped with
    | @missing id accepted absent =>
      refine hup.read proc (fun _ => rfl) (fun q hq => allowed.2 q hq) (fun id' rec hrec => by cases hrec)
        fun job hjob => ?_
      rw [absent] at hjob
      cases hjob
    | @read id accepted job found =>
      refine hup.read proc (fun _ => rfl) (fun q hq => allowed.2 q hq) (fun id' rec hrec => ?_) fun job' hjob' => ?_
      · rw [holds_loadRun] at hrec
        split_ifs at hrec with heq
        cases hrec
        exact ⟨heq.symm, found⟩
      · rw [holds_loadRun, if_pos rfl]
        rfl
    | failed fails => exact absurd allowed.1 fails
    | mapped maps => exact hup.same proc fun _ => rfl
    | @sent id accepted job run check =>
      obtain ⟨rfl, hcheck⟩ := (hholds.proc proc).fair
      exact hup.accept hholds proc ((holds_send ..).trans (if_pos rfl))
        (fun id' hne => (holds_send ..).trans (if_neg (Ne.symm hne))) hcheck fun _ => rfl
    | @called op => exact hup.call hholds proc op (fun _ => rfl) fun _ => rfl

theorem boardOk_new : BoardOk W base .new where
  inv := inv_new W
  logged e he := by cases he
  ordered := .nil

theorem upToDate_reaches (h : GuardedReaches Activity.Starts (ActivityStep W base) (Serial base) Activities.new c) :
    Holds (BoardOk W base) (ActivityOk base) (fun _ => Apart) c ∧ UpToDate base c := by
  induction h with
  | refl => exact ⟨holds_idle boardOk_new, fun hq => (List.not_mem_nil hq).elim, fun hjob => by cases hjob⟩
  | tail _ hturn ih => exact ⟨checks_proof.turn (fun hok hq => ⟨hok.1, hok.2 _ hq⟩) ih.1 hturn, ih.2.turn ih.1 hturn⟩

/-- When the calls of `reportCheck` for a job follow one another and none fails, the last accepted report shows its
status once one has read it since the last change, and likewise its start time, and completed checks stay as they are.
-/
theorem checks_current (W : Wiring) (base : String) {c : Activities}
    (hreach : GuardedReaches Activity.Starts (ActivityStep W base) (Serial base) Activities.new c) :
    ((∀ p ∈ c.procs, p.finished) → ∀ id job, c.shared.durable.jobs.lookup id = some job → id ∉ c.shared.changed →
      (c.shared.last id = none → job.status = .queued) ∧ ∀ check, c.shared.last id = some check →
        mapJobRun job base = .ok { check with startedAt := job.startedAt } ∧
        (id ∉ c.shared.restarted → mapJobRun job base = .ok check)) ∧
    c.shared.accepted.Pairwise fun e e' => e'.2.externalID = e.2.externalID → e.2.status = .completed →
      e'.2.status = .completed ∧ e'.2.conclusion = e.2.conclusion := by
  obtain ⟨hholds, hup⟩ := upToDate_reaches hreach
  refine ⟨fun hdone id job hjob hchanged => ?_, hholds.shared.ordered⟩
  rcases hup.reported hjob hchanged with ⟨p, hp, hholder⟩ | ⟨hnone, hqueued⟩ | ⟨rec, check, hlast, hcheck, hshown⟩
  · exact absurd (hdone p hp) (not_finished hholder)
  · refine ⟨fun _ => hqueued, fun check hcheck => ?_⟩
    rw [hnone] at hcheck
    cases hcheck
  · refine ⟨fun hnone => ?_, fun check' hcheck' => ?_⟩
    · rw [hnone] at hlast
      cases hlast
    · obtain rfl := Option.mem_unique hlast hcheck'
      have hmap := mapJobRun_later hshown.later hshown.status hcheck
      refine ⟨hmap, fun hstart => ?_⟩
      rw [hmap, hshown.start hstart, ← (mapJobRun_ok hcheck).2.1]

/-! ## Two reports of one job -/

/-- A job is dispatched, a `reportCheck` is called, it succeeds, and there is a second one. -/
def twoReports : List Activity :=
  [.store (.recordDelivery pushDelivery) false, .store (.createRun (pushSeed [intentOf "a" [] ""]) 0) false,
    .store (.ackDispatched "ii" ⟨"jobrun-ii", "u"⟩ 1) false, .report "ii" true .loadJob,
    .store (.applyObserved "ii" .succeeded 2) false, .report "ii" true .loadJob]

theorem twoReports_starts (p : Activity) (hp : p ∈ twoReports) : p.Starts := by
  simp only [twoReports, List.mem_cons, List.not_mem_nil, or_false] at hp
  rcases hp with rfl | rfl | rfl | rfl | rfl | rfl
  all_goals constructor

/-- A job that ends while its reports come one after the other. -/
theorem checks_current_serial :
    ∃ c job check, GuardedReaches Activity.Starts (ActivityStep Wiring.unary "https://ci") (Serial "https://ci")
        Activities.new c ∧ c.shared.durable.jobs.lookup "ii" = some job ∧ c.shared.last "ii" = some check ∧
      mapJobRun job "https://ci" = .ok { check with startedAt := job.startedAt } ∧ check.status = .completed := by
  have hreach : GuardedReaches Activity.Starts (ActivityStep Wiring.unary "https://ci") (Serial "https://ci")
      Activities.new _ :=
    (guardedReaches_spawn [] twoReports twoReports_starts).trans
      (guardedReaches_of_playGuarded id [0, 1, 2, 3, 3, 3, 4, 5, 5, 5] rfl)
  have hcurrent :=
    (checks_current Wiring.unary "https://ci" hreach).1 (by decide +kernel) "ii" _ rfl (by decide +kernel)
  exact ⟨_, _, _, hreach, rfl, rfl, (hcurrent.2 _ rfl).1, rfl⟩

/-- The first `reportCheck` sends its report after the second one, and the check is in progress again. -/
theorem checks_overwritten :
    ∃ c job check, Reaches Activity.Starts (ActivityStep Wiring.unary "https://ci") Activities.new c ∧
      (∀ p ∈ c.procs, p.finished) ∧ c.shared.changed = [] ∧
      c.shared.durable.jobs.lookup "ii" = some job ∧ job.status = .succeeded ∧
      c.shared.last "ii" = some check ∧ check.status = .inProgress ∧
      c.shared.accepted.map (·.2.status) = [.completed, .inProgress] := by
  exact ⟨_, _, _, (reaches_spawn twoReports twoReports_starts).trans (reaches_of_play id [0, 1, 2, 3, 3, 4, 5, 5, 5, 3]
    rfl), by decide +kernel, rfl, rfl, rfl, rfl, rfl, rfl⟩

end Forgelet.Server
