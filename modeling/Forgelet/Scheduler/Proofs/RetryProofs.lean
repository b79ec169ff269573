import Forgelet.Scheduler.Proofs.DispatcherProofs
import Forgelet.Store.Proofs.ActiveProofs
import Forgelet.Store.Proofs.HistoryProofs

/-!
# Proofs: `DispatchNext` under failures

`DispatchNext` called again and again, while the creation and the acknowledgement fail in any pattern. `Retrying`
describes every state in between: no claim is left behind, and a job is queued, perhaps with an object that was not
acknowledged, or dispatched to its object.
-/

namespace Forgelet

open DurableStore Relation

/-- A call of `DispatchNext`: which of the calls it makes fail, and the time. -/
structure NextCall where
  faults : DispatchFaults
  now : Time

namespace Stores

/-- One `DispatchNext`. -/
def next (W : Wiring) (w : Stores) (call : NextCall) : Stores := (w.dispatchNext W call.faults call.now).2

/-- Calls of `DispatchNext`, one after the other. -/
def nexts (W : Wiring) (w : Stores) (calls : List NextCall) : Stores := calls.foldl (next W) w

/-- The jobs that have an object in `w'` and had none in `w`. -/
def created (w w' : Stores) : List JobRunID :=
  w'.active.objects.keys.filter fun id => (w.active.objects.lookup id).isNone

/-- The jobs for which the calls create an object, in the order in which they do. -/
def createdIn (W : Wiring) (w : Stores) : List NextCall → List JobRunID
  | [] => []
  | call :: rest => created w (w.next W call) ++ createdIn W (w.next W call) rest

/-- The call ensures the object of the job `id`, and the acknowledgement fails. -/
def AckFails (W : Wiring) (w : Stores) (call : NextCall) (id : JobRunID) : Prop :=
  call.faults.createOrGet = none ∧ call.faults.ackDispatched ≠ none ∧
    ∃ job, (w.durable.claimNextQueuedJob W).1 = .ok job ∧ job.id = id

/-- All jobs are queued and unclaimed, and there is no active object. -/
structure Untouched (W : Wiring) (w : Stores) : Prop where
  reachable : Reachable W w.durable
  queued : ∀ id job, w.durable.getJobRun id = .ok job → job.status = .queued
  unclaimed : ∀ id, w.durable.isClaimed id = false
  objectless : ∀ id, w.active.objects.lookup id = none

/-- Between two calls, every job is queued or has its object. -/
structure Retrying (W : Wiring) (w : Stores) : Prop where
  inv : Inv W w.durable
  unclaimed : ∀ id, w.durable.isClaimed id = false
  named : w.active.Named
  job : ∀ {id job}, w.durable.jobs.lookup id = some job → job.status = .queued ∨
    (job.status = .dispatched ∧ job.activeName = crName id ∧
      w.active.objects.lookup id = some ⟨crName id, job.activeUID⟩)

variable {W : Wiring} {w w' : Stores}

theorem retrying_of_untouched (h : Untouched W w) : Retrying W w where
  inv := inv_reachable h.reachable
  unclaimed := h.unclaimed
  named := ActiveStore.named_of_empty h.objectless
  job hjob := .inl (h.queued _ _ (getJobRun_eq_ok.mpr hjob))

/-- A call while no job has ended: it finds nothing, fails, or dispatches. -/
inductive RetryStep (W : Wiring) (w : Stores) (call : NextCall) : Stores → Prop
  | idle : RetryStep W w call w
  | failed {id job w'} (claimed : (w.durable.claimNextQueuedJob W).1 = .ok job) (isID : job.id = id)
      (durable : w'.durable = (w.durable.claim id).unclaim id) (cause : Unacknowledged w call.faults id w'.active) :
      RetryStep W w call w'
  | dispatched {id job w'} (found : w.durable.jobs.lookup id = some job) (queued : job.status = .queued)
      (durable : w'.durable = (w.durable.claim id).ackJob job id ⟨crName id, (w.active.createOrGet id).1.uid⟩ call.now)
      (active : w'.active = (w.active.createOrGet id).2) : RetryStep W w call w'

theorem Retrying.no_skip (h : Retrying W w) {s₁} (hskips : ReflTransGen (SkipStep W) w.durable s₁) :
    s₁ = w.durable := by
  cases ReflTransGen.cases_head hskips with
  | inl heq => exact heq.symm
  | inr hfirst =>
    obtain ⟨s, hskip, -⟩ := hfirst
    obtain ⟨found, -, -, failed⟩ := hskip
    rw [dependencyState_eq found] at failed
    obtain ⟨-, key, -, -, -, status, hstatus, hends⟩ := dependencyLoop_failed (by simp) failed
    obtain ⟨dep, -, hdep⟩ := Option.bind_eq_some_iff.mp hstatus
    obtain ⟨job, hjob, rfl⟩ := Option.map_eq_some_iff.mp hdep
    rcases h.job hjob with hq | ⟨hd, -⟩
    · rw [hq] at hends
      simp at hends
    · rw [hd] at hends
      simp at hends

theorem Retrying.step (h : Retrying W w) (call : NextCall) : RetryStep W w call (w.next W call) := by
  have hout := w.dispatchNext_outcome h.inv.minted call.faults call.now
  unfold next
  generalize w.dispatchNext W call.faults call.now = out at hout
  cases hout with
  | @idle s₁ w' skips durable active =>
    obtain rfl := h.no_skip skips
    obtain rfl : w' = w := by
      cases w
      cases w'
      cases durable
      cases active
      rfl
    exact .idle
  | released skips claimable durable claimed cause =>
    obtain rfl := h.no_skip skips
    exact .failed (by rw [claimed]) (h.inv.minted.job_id claimable.found) durable cause
  | dispatched skips claimable claimed durable object active =>
    obtain rfl := h.no_skip skips
    subst object
    exact .dispatched claimable.found claimable.queued durable active

theorem isClaimed_claim_unclaim (s : DurableStore) (id i : JobRunID) (h : s.isClaimed i = false) :
    ((s.claim id).unclaim id).isClaimed i = false := by
  rw [isClaimed_unclaim, isClaimed_claim]
  split_ifs
  · rfl
  · exact h

variable {id i : JobRunID} {obj : ActiveObject} {call : NextCall}

/-- The objects after a failure: as before, or with the one that was ensured. -/
theorem Unacknowledged.lookup {faults active} (h : Unacknowledged w faults id active) (i : JobRunID) :
    active.objects.lookup i = w.active.objects.lookup i ∨
      (i = id ∧ faults.createOrGet = none ∧ faults.ackDispatched ≠ none) := by
  obtain ⟨-, rfl⟩ | ⟨hcreated, hfault, rfl⟩ := h
  · exact .inl rfl
  · rw [ActiveStore.createOrGet_lookup]
    split_ifs with heq
    · exact .inr ⟨heq, hcreated, hfault⟩
    · exact .inl rfl

theorem createOrGet_keeps (a : ActiveStore) (id : JobRunID) (h : a.objects.lookup i = some obj) :
    (a.createOrGet id).2.objects.lookup i = some obj := by
  rw [ActiveStore.createOrGet_lookup]
  split_ifs with heq
  · subst heq
    rw [ActiveStore.createOrGet_of_some h]
  · exact h

theorem RetryStep.keeps (h : RetryStep W w call w') (hobj : w.active.objects.lookup i = some obj) :
    w'.active.objects.lookup i = some obj := by
  cases h with
  | idle => exact hobj
  | failed _ _ _ cause =>
    obtain ⟨-, heq⟩ | ⟨-, -, heq⟩ := cause
    · rw [heq]
      exact hobj
    · rw [heq]
      exact createOrGet_keeps _ _ hobj
  | dispatched _ _ _ active =>
    rw [active]
    exact createOrGet_keeps _ _ hobj

theorem Retrying.next (h : Retrying W w) (call : NextCall) : Retrying W (w.next W call) := by
  have hstep := h.step call
  have hkeeps : ∀ {i obj}, w.active.objects.lookup i = some obj →
      (w.next W call).active.objects.lookup i = some obj := fun h => hstep.keeps h
  generalize w.next W call = w' at hstep hkeeps
  have hjobs : w'.durable.jobs = w.durable.jobs → ∀ {id job}, w'.durable.jobs.lookup id = some job →
      job.status = .queued ∨ (job.status = .dispatched ∧ job.activeName = crName id ∧
        w'.active.objects.lookup id = some ⟨crName id, job.activeUID⟩) := by
    intro heq id job hjob
    rw [heq] at hjob
    exact (h.job hjob).imp (fun hq => hq) fun ⟨hd, hname, hobj⟩ => ⟨hd, hname, hkeeps hobj⟩
  cases hstep with
  | idle => exact h
  | failed _ _ durable cause =>
    refine ⟨?_, fun i => ?_, ?_, hjobs (by rw [durable]; rfl)⟩
    · rw [durable]
      exact h.inv.claims _
    · rw [durable]
      exact isClaimed_claim_unclaim _ _ i (h.unclaimed i)
    · obtain ⟨-, heq⟩ | ⟨-, -, heq⟩ := cause
      · rw [heq]
        exact h.named
      · rw [heq]
        exact h.named.createOrGet _
  | @dispatched id job w' found queued durable active =>
    refine ⟨?_, fun i => ?_, ?_, fun {i j} hj => ?_⟩
    · have hclaim : Inv W (w.durable.claim id) := h.inv.claims _
      have hack := inv_step hclaim (.ackDispatched id ⟨crName id, (w.active.createOrGet id).1.uid⟩ call.now)
      rw [StoreOp.apply, ackDispatched_queued (s := w.durable.claim id) found queued] at hack
      rw [durable]
      exact hack
    · rw [durable, ackJob]
      exact isClaimed_claim_unclaim _ _ i (h.unclaimed i)
    · rw [active]
      exact h.named.createOrGet _
    · rw [durable, ackJob_lookup] at hj
      split_ifs at hj with heq
      · cases hj
        refine .inr ⟨rfl, by rw [heq], ?_⟩
        rw [active, ActiveStore.createOrGet_lookup, if_pos heq, Option.some_inj, heq, ← h.named.returned id]
      · exact (h.job hj).imp (fun hq => hq) fun ⟨hd, hname, hobj⟩ => ⟨hd, hname, hkeeps hobj⟩

theorem created_of_objects_eq (h : w'.active.objects = w.active.objects) : created w w' = [] := by
  unfold created
  rw [h]
  exact GoMap.keys_filter_isNone _

theorem created_createOrGet (h : w'.active = (w.active.createOrGet id).2) :
    (created w w').length ≤ 1 ∧ w'.active.created = w.active.created + (created w w').length := by
  cases hobj : w.active.objects.lookup id with
  | some obj =>
    rw [ActiveStore.createOrGet_of_some hobj] at h
    rw [created_of_objects_eq (by rw [h]), h]
    exact ⟨Nat.zero_le 1, rfl⟩
  | none =>
    obtain ⟨uid, -, hobjects, hcount⟩ := ActiveStore.createOrGet_of_none hobj
    have hnot : id ∉ w.active.objects.keys := AList.lookup_eq_none.mp hobj
    have hnew : created w w' = [id] := by
      unfold created
      rw [h, hobjects, AList.keys_insert, List.erase_of_not_mem hnot,
        List.filter_cons_of_pos (by rw [hobj]; rfl), GoMap.keys_filter_isNone]
    rw [hnew, h, hcount]
    exact ⟨le_refl 1, rfl⟩

theorem RetryStep.created (h : RetryStep W w call w') :
    (created w w').length ≤ 1 ∧ w'.active.created = w.active.created + (created w w').length := by
  have hsame : w'.active = w.active → (Stores.created w w').length ≤ 1 ∧
        w'.active.created = w.active.created + (Stores.created w w').length := by
    intro heq
    rw [created_of_objects_eq (by rw [heq]), heq]
    exact ⟨Nat.zero_le 1, rfl⟩
  cases h with
  | idle => exact hsame rfl
  | failed _ _ _ cause =>
    obtain ⟨-, heq⟩ | ⟨-, -, heq⟩ := cause
    · exact hsame heq
    · exact created_createOrGet heq
  | dispatched _ _ _ active => exact created_createOrGet active

theorem mem_created (h : id ∈ created w w') :
    w.active.objects.lookup id = none ∧ ∃ obj, w'.active.objects.lookup id = some obj := by
  unfold created at h
  rw [List.mem_filter, Option.isNone_iff_eq_none] at h
  exact ⟨h.2, Option.isSome_iff_exists.mp (AList.lookup_isSome.mpr h.1)⟩

section

variable (h : Retrying W w) (calls : List NextCall)
include h calls

theorem Retrying.createdIn_nodup :
    (w.createdIn W calls).Nodup ∧ ∀ id ∈ w.createdIn W calls, w.active.objects.lookup id = none := by
  induction calls generalizing w with
  | nil => exact ⟨List.nodup_nil, nofun⟩
  | cons call rest ih =>
    obtain ⟨hnodup, hnone⟩ := ih (h.next call)
    have hstep := h.step call
    rw [createdIn]
    refine ⟨List.nodup_append.mpr ⟨?_, hnodup, ?_⟩, fun id hid => ?_⟩
    · have hlen := hstep.created.1
      match hcreated : created w (w.next W call) with
      | [] => exact List.nodup_nil
      | [id] => exact List.nodup_singleton id
      | _ :: _ :: _ =>
        rw [hcreated] at hlen
        simp at hlen
    · rintro id hhead _ hrest rfl
      obtain ⟨-, obj, hobj⟩ := mem_created hhead
      rw [hnone id hrest] at hobj
      cases hobj
    · rcases List.mem_append.mp hid with hhead | hrest
      · exact (mem_created hhead).1
      · cases hobj : w.active.objects.lookup id with
        | none => rfl
        | some obj =>
          have hkept := hstep.keeps hobj
          rw [hnone id hrest] at hkept
          cases hkept

theorem Retrying.created_count :
    (w.nexts W calls).active.created = w.active.created + (w.createdIn W calls).length := by
  induction calls generalizing w with
  | nil => rfl
  | cons call rest ih =>
    have hrest := ih (h.next call)
    have hstep := (h.step call).created.2
    rw [createdIn, List.length_append, ← Nat.add_assoc, ← hstep]
    exact hrest

theorem Retrying.nexts : Retrying W (w.nexts W calls) := by
  induction calls generalizing w with
  | nil => exact h
  | cons call rest ih => exact ih (h.next call)

end

theorem RetryStep.queued (h : RetryStep W w call w') {j'} (hj' : w'.durable.jobs.lookup i = some j')
    (hq : j'.status = .queued) : w.durable.jobs.lookup i = some j' := by
  cases h with
  | idle => exact hj'
  | failed _ _ durable _ =>
    rw [durable] at hj'
    exact hj'
  | dispatched found queued durable _ =>
    rw [durable, ackJob_lookup] at hj'
    split_ifs at hj' with heq
    · rw [← Option.some.inj hj'] at hq
      cases hq
    · exact hj'

theorem Retrying.queued_before (h : Retrying W w) (calls : List NextCall) {j}
    (hj : (w.nexts W calls).durable.jobs.lookup i = some j) (hq : j.status = .queued) :
    w.durable.jobs.lookup i = some j := by
  induction calls generalizing w with
  | nil => exact hj
  | cons call rest ih => exact (h.step call).queued (ih (h.next call) hj) hq

/-- The object of a queued job was there before, or was not acknowledged. -/
theorem Retrying.object_of_queued (h : Retrying W w) (calls : List NextCall) {j}
    (hj : (w.nexts W calls).durable.jobs.lookup i = some j) (hq : j.status = .queued)
    (hobj : (w.nexts W calls).active.objects.lookup i = some obj) :
    w.active.objects.lookup i = some obj ∨
      ∃ before call after, calls = before ++ call :: after ∧ AckFails W (w.nexts W before) call i := by
  induction calls generalizing w with
  | nil => exact .inl hobj
  | cons call rest ih =>
    rcases ih (h.next call) hj hobj with hearly | ⟨before, call', after, rfl, hfails⟩
    · have hstep := h.step call
      have hj₁ := (h.next call).queued_before rest hj hq
      generalize w.next W call = w' at hstep hearly hj₁
      cases hstep with
      | idle => exact .inl hearly
      | failed claimed isID durable cause =>
        rcases cause.lookup i with hsame | ⟨rfl, hcreated, hfault⟩
        · rw [hsame] at hearly
          exact .inl hearly
        · exact .inr ⟨[], call, rest, rfl, hcreated, hfault, _, claimed, isID⟩
      | @dispatched id job _ found queued durable active =>
        rw [active, ActiveStore.createOrGet_lookup] at hearly
        rw [durable, ackJob_lookup] at hj₁
        split_ifs at hearly hj₁ with heq
        · rw [← Option.some.inj hj₁] at hq
          cases hq
        · exact .inl hearly
    · exact .inr ⟨call :: before, call', after, rfl, hfails⟩

/-- From queued jobs, after any calls of `DispatchNext` that fail in any pattern: no claim is held, every job is
queued or dispatched to its object, no job got a second one, and a queued job has one only if its acknowledgement
failed. -/
theorem nexts_consistent (W : Wiring) (w : Stores) (h : Untouched W w) (calls : List NextCall) :
    (∀ id, (w.nexts W calls).durable.isClaimed id = false) ∧
      (∀ id job, (w.nexts W calls).durable.getJobRun id = .ok job → job.status = .queued ∨
        (job.status = .dispatched ∧ job.activeName = crName id ∧
          (w.nexts W calls).active.objects.lookup id = some ⟨crName id, job.activeUID⟩)) ∧
      ((w.createdIn W calls).Nodup ∧
        (w.nexts W calls).active.created = w.active.created + (w.createdIn W calls).length) ∧
      ∀ id job obj, (w.nexts W calls).durable.getJobRun id = .ok job → job.status = .queued →
        (w.nexts W calls).active.objects.lookup id = some obj →
        ∃ before call after, calls = before ++ call :: after ∧ AckFails W (w.nexts W before) call id := by
  have hstart := retrying_of_untouched h
  have hend := hstart.nexts calls
  refine ⟨hend.unclaimed, fun id job hjob => hend.job (getJobRun_eq_ok.mp hjob),
    ⟨(hstart.createdIn_nodup calls).1, hstart.created_count calls⟩, fun id job obj hjob hq hobj => ?_⟩
  rcases hstart.object_of_queued calls (getJobRun_eq_ok.mp hjob) hq hobj with hbefore | hfails
  · rw [h.objectless id] at hbefore
    cases hbefore
  · exact hfails

/-- A run with two jobs that depend on nothing. -/
def pairStores : Stores where
  durable := afterOps Wiring.unary [.recordDelivery pushDelivery,
    .createRun (pushSeed [intentOf "a" [] "", intentOf "b" [] ""]) 0]
  active := .new

theorem pairStores_untouched : Untouched Wiring.unary pairStores where
  reachable := reachable_afterOps _ _
  queued := by
    intro id job hjob
    have hmem := (GoMap.mem_entries_iff _ ⟨id, job⟩).mpr (getJobRun_eq_ok.mp hjob)
    have hall : ∀ e ∈ pairStores.durable.jobs.entries, e.2.status = .queued := by decide
    exact hall _ hmem
  unclaimed _ := rfl
  objectless _ := rfl

/-- The first job fails twice and is dispatched; the second is not acknowledged. -/
def pairCalls : List NextCall :=
  [⟨⟨some .errNoQueuedJob, none⟩, 1⟩, ⟨⟨none, some .errNoQueuedJob⟩, 2⟩, ⟨.none, 3⟩,
    ⟨⟨none, some .errNoQueuedJob⟩, 4⟩]

/-- Two jobs, and an acknowledgement that fails. -/
theorem nexts_consistent_pair : pairStores.createdIn Wiring.unary pairCalls = ["ii", "iii"] ∧
      (∀ id, (pairStores.nexts Wiring.unary pairCalls).durable.isClaimed id = false) ∧
      ∃ before call after, pairCalls = before ++ call :: after ∧
        AckFails Wiring.unary (pairStores.nexts Wiring.unary before) call "iii" := by
  obtain ⟨hclaims, -, -, hfails⟩ := nexts_consistent Wiring.unary pairStores pairStores_untouched pairCalls
  exact ⟨by decide, hclaims, hfails "iii" _ _ rfl rfl rfl⟩

end Stores

end Forgelet
