import Forgelet.Scheduler.Ingestor
import Forgelet.Store.Proofs.ReachableProofs

/-!
# Proofs: concurrent `Ingest` calls for one delivery

Any number of calls can be past `RecordDelivery` at once, each with jobs of its own; `CreateRun` binds the delivery to
one run and hands that run to all others. A call that has returned knows that the delivery is bound to its run.
-/

namespace Forgelet

open DurableStore Interleaving
open IngestCall (compiled create finish invalid record)

variable {W : Wiring} {key : DeliveryKey} {s s' : DurableStore} {call call' : IngestCall}

/-- The delivery is bound to the run. -/
def BoundTo (s : DurableStore) (key : DeliveryKey) (r : RunID) : Prop :=
  ∃ rec, s.deliveries.lookup key = some rec ∧ rec.runID = some r

variable {r : RunID}

theorem BoundTo.unique {r'} (h : BoundTo s key r) (h' : BoundTo s key r') : r = r' := by
  obtain ⟨rec, hrec, hr⟩ := h
  obtain ⟨rec', hrec', hr'⟩ := h'
  obtain rfl := Option.mem_unique hrec hrec'
  exact Option.mem_unique hr hr'

theorem boundTo_of_run (hi : Inv W s) {run} (hr : s.runs.lookup r = some run) (hk : run.delivery = key) :
    BoundTo s key r := by
  obtain ⟨rec, hrec, hrun⟩ := hi.binding.run_bound hr
  exact ⟨rec, hk ▸ hrec, hrun⟩

theorem run_of_boundTo (hi : Inv W s) (h : BoundTo s key r) :
    ∃ run, s.runs.lookup r = some run ∧ run.delivery = key := by
  obtain ⟨rec, hrec, hr⟩ := h
  exact hi.binding.bound hrec hr

theorem recordDelivery_spec (W : Wiring) (s : DurableStore) (d : Delivery) :
    ∃ record fresh, s.recordDelivery W d = (.ok (record, fresh), (s.recordDelivery W d).2) ∧
      (s.recordDelivery W d).2.deliveries.lookup d.key = some record ∧ (s.deliveries.lookup d.key = some record ∨
        s.deliveries.lookup d.key = none ∧ record.payload = d.payload) := by
  unfold recordDelivery
  cases hrec : s.deliveries.lookup d.key with
  | some record => exact ⟨record, false, rfl, hrec, .inl rfl⟩
  | none => exact ⟨_, true, rfl, AList.lookup_insert _, .inr ⟨rfl, rfl⟩⟩

/-- No run is created, or `CreateRun` fails and leaves jobs, or creates the run. -/
inductive IngestOutcome (W : Wiring) (compile : Event → Payload → Except Err (List JobIntent))
    (s : DurableStore) (d : Delivery) (now : Time) : Outcome (RunID × Bool) → Prop
  | quiet {result} (nothing : ∀ r, result ≠ .ok (r, true)) :
      IngestOutcome W compile s d now (result, (s.recordDelivery W d).2)
  | orphaned {err} (l : List JobIntent) :
      IngestOutcome W compile s d now (.error err, drafted W (s.recordDelivery W d).2 l now)
  | created {record intents}
      (stored : (s.recordDelivery W d).2.deliveries.lookup d.key = some record)
      (recorded : s.deliveries.lookup d.key = some record ∨
        s.deliveries.lookup d.key = none ∧ record.payload = d.payload)
      (unbound : record.runID = none) (compiled : compile d.event record.payload = .ok intents)
      (nonempty : intents ≠ []) (distinct : (intents.map (·.jobKey)).Nodup) :
      IngestOutcome W compile s d now
        (.ok (W.ids.mint (s.recordDelivery W d).2.minted, true),
          committed W (s.recordDelivery W d).2 record
            { delivery := d.key, event := d.event, jobs := intents } now)

theorem ingest_outcome (W : Wiring) (compile : Event → Payload → Except Err (List JobIntent)) (s : DurableStore)
    (d : Delivery) (now : Time) : IngestOutcome W compile s d now (ingest W compile s d now) := by
  obtain ⟨record, fresh, heq, hlook, hrecorded⟩ := recordDelivery_spec W s d
  unfold ingest
  rw [heq]
  dsimp only
  cases hrun : record.runID with
  | some r => exact .quiet fun r h => by cases h
  | none =>
    cases hcompile : compile d.event record.payload with
    | error err => exact .quiet fun r h => by cases h
    | ok intents =>
      dsimp only
      cases invalid intents with
      | some msg => exact .quiet fun r h => by cases h
      | none =>
        dsimp only
        split
        · exact .quiet fun r h => by cases h
        · have hout := createRun_outcome W (s.recordDelivery W d).2
            { delivery := d.key, event := d.event, jobs := intents } now
          generalize createRun W (s.recordDelivery W d).2 _ now = out at hout
          cases hout with
          | found | refused => exact .quiet fun r h => by cases h
          | created recorded unbound nonempty distinct =>
            have hsame : _ = record := Option.mem_unique recorded hlook
            subst hsame
            exact .created hlook hrecorded unbound hcompile nonempty distinct
          | duplicate recorded unbound repeated nonempty part => exact .orphaned _

/-- A step keeps runs and jobs, or binds the call's delivery to a new run. -/
inductive IngestEffect (W : Wiring) (s : DurableStore) (call : IngestCall) :
    DurableStore → IngestCall → Prop
  | quiet {s' : DurableStore} {call' : IngestCall} (bound : ∀ k r, BoundTo s' k r ↔ BoundTo s k r)
      (jobs : ∀ r, s.Stored r → s'.jobsOf r = s.jobsOf r)
      (result : ∀ r b, call'.point = .returned (.ok (r, b)) → b = false ∧ (r = "" ∨ BoundTo s call.delivery.key r)) :
      IngestEffect W s call s' call'
  | created {record : DeliveryRecord} {now : Time} (recorded : s.deliveries.lookup call.delivery.key = some record)
      (unbound : record.runID = none) (nonempty : call.jobs ≠ []) :
      IngestEffect W s call (committed W s record call.seed now) (call.finish (.ok (W.ids.mint s.minted, true)))

theorem IngestEffect.quiet_same (result : ∀ r b, call'.point = .returned (.ok (r, b)) →
      b = false ∧ (r = "" ∨ BoundTo s call.delivery.key r)) : IngestEffect W s call s call' :=
  .quiet (fun _ _ => Iff.rfl) (fun _ _ => rfl) result

theorem record_effect (W : Wiring) (s : DurableStore) (call : IngestCall) :
    IngestEffect W s call (call.record W s).2 (call.record W s).1 := by
  unfold record recordDelivery
  cases hrec : s.deliveries.lookup call.delivery.key with
  | some record =>
    dsimp only
    split
    · rename_i runID hrun
      refine .quiet_same fun r b h => ?_
      simp only [finish, IngestPoint.returned.injEq, Except.ok.injEq, Prod.mk.injEq] at h
      obtain ⟨rfl, rfl⟩ := h
      exact ⟨rfl, .inr ⟨record, hrec, hrun⟩⟩
    · exact .quiet_same fun r b h => by cases h
  | none =>
    refine .quiet (fun k r => ?_) (fun _ _ => rfl) (fun r b h => by cases h)
    unfold BoundTo
    rw [GoMap.lookup_insert_ite]
    split_ifs with hk
    · subst hk
      simp [hrec]
    · rfl

theorem compiled_effect (W : Wiring) (s : DurableStore) (call : IngestCall) (result : Except Err (List JobIntent)) :
    IngestEffect W s call s (call.compiled result) := by
  refine .quiet_same fun r b h => ?_
  unfold compiled at h
  split at h
  · cases h
  · split at h
    · cases h
    · split at h
      · simp only [finish, IngestPoint.returned.injEq, Except.ok.injEq, Prod.mk.injEq] at h
        exact ⟨h.2.symm, .inl h.1.symm⟩
      · cases h

theorem create_effect (hi : Inv W s) (call : IngestCall) (now : Time) :
    IngestEffect W s call (call.create W s now).2 (call.create W s now).1 := by
  unfold create
  have hout := createRun_outcome W s call.seed now
  generalize s.createRun W call.seed now = out at hout
  cases hout with
  | found recorded bound stored =>
    refine .quiet_same fun r b h => ?_
    simp only [finish, IngestPoint.returned.injEq, Except.ok.injEq, Prod.mk.injEq] at h
    obtain ⟨rfl, rfl⟩ := h
    rw [hi.minted.run_id stored]
    exact ⟨rfl, .inr ⟨_, recorded, bound⟩⟩
  | refused => exact .quiet_same fun r b h => by cases h
  | created recorded unbound nonempty distinct => exact .created recorded unbound nonempty
  | @duplicate record err l recorded unbound repeated nonempty part =>
    have horphan := orphaned_drafted hi.minted l now
    exact .quiet (fun k r => Iff.rfl) (fun r hr => horphan.jobsOf_eq hi.listing hr) (fun r b h => by cases h)

theorem ingestStep_effect (hi : Inv W s) (h : IngestStep W s call s' call') : IngestEffect W s call s' call' := by
  cases h with
  | record point => exact record_effect W s call
  | compile point result => exact compiled_effect W s call result
  | create point now => exact create_effect hi call now

/-- A step of a call leaves the store or is one of its calls. -/
theorem ingestStep_store (h : IngestStep W s call s' call') :
    s' = s ∨ ∃ op : StoreOp, s' = op.apply W s ∧ ∀ id obj now, op ≠ .ackDispatched id obj now := by
  cases h with
  | record point =>
    refine .inr ⟨.recordDelivery call.delivery, ?_, fun _ _ _ heq => by cases heq⟩
    unfold record StoreOp.apply
    dsimp only
    split
    · rename_i hrec
      rw [hrec]
    · rename_i hrec
      rw [hrec]
      split <;> rfl
  | compile point result => exact .inl rfl
  | create point now =>
    refine .inr ⟨.createRun call.seed now, ?_, fun _ _ _ heq => by cases heq⟩
    unfold create StoreOp.apply
    dsimp only
    split <;> rename_i hcr <;> rw [hcr]

theorem inv_ingestStep (hi : Inv W s) (h : IngestStep W s call s' call') : Inv W s' := by
  rcases ingestStep_store h with rfl | ⟨op, rfl, -⟩
  · exact hi
  · exact inv_step hi op

theorem ingestStep_delivery (h : IngestStep W s call s' call') : call'.delivery = call.delivery := by
  cases h with
  | record point =>
    unfold record
    split
    · rfl
    · split <;> rfl
  | compile point result =>
    unfold compiled
    split
    · rfl
    · split
      · rfl
      · split <;> rfl
  | create point now =>
    unfold create
    split <;> rfl

/-- A call that has returned a run knows that the delivery is bound to it, with the jobs it compiled if it created it.
-/
structure IngestAssert (W : Wiring) (key : DeliveryKey) (s : DurableStore) (call : IngestCall) :
    Prop where
  delivery : call.delivery.key = key
  result : ∀ r b, call.point = .returned (.ok (r, b)) → (r = "" ∧ b = false) ∨
    (BoundTo s key r ∧ (b → ∃ now n, s.jobsOf r = drafts W r now n call.jobs))

theorem boundTo_committed (hi : Inv W s) {record now} (hrec : s.deliveries.lookup call.delivery.key = some record)
    (hnone : record.runID = none) {k} (h : BoundTo s k r) : BoundTo (committed W s record call.seed now) k r ∧
      (committed W s record call.seed now).jobsOf r = s.jobsOf r := by
  have hkey : k ≠ call.delivery.key := by
    rintro rfl
    obtain ⟨rec, hrec', hr⟩ := h
    rw [Option.mem_unique hrec' hrec, hnone] at hr
    cases hr
  obtain ⟨run, hrun, -⟩ := run_of_boundTo hi h
  obtain ⟨rec, hrec', hr⟩ := h
  refine ⟨⟨rec, ?_, hr⟩, committed_jobsOf_old hi.minted hi.listing fun heq => ?_⟩
  · show (s.deliveries.insert call.delivery.key _).lookup k = some rec
    rw [GoMap.lookup_insert_ite, if_neg hkey]
    exact hrec'
  · exact not_stored_mint hi.minted (le_refl _) ⟨run, heq ▸ hrun⟩

theorem boundTo_kept (hi : Inv W s) (h : IngestStep W s call s' call') {k} (hb : BoundTo s k r) :
    BoundTo s' k r ∧ s'.jobsOf r = s.jobsOf r := by
  cases ingestStep_effect hi h with
  | quiet bound jobs result =>
    obtain ⟨run, hrun, -⟩ := run_of_boundTo hi hb
    exact ⟨(bound k r).mpr hb, jobs r ⟨run, hrun⟩⟩
  | created recorded unbound nonempty => exact boundTo_committed hi recorded unbound hb

theorem ingestAssert_keep (hi : Inv W s) (h : IngestStep W s call s' call') {other} (ha : IngestAssert W key s other) :
    IngestAssert W key s' other := by
  refine ⟨ha.delivery, fun r b hret => ?_⟩
  rcases ha.result r b hret with hempty | ⟨hbound, hjobs⟩
  · exact .inl hempty
  · obtain ⟨hbound', heq⟩ := boundTo_kept hi h hbound
    exact .inr ⟨hbound', heq ▸ hjobs⟩

section

variable (hi : Inv W s) (ha : IngestAssert W key s call) (h : IngestStep W s call s' call')
include hi ha h

theorem ingestAssert_act :
    IngestAssert W key s' call' := by
  refine ⟨(congrArg Delivery.key (ingestStep_delivery h)).trans ha.delivery, fun r b hret => ?_⟩
  cases ingestStep_effect hi h with
  | quiet bound jobs result =>
    obtain ⟨rfl, hempty | hbound⟩ := result r b hret
    · exact .inl ⟨hempty, rfl⟩
    · refine .inr ⟨(bound key r).mpr (ha.delivery ▸ hbound), fun hb => ?_⟩
      cases hb
  | @created record now recorded unbound nonempty =>
    simp only [finish, IngestPoint.returned.injEq, Except.ok.injEq, Prod.mk.injEq] at hret
    obtain ⟨rfl, rfl⟩ := hret
    refine .inr ⟨⟨{ record with runID := some (W.ids.mint s.minted) }, ?_, rfl⟩, fun _ => ?_⟩
    · rw [← ha.delivery]
      exact (GoMap.lookup_insert_ite _ _ _ _).trans (if_pos rfl)
    · exact ⟨now, s.minted + 1, committed_jobsOf_new hi.minted⟩

theorem created_unbound
    (hc : call'.Created) (r : RunID) : ¬BoundTo s key r := by
  obtain ⟨r', hret⟩ := hc
  cases ingestStep_effect hi h with
  | quiet bound jobs result => cases (result r' true hret).1
  | created recorded unbound nonempty =>
    rintro ⟨rec, hrec, hr⟩
    rw [← ha.delivery] at hrec
    rw [Option.mem_unique hrec recorded, unbound] at hr
    cases hr

end

theorem created_bound (ha : IngestAssert W key s call) (hc : call.Created) : ∃ r, BoundTo s key r := by
  obtain ⟨r, hret⟩ := hc
  rcases ha.result r true hret with ⟨-, hb⟩ | ⟨hbound, -⟩
  · cases hb
  · exact ⟨r, hbound⟩

theorem not_created_both (hi : Inv W s) (ha : IngestAssert W key s call) (h : IngestStep W s call s' call') {other}
    (ho : IngestAssert W key s other) : ¬(call'.Created ∧ other.Created) := by
  rintro ⟨hc, hoc⟩
  obtain ⟨r, hr⟩ := created_bound ho hoc
  exact created_unbound hi ha h hc r hr

theorem returned_idle {result} (hret : call.point = .returned result) : ¬IngestStep W s call s' call' := by
  intro h
  cases h with
  | record point => rw [hret] at point; cases point
  | compile point => rw [hret] at point; cases point
  | create point => rw [hret] at point; cases point

theorem ingest_proof (W : Wiring) (key : DeliveryKey) : Proof (IngestOf key) (IngestStep W) (Inv W) (IngestAssert W key)
      (fun _ p q => ¬(p.Created ∧ q.Created)) where
  spawn _ hp := by
    obtain ⟨d, hd, rfl⟩ := hp
    exact ⟨hd, fun r b h => by cases h⟩
  spawn_pair _ hp _ := by
    obtain ⟨d, -, rfl⟩ := hp
    refine ⟨?_, ?_⟩
    · rintro ⟨⟨r, h⟩, -⟩
      cases h
    · rintro ⟨-, ⟨r, h⟩⟩
      cases h
  shared hi _ h := inv_ingestStep hi h
  act hi ha h := ingestAssert_act hi ha h
  act_pair hi ha hq _ _ h :=
    ⟨not_created_both hi ha h hq, fun hqp => not_created_both hi ha h hq hqp.symm⟩
  keep hi _ hq _ _ h := ingestAssert_keep hi h hq
  keep_pair _ _ _ _ hqr _ := hqr

theorem bound_created {s₀} (hi : Inv W s₀) (hunbound : ∀ r, ¬BoundTo s₀ key r) {c}
    (hreach : IngestReaches W key ⟨s₀, []⟩ c) (hr : BoundTo c.shared key r) :
    ∃ (i : Nat) (p : IngestCall), c.procs[i]? = some p ∧ p.point = .returned (.ok (r, true)) := by
  induction hreach with
  | refl => exact absurd hr (hunbound r)
  | @tail b c hprev hturn ih =>
    have hholds := (ingest_proof W key).reaches (holds_idle hi) hprev
    -- a call that created the run before this turn is idle now
    have hkeep : BoundTo b.shared key r →
        ∃ (i : Nat) (p : IngestCall), c.procs[i]? = some p ∧ p.point = .returned (.ok (r, true)) := by
      intro hb
      obtain ⟨i, p, hp, hret⟩ := ih hb
      exact ⟨i, p, hturn.kept hp (fun _ _ => returned_idle hret), hret⟩
    cases hturn with
    | spawn started => exact hkeep hr
    | @act i p p' s' proc stepped =>
      cases ingestStep_effect hholds.shared stepped with
      | quiet bound jobs result => exact hkeep ((bound key r).mp hr)
      | created recorded unbound nonempty =>
        have ha := ingestAssert_act hholds.shared (hholds.proc proc) stepped
        refine ⟨i, p.finish (.ok (W.ids.mint b.shared.minted, true)), ?_, ?_⟩
        · rw [List.getElem?_set_self', proc]
          rfl
        · rcases ha.result _ true rfl with ⟨-, hb⟩ | ⟨hb, -⟩
          · cases hb
          · rw [hr.unique hb]
            rfl

/-- Whatever the interleaving of `Ingest` calls for one delivery and whatever they compile: there is at most one run,
all calls that return a run return it, exactly one of all reports to have created it if it exists, and its jobs are
one new job for each intent of that call. -/
theorem ingest_creates_one_run (W : Wiring) (s₀ : DurableStore) (h₀ : Reachable W s₀) (key : DeliveryKey)
    (hunbound : ∀ r, ¬BoundTo s₀ key r) (c : Config DurableStore IngestCall) (hreach : IngestReaches W key ⟨s₀, []⟩ c) :
    (∀ r r' run run', c.shared.runs.lookup r = some run → run.delivery = key →
      c.shared.runs.lookup r' = some run' → run'.delivery = key → r = r') ∧
    (∀ p ∈ c.procs, ∀ q ∈ c.procs, ∀ r b r' b', p.point = .returned (.ok (r, b)) →
      q.point = .returned (.ok (r', b')) → r ≠ "" → r' ≠ "" → r = r') ∧ ((∀ p ∈ c.procs, p.Returned) →
      ((∃ r run, c.shared.runs.lookup r = some run ∧ run.delivery = key) →
        ∃! i : Nat, ∃ p, c.procs[i]? = some p ∧ p.Created) ∧
      ((¬∃ r run, c.shared.runs.lookup r = some run ∧ run.delivery = key) → ∀ p ∈ c.procs, ¬p.Created)) ∧
    (∀ r run, c.shared.runs.lookup r = some run → run.delivery = key →
      ∃ p ∈ c.procs, p.point = .returned (.ok (r, true)) ∧
        ∃ now n, c.shared.listJobRuns r = .ok (drafts W r now n p.jobs)) := by
  have hholds := (ingest_proof W key).reaches (holds_idle (inv_reachable h₀)) hreach
  have hi := hholds.shared
  have hmem : ∀ {p}, p ∈ c.procs → IngestAssert W key c.shared p := by
    intro p hp
    obtain ⟨i, hp'⟩ := List.mem_iff_getElem?.mp hp
    exact hholds.proc hp'
  have hcreator : ∀ {r run}, c.shared.runs.lookup r = some run → run.delivery = key →
      ∃ (i : Nat) (p : IngestCall), c.procs[i]? = some p ∧ p.point = .returned (.ok (r, true)) :=
    fun hr hk => bound_created (inv_reachable h₀) hunbound hreach (boundTo_of_run hi hr hk)
  refine ⟨?_, ?_, fun _ => ⟨?_, ?_⟩, ?_⟩
  · intro r r' run run' hr hk hr' hk'
    exact (boundTo_of_run hi hr hk).unique (boundTo_of_run hi hr' hk')
  · intro p hp q hq r b r' b' hpr hqr hne hne'
    have hb : BoundTo c.shared key r := ((hmem hp).result r b hpr).elim (fun h => absurd h.1 hne) And.left
    have hb' : BoundTo c.shared key r' :=
      ((hmem hq).result r' b' hqr).elim (fun h => absurd h.1 hne') And.left
    exact hb.unique hb'
  · rintro ⟨r, run, hr, hk⟩
    obtain ⟨i, p, hp, hret⟩ := hcreator hr hk
    refine ⟨i, ⟨p, hp, r, hret⟩, ?_⟩
    rintro j ⟨q, hq, hqc⟩
    by_contra hne
    exact hholds.pair hne hq hp ⟨hqc, r, hret⟩
  · intro hnone p hp hpc
    obtain ⟨r, hb⟩ := created_bound (hmem hp) hpc
    obtain ⟨run, hr, hk⟩ := run_of_boundTo hi hb
    exact hnone ⟨r, run, hr, hk⟩
  · intro r run hr hk
    obtain ⟨i, p, hp, hret⟩ := hcreator hr hk
    have hp' : p ∈ c.procs := List.mem_iff_getElem?.mpr ⟨i, hp⟩
    refine ⟨p, hp', hret, ?_⟩
    rcases (hmem hp').result r true hret with ⟨-, hb⟩ | ⟨-, hjobs⟩
    · cases hb
    · obtain ⟨now, n, heq⟩ := hjobs rfl
      refine ⟨now, n, ?_⟩
      unfold listJobRuns
      rw [hr, heq]

/-- Two calls compile different jobs for one push; the second creates the run, and both return it. -/
theorem ingest_creates_one_run_race : ∃ c, IngestReaches Wiring.unary pushDelivery.key ⟨new, []⟩ c ∧
      c.procs.map (·.point) = [.returned (.ok ("i", false)), .returned (.ok ("i", true))] ∧
      (∃! i : Nat, ∃ p, c.procs[i]? = some p ∧ p.Created) ∧
      c.shared.listJobRuns "i" = .ok [newJob "ii" "i" (intentOf "b" [] "") 7] := by
  have hstart : IngestOf pushDelivery.key (.begin pushDelivery) := ⟨pushDelivery, rfl, rfl⟩
  obtain ⟨c, hreach, hpoints, hjobs, hrun⟩ : ∃ c, IngestReaches Wiring.unary pushDelivery.key ⟨new, []⟩ c ∧
      c.procs.map (·.point) = [.returned (.ok ("i", false)), .returned (.ok ("i", true))] ∧
      c.shared.listJobRuns "i" = .ok [newJob "ii" "i" (intentOf "b" [] "") 7] ∧
      ∃ r run, c.shared.runs.lookup r = some run ∧ run.delivery = pushDelivery.key :=
    ⟨_, .tail (.tail (.tail (.tail (.tail (.tail (.tail (.tail .refl (.spawn hstart)) (.spawn hstart))
      (.act (i := 0) rfl (.record rfl))) (.act (i := 1) rfl (.record rfl)))
      (.act (i := 0) rfl (.compile rfl (.ok [intentOf "a" [] ""]))))
      (.act (i := 1) rfl (.compile rfl (.ok [intentOf "b" [] ""]))))
      (.act (i := 1) rfl (.create rfl 7))) (.act (i := 0) rfl (.create rfl 9)),
      rfl, rfl, "i", _, rfl, rfl⟩
  have hreturned : ∀ p ∈ c.procs, p.Returned := by
    intro p hp
    have hmem : p.point ∈ c.procs.map (·.point) := List.mem_map_of_mem hp
    rw [hpoints] at hmem
    rcases List.mem_cons.mp hmem with h | h
    · exact ⟨_, h⟩
    · exact ⟨_, List.mem_singleton.mp h⟩
  have hunbound : ∀ r, ¬BoundTo new pushDelivery.key r := by
    rintro r ⟨rec, hrec, -⟩
    cases hrec
  exact ⟨c, hreach, hpoints, ((ingest_creates_one_run Wiring.unary new .refl pushDelivery.key
    hunbound c hreach).2.2.1 hreturned).1 hrun, hjobs⟩

end Forgelet
