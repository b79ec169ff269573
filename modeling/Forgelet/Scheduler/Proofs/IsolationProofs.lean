import Forgelet.Scheduler.Proofs.ScheduleProofs

/-!
# Proofs: schedules and the failures of others

A tick in which a delivery that is not taken concerns only its own workflow would go on with the rest of the list.
`Tick` makes the same calls up to the first that fails, and none after it.
-/

namespace Forgelet.Schedule

open Filter

section

variable {World : Type} (parse : Parser) (ingest : IngestPort World)

/-- A tick in which every due workflow has its call. -/
def isolatedLoop (fuel : Nat) (now : Time) : List ScheduledWorkflow → Fired → World → Option (List Attempt)
  | [], _, _ => some []
  | sw :: rest, fired, w =>
    match due parse fuel now fired sw with
    | none => none
    | some none => isolatedLoop fuel now rest fired w
    | some (some latest) =>
      match ingest w (deliveryFor sw latest) with
      | (.error _, w) =>
        (isolatedLoop fuel now rest fired w).map
          ({ now := now, workflow := sw, latest := latest, emitted := false } :: ·)
      | (.ok _, w) =>
        (isolatedLoop fuel now rest (fired.insert (scheduleKey sw) latest) w).map
          ({ now := now, workflow := sw, latest := latest, emitted := true } :: ·)

/-- The calls up to the first that fails, which is the last. -/
def untilFailure : List Attempt → List Attempt
  | [] => []
  | a :: rest => if a.emitted then a :: untilFailure rest else [a]

/-- After one failure nothing is emitted. -/
def FailuresLast : List Attempt → Prop
  | [] => True
  | a :: rest => if a.emitted then FailuresLast rest else ∀ b ∈ rest, b.emitted = false

theorem failuresLast_iff {calls} :
    FailuresLast calls ↔ ∀ before a after, calls = before ++ a :: after → a.emitted = false →
      ∀ b ∈ after, b.emitted = false := by
  induction calls with
  | nil =>
    refine iff_of_true trivial fun before a after heq => ?_
    simp at heq
  | cons first rest ih =>
    unfold FailuresLast
    constructor
    · intro h before a after heq ha
      cases before with
      | nil =>
        obtain ⟨rfl, rfl⟩ := List.cons.inj heq
        rw [if_neg (by rw [ha]; exact Bool.false_ne_true)] at h
        exact h
      | cons x before =>
        obtain ⟨rfl, rfl⟩ := List.cons.inj heq
        split at h
        · exact ih.mp h before a after rfl ha
        · exact fun b hb => h b (List.mem_append_right _ (.tail _ hb))
    · intro h
      split
      · exact ih.mpr fun before a after heq => h (first :: before) a after (by rw [heq, List.cons_append])
      · rename_i hfirst
        exact h [] first rest rfl (Bool.eq_false_iff.mpr hfirst)

/-- The calls up to the first failure are all that are taken if none is taken later. -/
theorem taken_untilFailure_iff {calls} :
    (untilFailure calls).filter (·.emitted) = calls.filter (·.emitted) ↔ FailuresLast calls := by
  induction calls with
  | nil => exact iff_of_true rfl trivial
  | cons first rest ih =>
    unfold untilFailure FailuresLast
    by_cases hfirst : first.emitted
    · rw [if_pos hfirst, if_pos hfirst, List.filter_cons_of_pos hfirst, List.filter_cons_of_pos hfirst,
        List.cons_eq_cons, ← ih]
      exact and_iff_right rfl
    · rw [if_neg hfirst, if_neg hfirst, List.filter_cons_of_neg hfirst, List.filter_cons_of_neg hfirst,
        List.filter_nil, eq_comm, List.filter_eq_nil_iff]
      exact forall₂_congr fun b _ => Bool.not_eq_true _ ▸ Iff.rfl

/-- Both ticks end, and `Tick` makes the calls of the other up to a failure. -/
theorem tickLoop_untilFailure (now : Time) (workflows : List ScheduledWorkflow) (emitted : Nat) (fired : Fired)
    (w : World) : ∃ r calls, (∀ᶠ fuel in atTop, tickLoop parse ingest fuel now workflows emitted fired w = some r) ∧
      (∀ᶠ fuel in atTop, isolatedLoop parse ingest fuel now workflows fired w = some calls) ∧
      r.attempts = untilFailure calls := by
  induction workflows generalizing emitted fired w with
  | nil => exact ⟨_, [], .of_forall fun fuel => rfl, .of_forall fun fuel => rfl, rfl⟩
  | cons sw rest ih =>
    obtain ⟨o, hdue, -⟩ := due_spec parse now fired sw
    cases o with
    | none =>
      obtain ⟨r, calls, hrest, hcalls, heq⟩ := ih emitted fired w
      refine ⟨r, calls, ?_, ?_, heq⟩
      · filter_upwards [hdue, hrest] with fuel hd hl
        rwa [tickLoop_idle hd]
      · filter_upwards [hdue, hcalls] with fuel hd hl
        rwa [isolatedLoop, hd]
    | some latest =>
      cases hingest : ingest w (deliveryFor sw latest) with
      | mk result w' =>
        cases result with
        | error err =>
          -- the isolated tick goes on here, and its next calls are not made
          obtain ⟨-, calls, -, hcalls, -⟩ := ih emitted fired w'
          refine ⟨_, { now := now, workflow := sw, latest := latest, emitted := false } :: calls,
            hdue.mono fun fuel hd => tickLoop_rejected hd hingest, ?_, rfl⟩
          filter_upwards [hdue, hcalls] with fuel hd hl
          rw [isolatedLoop, hd]
          dsimp only
          rw [hingest]
          dsimp only
          rw [hl]
          rfl
        | ok created =>
          obtain ⟨r, calls, hrest, hcalls, heq⟩ := ih (emitted + 1) (fired.insert (scheduleKey sw) latest) w'
          refine ⟨_, { now := now, workflow := sw, latest := latest, emitted := true } :: calls,
            (hdue.and hrest).mono fun fuel hd => tickLoop_accepted hd.1 hingest hd.2, ?_, congrArg _ heq⟩
          filter_upwards [hdue, hcalls] with fuel hd hl
          rw [isolatedLoop, hd]
          dsimp only
          rw [hingest]
          dsimp only
          rw [hl]
          rfl

/-- The deliveries that a tick gets accepted are all those of a tick with isolated workflows exactly if that one has
none accepted after a failure. -/
theorem tick_isolated_iff (now : Time) (workflows : List ScheduledWorkflow) (fired : Fired) (w : World) : ∃ r calls,
      (∀ᶠ fuel in atTop, tick parse ingest fuel { listed := .ok workflows, now := now } fired w = some r) ∧
      (∀ᶠ fuel in atTop, isolatedLoop parse ingest fuel now workflows fired w = some calls) ∧
      (r.attempts.filter (·.emitted) = calls.filter (·.emitted) ↔
        ∀ before a after, calls = before ++ a :: after → a.emitted = false → ∀ b ∈ after, b.emitted = false) := by
  obtain ⟨r, calls, htick, hcalls, heq⟩ := tickLoop_untilFailure parse ingest now workflows 0 fired w
  refine ⟨r, calls, htick, hcalls, ?_⟩
  rw [heq, taken_untilFailure_iff, failuresLast_iff]

end

/-- A second workflow of the repository. -/
def other : ScheduledWorkflow := { nightly with fileName := "other.yml" }

/-- `nightly` can never be ingested, so `other` is not even tried. -/
theorem failing_schedule_starves : ticks (fun _ => some hourly)
        (fun n d => (if d = deliveryFor nightly 3600000000000 ∨ d = deliveryFor nightly 7200000000000
          then .error .errNoQueuedJob else .ok ("", false), n + 1)) 30
        [⟨.ok [nightly, other], 3600000000000⟩, ⟨.ok [nightly, other], 7200000000000⟩] ∅ 0 =
      some [[⟨3600000000000, nightly, 3600000000000, false⟩], [⟨7200000000000, nightly, 7200000000000, false⟩]] ∧
    isolatedLoop (fun _ => some hourly)
        (fun n d => (if d = deliveryFor nightly 3600000000000 then .error .errNoQueuedJob else .ok ("", false), n + 1))
        30 3600000000000 [nightly, other] ∅ 0 =
      some [⟨3600000000000, nightly, 3600000000000, false⟩, ⟨3600000000000, other, 3600000000000, true⟩] := by
  decide +kernel

end Forgelet.Schedule
