import Forgelet.Scheduler.Schedule
import Mathlib.Data.Int.ConditionallyCompleteOrder
import Mathlib.Data.Int.Interval
import Mathlib.Order.Filter.AtTopBot.Basic

/-!
# Proofs: the ticks of the cron scheduler

The walk of a tick ends at the last fire time up to the reading of the clock. Over any sequence of ticks the remembered
fire times are those of the last deliveries that were accepted; so each delivery carries the last fire time since then,
and the accepted fire times of a key increase.
-/

namespace Forgelet.Schedule

open Filter

variable {history : List Attempt} {a : Attempt}

/-- The zero time is no fire time: `Next` could not return it. -/
theorem Cron.zeroTime_notMem (sched : Cron) : zeroTime ∉ sched.fires := by
  intro hzero
  have hmem : zeroTime ∈ sched.fires ∩ Set.Ioi (zeroTime - 1) := ⟨hzero, by decide⟩
  cases hn : nextFire sched.next (zeroTime - 1) with
  | none =>
    rw [sched.successor.exhausted hn] at hmem
    exact hmem
  | some n =>
    have hfirst := sched.successor.first hn
    have hle : n ≤ zeroTime := hfirst.2 hmem
    have hlt : zeroTime - 1 < n := hfirst.1.2
    have hne : n ≠ zeroTime := by
      unfold nextFire at hn
      split at hn
      · cases hn
      · rename_i hne
        rw [← Option.some.inj hn]
        exact hne
    exact hne (le_antisymm hle (Int.sub_one_lt_iff.mp hlt))

/-- The walk ends, at the last fire time after the cursor and up to now if there is one. -/
theorem walk_spec (sched : Cron) (now cursor latest : Time) :
    ∃ r, (∀ᶠ fuel in atTop, walk sched.next now fuel cursor latest = some r) ∧
      (r = latest ∧ sched.fires ∩ Set.Ioc cursor now = ∅ ∨
        IsGreatest (sched.fires ∩ Set.Ioc cursor now) r) := by
  induction cursor using sched.successor.induction now generalizing latest with | step c ih
  by_cases hend : sched.next c = zeroTime ∨ now < sched.next c
  · refine ⟨latest, eventually_atTop.mpr ⟨1, fun fuel hfuel => ?_⟩, .inl ⟨rfl, ?_⟩⟩
    · obtain ⟨fuel, rfl⟩ := Nat.exists_eq_add_of_le' hfuel
      rw [walk]
      exact if_pos hend
    · refine sched.successor.empty fun n hn => ?_
      unfold nextFire at hn
      split at hn
      · cases hn
      · rename_i hne
        rw [← Option.some.inj hn]
        exact hend.resolve_left hne
  · rw [not_or, not_lt] at hend
    have hn : nextFire sched.next c = some (sched.next c) := if_neg hend.1
    obtain ⟨r, hwalk, hr⟩ := ih (sched.next c) hn hend.2 (sched.next c)
    obtain ⟨enough, henough⟩ := eventually_atTop.mp hwalk
    refine ⟨r, eventually_atTop.mpr ⟨enough + 1, fun fuel hfuel => ?_⟩, .inr ?_⟩
    · obtain ⟨fuel, rfl⟩ := Nat.exists_eq_add_of_le' (le_trans (Nat.le_add_left 1 enough) hfuel)
      rw [walk, if_neg (not_or.mpr ⟨hend.1, not_lt.mpr hend.2⟩)]
      exact henough fuel (Nat.le_of_succ_le_succ hfuel)
    · rcases hr with ⟨rfl, hempty⟩ | hr
      · exact sched.successor.isGreatest_last hn hend.2 hempty
      · exact sched.successor.isGreatest_step hn hend.2 hr

/-- Where the search for the next time begins. -/
def origin (fired : Fired) (now : Time) (sw : ScheduledWorkflow) : Time :=
  if lastEmitted fired sw = zeroTime then now - day else lastEmitted fired sw

/-- What is due for a workflow: nothing, or the last fire time since the origin. -/
inductive Due (parse : Parser) (now : Time) (fired : Fired) (sw : ScheduledWorkflow) : Option Time → Prop
  | invalid (parsed : parse sw.cron = none) : Due parse now fired sw none
  | nothing {sched} (parsed : parse sw.cron = some sched)
      (empty : sched.fires ∩ Set.Ioc (origin fired now sw) now = ∅) : Due parse now fired sw none
  | latest {sched t} (parsed : parse sw.cron = some sched)
      (greatest : IsGreatest (sched.fires ∩ Set.Ioc (origin fired now sw) now) t) : Due parse now fired sw (some t)

theorem due_spec (parse : Parser) (now : Time) (fired : Fired) (sw : ScheduledWorkflow) :
    ∃ o, (∀ᶠ fuel in atTop, due parse fuel now fired sw = some o) ∧ Due parse now fired sw o := by
  cases hparse : parse sw.cron with
  | none =>
    refine ⟨none, .of_forall fun fuel => ?_, .invalid hparse⟩
    rw [due, hparse]
  | some sched =>
    obtain ⟨r, hwalk, hr⟩ := walk_spec sched now (origin fired now sw) zeroTime
    have hdue : ∀ o : Option Time,
        (if r = zeroTime ∨ r = lastEmitted fired sw then some none else some (some r)) = some o →
        ∀ᶠ fuel in atTop, due parse fuel now fired sw = some o := by
      intro o ho
      filter_upwards [hwalk] with fuel hfuel
      rw [origin] at hfuel
      rw [due, hparse]
      dsimp only
      rw [hfuel]
      exact ho
    rcases hr with ⟨rfl, hempty⟩ | hr
    · exact ⟨none, hdue none (if_pos (.inl rfl)), .nothing hparse hempty⟩
    · have hzero : r ≠ zeroTime := fun h => sched.zeroTime_notMem (h ▸ hr.1.1)
      have hlast : r ≠ lastEmitted fired sw := by
        intro h
        have hlt : origin fired now sw < r := hr.1.2.1
        rw [origin, if_neg (h ▸ hzero), h] at hlt
        exact lt_irrefl _ hlt
      exact ⟨some r, hdue (some r) (if_neg (not_or.mpr ⟨hzero, hlast⟩)), .latest hparse hr⟩

/-- The last fire time in a history that was emitted for a schedule key. -/
def lastIn (key : String) (history : List Attempt) : Option Time :=
  ((history.filter fun a => a.emitted && scheduleKey a.workflow = key).getLast?).map (·.latest)

/-- A fire time is due after the last accepted one, or the recovery window's beginning. -/
def since (history : List Attempt) (a : Attempt) : Time :=
  (lastIn (scheduleKey a.workflow) history).getD (a.now - day)

/-- After `history`, the attempt `a` carries the last fire time that is due. -/
def CarriesLatest (parse : Parser) (history : List Attempt) (a : Attempt) : Prop :=
  ∃ sched, parse a.workflow.cron = some sched ∧
    IsGreatest (sched.fires ∩ Set.Ioc (since history a) a.now) a.latest

/-- The attempts that follow a history, each one judged by those before it. -/
def AllCarryLatest (parse : Parser) : List Attempt → List Attempt → Prop
  | _, [] => True
  | history, a :: rest => CarriesLatest parse history a ∧ AllCarryLatest parse (history ++ [a]) rest

/-- What is emitted for one schedule moves forward. -/
def Increasing (history : List Attempt) : Prop :=
  (history.filter (·.emitted)).Pairwise fun a b =>
    scheduleKey a.workflow = scheduleKey b.workflow → a.latest < b.latest

theorem lastIn_append (key : String) (history : List Attempt) (a : Attempt) :
    lastIn key (history ++ [a]) =
      if a.emitted ∧ scheduleKey a.workflow = key then some a.latest else lastIn key history := by
  unfold lastIn
  rw [List.filter_append]
  by_cases h : a.emitted ∧ scheduleKey a.workflow = key
  · rw [if_pos h, List.filter_cons_of_pos (by simpa using h), List.filter_nil, List.getLast?_append]
    rfl
  · rw [if_neg h, List.filter_cons_of_neg (by simpa using h), List.filter_nil, List.append_nil]

theorem AllCarryLatest.append {parse l l'} (h : AllCarryLatest parse history l)
    (h' : AllCarryLatest parse (history ++ l) l') : AllCarryLatest parse history (l ++ l') := by
  induction l generalizing history with
  | nil => rwa [List.append_nil] at h'
  | cons a rest ih =>
    refine ⟨h.1, ih h.2 ?_⟩
    rwa [List.append_assoc]

theorem AllCarryLatest.split {parse before after} (h : AllCarryLatest parse history (before ++ a :: after)) :
    CarriesLatest parse (history ++ before) a := by
  induction before generalizing history with
  | nil =>
    rw [List.append_nil]
    exact h.1
  | cons first rest ih =>
    have hrest := ih h.2
    rwa [List.append_assoc] at hrest

/-- The last accepted fire time of a key is the greatest. -/
theorem Increasing.le_lastIn (h : Increasing history) {x} (hx : x ∈ history) (hemitted : x.emitted) :
    ∃ t, lastIn (scheduleKey x.workflow) history = some t ∧ x.latest ≤ t := by
  induction history using List.reverseRecOn with
  | nil => cases hx
  | append_singleton history a ih =>
    unfold Increasing at h
    rw [List.filter_append, List.pairwise_append] at h
    rw [lastIn_append]
    split
    · rename_i ha
      refine ⟨a.latest, rfl, ?_⟩
      rcases List.mem_append.mp hx with hx | hx
      · refine (h.2.2 x ?_ a ?_ ha.2.symm).le
        · exact List.mem_filter.mpr ⟨hx, hemitted⟩
        · exact List.mem_filter.mpr ⟨List.mem_singleton_self a, ha.1⟩
      · rw [List.mem_singleton.mp hx]
    · rename_i ha
      rcases List.mem_append.mp hx with hx | hx
      · exact ih h.1 hx
      · rw [List.mem_singleton.mp hx] at hemitted ha
        exact absurd ⟨hemitted, rfl⟩ ha

/-- An attempt that carries the last fire time due goes beyond everything accepted before. -/
theorem Increasing.snoc {parse} (h : Increasing history) (ha : CarriesLatest parse history a) :
    Increasing (history ++ [a]) := by
  unfold Increasing
  rw [List.filter_append, List.pairwise_append]
  refine ⟨h, (List.pairwise_singleton _ a).filter _, fun x hx y hy hkey => ?_⟩
  obtain ⟨hx, hemitted⟩ := List.mem_filter.mp hx
  rw [List.mem_singleton.mp (List.mem_filter.mp hy).1] at hkey ⊢
  obtain ⟨t, ht, hle⟩ := h.le_lastIn hx hemitted
  obtain ⟨sched, -, hgreatest⟩ := ha
  have hlt : since history a < a.latest := hgreatest.1.2.1
  rw [since, ← hkey, ht] at hlt
  exact lt_of_le_of_lt hle hlt

theorem AllCarryLatest.increasing {parse l} (h : AllCarryLatest parse history l) (hinc : Increasing history) :
    Increasing (history ++ l) := by
  induction l generalizing history with
  | nil => rwa [List.append_nil]
  | cons a rest ih =>
    have hrest := ih h.2 (hinc.snoc h.1)
    rwa [List.append_assoc] at hrest

/-- The remembered fire times are the last ones of the history. -/
structure Tracks (fired : Fired) (history : List Attempt) : Prop where
  lookup : ∀ key, fired.lookup key = lastIn key history
  nonzero : ∀ key t, fired.lookup key = some t → t ≠ zeroTime

theorem Tracks.origin_eq {fired} (h : Tracks fired history) (a : Attempt) :
    origin fired a.now a.workflow = since history a := by
  rw [origin, since, lastEmitted, ← h.lookup]
  cases hkey : fired.lookup (scheduleKey a.workflow) with
  | none => exact if_pos rfl
  | some t => exact if_neg (h.nonzero _ t hkey)

theorem Tracks.rejected {fired} (h : Tracks fired history) (ha : a.emitted = false) :
    Tracks fired (history ++ [a]) where
  lookup key := by
    rw [lastIn_append, if_neg (by simp [ha])]
    exact h.lookup key
  nonzero := h.nonzero

theorem Tracks.accepted {fired} (h : Tracks fired history) (ha : a.emitted) (hzero : a.latest ≠ zeroTime) :
    Tracks (fired.insert (scheduleKey a.workflow) a.latest) (history ++ [a]) where
  lookup key := by
    rw [lastIn_append]
    by_cases hkey : scheduleKey a.workflow = key
    · rw [if_pos ⟨ha, hkey⟩, ← hkey, AList.lookup_insert]
    · rw [if_neg (fun hc => hkey hc.2), AList.lookup_insert_ne (Ne.symm hkey)]
      exact h.lookup key
  nonzero key t ht := by
    by_cases hkey : key = scheduleKey a.workflow
    · rw [hkey, AList.lookup_insert, Option.some_inj] at ht
      rwa [← ht]
    · rw [AList.lookup_insert_ne hkey] at ht
      exact h.nonzero key t ht

section

variable {World : Type} (parse : Parser) (ingest : IngestPort World)

/-- The calls are made at the reading of the clock, for listed workflows. -/
def MadeBy (input : TickInput) (calls : List Attempt) : Prop :=
  ∀ a ∈ calls, a.now = input.now ∧ ∃ workflows, input.listed = .ok workflows ∧ a.workflow ∈ workflows

variable {parse ingest} {fuel : Nat} {now latest : Time} {sw : ScheduledWorkflow} {rest : List ScheduledWorkflow}
  {emitted : Nat} {fired : Fired} {w w' : World}

theorem tickLoop_idle (hdue : due parse fuel now fired sw = some none) :
    tickLoop parse ingest fuel now (sw :: rest) emitted fired w =
      tickLoop parse ingest fuel now rest emitted fired w := by
  rw [tickLoop, hdue]

/-- A delivery that is not taken ends the tick, and its fire time is not remembered. -/
theorem tickLoop_rejected {err} (hdue : due parse fuel now fired sw = some (some latest))
    (hingest : ingest w (deliveryFor sw latest) = (.error err, w')) :
    tickLoop parse ingest fuel now (sw :: rest) emitted fired w =
      some
        { emitted := emitted
          err := some (.wrap ("schedule: ingest " ++ (deliveryFor sw latest).key.text ++ ": ") err "")
          fired := fired
          world := w'
          attempts := [{ now := now, workflow := sw, latest := latest, emitted := false }] } := by
  rw [tickLoop, hdue]
  dsimp only
  rw [hingest]

theorem tickLoop_accepted {created} (hdue : due parse fuel now fired sw = some (some latest))
    (hingest : ingest w (deliveryFor sw latest) = (.ok created, w')) {r}
    (hrest : tickLoop parse ingest fuel now rest (emitted + 1) (fired.insert (scheduleKey sw) latest) w' = some r) :
    tickLoop parse ingest fuel now (sw :: rest) emitted fired w =
      some
        { r with
          attempts := { now := now, workflow := sw, latest := latest, emitted := true } :: r.attempts } := by
  rw [tickLoop, hdue]
  dsimp only
  rw [hingest]
  dsimp only
  rw [hrest]
  rfl

variable (parse ingest)

theorem tickLoop_spec (now : Time) (workflows : List ScheduledWorkflow) (emitted : Nat) (fired : Fired) (w : World)
    (ht : Tracks fired history) :
    ∃ r : Ticked World,
      (∀ᶠ fuel in atTop, tickLoop parse ingest fuel now workflows emitted fired w = some r) ∧
        AllCarryLatest parse history r.attempts ∧ Tracks r.fired (history ++ r.attempts) ∧
        ∀ a ∈ r.attempts, a.now = now ∧ a.workflow ∈ workflows := by
  induction workflows generalizing emitted fired w history with
  | nil =>
    refine ⟨_, .of_forall fun fuel => rfl, trivial, ?_, fun a ha => by cases ha⟩
    rwa [List.append_nil]
  | cons sw rest ih =>
    obtain ⟨o, hdue, ho⟩ := due_spec parse now fired sw
    cases o with
    | none =>
      obtain ⟨r, hrest, hr, hfired, hmade⟩ := ih emitted fired w ht
      refine ⟨r, ?_, hr, hfired, fun a ha => (hmade a ha).imp_right (List.mem_cons_of_mem _)⟩
      filter_upwards [hdue, hrest] with fuel hd hl
      rw [tickLoop_idle hd]
      exact hl
    | some latest =>
      cases ho with
      | @latest sched _ parsed greatest =>
        have hzero : latest ≠ zeroTime := fun h => sched.zeroTime_notMem (h ▸ greatest.1.1)
        have hcarries : ∀ emitted, CarriesLatest parse history
            { now := now, workflow := sw, latest := latest, emitted := emitted } := by
          intro emitted
          refine ⟨sched, parsed, ?_⟩
          rw [← ht.origin_eq]
          exact greatest
        cases hingest : ingest w (deliveryFor sw latest) with
        | mk result w' =>
          cases result with
          | error err =>
            refine ⟨_, hdue.mono fun fuel hd => tickLoop_rejected hd hingest, ⟨hcarries false, trivial⟩,
              ht.rejected rfl, fun a ha => ?_⟩
            rw [List.mem_singleton.mp ha]
            exact ⟨rfl, (.head _)⟩
          | ok created =>
            have ht' := ht.accepted (a := { now := now, workflow := sw, latest := latest, emitted := true })
              rfl hzero
            obtain ⟨r, hrest, hr, hfired, hmade⟩ :=
              ih (emitted + 1) (fired.insert (scheduleKey sw) latest) w' ht'
            rw [List.append_assoc] at hfired
            refine ⟨_, (hdue.and hrest).mono fun fuel hd => tickLoop_accepted hd.1 hingest hd.2,
              ⟨hcarries true, hr⟩, hfired, fun a ha => ?_⟩
            rcases List.mem_cons.mp ha with rfl | ha
            · exact ⟨rfl, (.head _)⟩
            · exact (hmade a ha).imp_right (List.mem_cons_of_mem _)

theorem tick_spec (input : TickInput) (fired : Fired) (w : World) (ht : Tracks fired history) :
    ∃ r : Ticked World, (∀ᶠ fuel in atTop, tick parse ingest fuel input fired w = some r) ∧
      AllCarryLatest parse history r.attempts ∧ Tracks r.fired (history ++ r.attempts) ∧
      MadeBy input r.attempts := by
  unfold tick
  cases hlisted : input.listed with
  | error err =>
    refine ⟨_, .of_forall fun fuel => rfl, trivial, ?_, fun a ha => by cases ha⟩
    rwa [List.append_nil]
  | ok workflows =>
    obtain ⟨r, hloop, hr, hfired, hmade⟩ := tickLoop_spec parse ingest input.now workflows 0 fired w ht
    exact ⟨r, hloop, hr, hfired, fun a ha =>
      ⟨(hmade a ha).1, workflows, hlisted, (hmade a ha).2⟩⟩

theorem ticks_spec (inputs : List TickInput) (fired : Fired) (w : World) (ht : Tracks fired history) :
    ∃ calls, (∀ᶠ fuel in atTop, ticks parse ingest fuel inputs fired w = some calls) ∧
      List.Forall₂ MadeBy inputs calls ∧ AllCarryLatest parse history calls.flatten := by
  induction inputs generalizing fired w history with
  | nil => exact ⟨[], .of_forall fun fuel => rfl, .nil, trivial⟩
  | cons input rest ih =>
    obtain ⟨r, htick, hr, hfired, hmade⟩ := tick_spec parse ingest input fired w ht
    obtain ⟨calls, hrest, hmades, hcalls⟩ := ih r.fired r.world hfired
    refine ⟨r.attempts :: calls, ?_, .cons hmade hmades, ?_⟩
    · filter_upwards [htick, hrest] with fuel ht' hl'
      rw [ticks, ht']
      dsimp only
      rw [hl']
      rfl
    · rw [List.flatten_cons]
      exact hr.append hcalls

/-- Over every sequence of ticks, whatever the clock reads and whichever calls of `Ingest` fail, a delivery carries
the last fire time up to its tick that is later than the last accepted one of its key, and the accepted ones increase.
-/
theorem attempts_carry_latest (inputs : List TickInput) (w : World) :
    ∃ calls, (∀ᶠ fuel in atTop, ticks parse ingest fuel inputs ∅ w = some calls) ∧
      List.Forall₂ MadeBy inputs calls ∧
      (∀ before a after, calls.flatten = before ++ a :: after → CarriesLatest parse before a) ∧
      Increasing calls.flatten := by
  have hnew : Tracks ∅ [] :=
    { lookup := fun key => AList.lookup_empty key
      nonzero := fun key t ht => by cases (AList.lookup_empty key).symm.trans ht }
  obtain ⟨calls, hticks, hmade, hall⟩ := ticks_spec parse ingest inputs ∅ w hnew
  refine ⟨calls, hticks, hmade, ?_, hall.increasing List.Pairwise.nil⟩
  intro before a after heq
  rw [heq] at hall
  exact hall.split

end

/-- The first full hour after a time, from the epoch on. -/
def nextHour (t : Int) : Int := if t < 0 then 3600000000000 else (t / 3600000000000 + 1) * 3600000000000

theorem nextHour_isLeast (t : Int) : IsLeast ({ m : Int | 0 < m ∧ 3600000000000 ∣ m } ∩ Set.Ioi t) (nextHour t) := by
  unfold nextHour
  constructor
  · simp only [Set.mem_inter_iff, Set.mem_ofPred_eq, Set.mem_Ioi]
    split_ifs <;> omega
  · rintro m ⟨⟨hpos, hdvd⟩, hlt⟩
    rw [Set.mem_Ioi] at hlt
    split_ifs <;> omega

/-- The expression `0 * * * *` from the epoch on. -/
def hourly : Cron where
  next := nextHour
  fires := { m : Int | 0 < m ∧ 3600000000000 ∣ m }
  successor :=
    { exhausted := fun {t} hnone => by
        have hpos : 0 < nextHour t := (nextHour_isLeast t).1.1.1
        unfold nextFire at hnone
        split at hnone
        · rename_i hzero
          rw [hzero] at hpos
          exact absurd hpos (by decide)
        · cases hnone
      first := fun {t m} hsome => by
        unfold nextFire at hsome
        split at hsome
        · cases hsome
        · rw [← Option.some.inj hsome]
          exact nextHour_isLeast t
      finite := fun a b => (Set.finite_Ioc a b).inter_of_right _ }

/-- An expression that never fires. -/
def never : Cron where
  next _ := zeroTime
  fires := ∅
  successor :=
    { exhausted := fun _ => Set.empty_inter _
      first := fun hsome => by
        rw [nextFire, if_pos rfl] at hsome
        cases hsome
      finite := fun a b => Set.finite_empty.inter_of_left _ }

/-- A workflow with a schedule. -/
def nightly : ScheduledWorkflow where
  repository := { provider := "github", owner := "acme", name := "app" }
  fileName := "nightly.yml"
  ref := "refs/heads/main"
  cron := "0 * * * *"

-- a call that fails is repeated by the next tick, with the fire time that is the last one by then; a clock
-- that is set back makes no call
example :
    ticks (fun _ => some hourly) (fun n _ => (if n = 0 then .error .errNoQueuedJob else .ok ("", false), n + 1))
        30 [⟨.ok [nightly], 90000000000000⟩, ⟨.ok [nightly], 93700000000000⟩, ⟨.ok [nightly], 90000000000000⟩]
        ∅ 0 =
      some [[⟨90000000000000, nightly, 90000000000000, false⟩],
        [⟨93700000000000, nightly, 93600000000000, true⟩], []] := by
  decide

end Forgelet.Schedule
