import Forgelet.Server.InternalApi
import Forgelet.Store.Proofs.CreateRunProofs
import Forgelet.Store.Proofs.SettledProofs

/-!
# Who changes the status of a job

Of the endpoints only `/status` and `/observed` project a phase, and a request changes at most the status of the job in
its path. The checks before let an identity pass that may change that status, with one exception: `/observed` does not
ask an identity that is bound to the job for a scope.
-/

namespace Forgelet.Server

open DurableStore Policy

variable {ident : Identity} {x : Exchange}

variable {id : JobRunID}

theorem jobFromPath_ok {ident'} :
    jobFromPath id (some ident) = .ok ident' ↔ ident' = ident ∧ id ≠ "" ∧ ident.jobRunID = id := by
  unfold jobFromPath authorizeExecution
  by_cases hid : id = ""
  · simp [hid]
  · by_cases hbound : ident.jobRunID = id
    · simp [hid, hbound, eq_comm]
    · simp [hid, hbound]

theorem authorizeObservation_ok :
    authorizeObservation ident id = .ok () ↔ ident.hasScope scopeObservedWrite ∨ ident.jobRunID = id := by
  unfold authorizeObservation
  by_cases hscope : ident.hasScope scopeObservedWrite
  · simp [hscope]
  · by_cases hbound : ident.jobRunID = id
    · simp [hscope, hbound]
    · simp [hscope, hbound]

theorem caller_eq : x.caller = some ident ↔ auth x.verify x.authorization = .ok ident := by
  unfold Exchange.caller
  cases auth x.verify x.authorization with
  | error | ok => simp [Except.toOption]

theorem project_state (id : JobRunID) (phase : ObservedPhase) (now : Time) (st : State) :
    (project id phase now st).2 = st.withDurable (st.durable.applyObserved id phase now).2 := by
  unfold project projectObserved
  rcases st.durable.applyObserved id phase now with ⟨_ | _, s⟩
  · rfl
  · rfl

/-- The statuses after `ApplyObserved`. -/
theorem applyObserved_status (s : DurableStore) (id : JobRunID) (phase : ObservedPhase) (now : Time) (i : JobRunID) :
    ((s.applyObserved id phase now).2.jobs.lookup i).map (·.status) =
      if i = id ∧ moves s id phase then jobStatusFromPhase phase else (s.jobs.lookup i).map (·.status) := by
  unfold applyObserved moves
  cases hjob : s.jobs.lookup id with
  | none => simp
  | some job =>
    cases hterminal : job.status.isTerminal with
    | true => cases jobStatusFromPhase phase <;> simp [hterminal]
    | false =>
      cases htarget : jobStatusFromPhase phase with
      | none => simp [hterminal]
      | some target =>
        cases hforward : canAdvanceJob job.status target with
        | false => simp [hterminal, hforward]
        | true =>
          by_cases hi : i = id
          · subst hi
            -- a phase that stands for the status the job has is written too
            by_cases hsame : job.status = target
            · subst hsame
              simp [hterminal, hforward, setJob_lookup, observed_status, hjob]
            · simp [hterminal, hforward, hsame, setJob_lookup, observed_status]
          · simp [hterminal, hforward, hi, setJob_lookup]

theorem project_status (id : JobRunID) (phase : ObservedPhase) (now : Time) (st : State) (i : JobRunID) :
    (project id phase now st).2.status i ≠ st.status i ↔ i = id ∧ moves st.durable id phase := by
  rw [project_state]
  change ((st.durable.applyObserved id phase now).2.jobs.lookup i).map (·.status) ≠
    (st.durable.jobs.lookup i).map (·.status) ↔ _
  rw [applyObserved_status]
  by_cases hmoves : i = id ∧ moves st.durable id phase
  · rw [if_pos hmoves]
    refine ⟨fun _ => hmoves, fun _ hsame => ?_⟩
    obtain ⟨rfl, hmoves⟩ := hmoves
    unfold moves at hmoves
    rw [hsame] at hmoves
    cases hjob : st.durable.jobs.lookup i with
    | none | some => simp [hjob] at hmoves
  · rw [if_neg hmoves]
    exact ⟨fun h => absurd rfl h, fun h => absurd h hmoves⟩

/-- A request changes nothing, or projects a phase onto the job in its path. -/
inductive Served (x : Exchange) (st : State) : State → Prop
  | kept : Served x st st
  | reported {ident success} (caller : x.caller = some ident) (bound : ident.jobRunID = x.id)
      (allowed : ident.hasScope scopeStatusWrite) : Served x st (project x.id (resultPhase success) x.now st).2
  | observed {ident phase} (caller : x.caller = some ident) (endpoint : x.endpoint = .observed (some phase))
      (named : x.id ≠ "") (allowed : ident.hasScope scopeObservedWrite ∨ ident.jobRunID = x.id) :
      Served x st (project x.id phase x.now st).2

theorem served_handleStatus (hcaller : x.caller = some ident) (success : Option Bool) (st : State) :
    Served x st (handleStatus x.id (some ident) success x.now st).2 := by
  unfold handleStatus
  cases hpath : jobFromPath x.id (some ident) with
  | error reply => exact .kept
  | ok ident' =>
    obtain ⟨rfl, -, hbound⟩ := jobFromPath_ok.mp hpath
    dsimp only
    split
    · exact .kept
    · rename_i hscope
      cases success with
      | none => exact .kept
      | some success => exact .reported hcaller hbound (by simpa using hscope)

/-- The phases that `/observed` projects. -/
theorem handleObserved_eq (hid : id ≠ "") (hpassed : ident.hasScope scopeObservedWrite ∨ ident.jobRunID = id)
    (phase : ObservedPhase) (now : Time) (st : State) :
    handleObserved id (some ident) (some phase) now st = project id phase now st := by
  unfold handleObserved
  rw [if_neg hid]
  dsimp only
  rw [authorizeObservation_ok.mpr hpassed]

theorem served_handleObserved {phase} (hcaller : x.caller = some ident) (hend : x.endpoint = .observed phase)
    (st : State) : Served x st (handleObserved x.id (some ident) phase x.now st).2 := by
  by_cases hid : x.id = ""
  · unfold handleObserved
    rw [if_pos hid]
    exact .kept
  · cases phase with
    | none =>
      unfold handleObserved
      rw [if_neg hid]
      dsimp only
      split
      · exact .kept
      · exact .kept
    | some phase =>
      cases hpassed : authorizeObservation ident x.id with
      | error err =>
        unfold handleObserved
        rw [if_neg hid]
        dsimp only
        rw [hpassed]
        exact .kept
      | ok =>
        have hpassed := authorizeObservation_ok.mp hpassed
        rw [handleObserved_eq hid hpassed]
        exact .observed hcaller hend hid hpassed

theorem served_serve (x : Exchange) (st : State) : Served x st (x.serve st).2 := by
  unfold Exchange.serve
  cases hauth : auth x.verify x.authorization with
  | error reply => exact .kept
  | ok ident =>
    have hcaller := caller_eq.mpr hauth
    unfold Exchange.route
    cases hend : x.endpoint with
    | plan | secrets => exact .kept
    | status success => exact served_handleStatus hcaller success st
    | observed phase => exact served_handleObserved hcaller hend st
    | cacheResolve | artifactUpload | artifactDownload => exact .kept

/-- A request changes what its caller may change, unless `/observed` should have asked for a scope. -/
theorem authorized_iff (st : State) (x : Exchange) : x.Authorized st ↔ ¬x.Unscoped st := by
  constructor
  · rintro hauth ⟨ident, phase, hcaller, hend, hid, hbound, hobserved, hstatus, hmoves⟩
    have hchanged : (x.serve st).2.status x.id ≠ st.status x.id := by
      unfold Exchange.serve Exchange.route
      rw [caller_eq.mp hcaller, hend]
      show (handleObserved _ _ _ _ _).2.status x.id ≠ _
      rw [handleObserved_eq hid (.inr hbound) phase x.now st]
      exact (project_status x.id phase x.now st x.id).mpr ⟨rfl, hmoves⟩
    obtain ⟨ident', hcaller', hmay⟩ := hauth x.id hchanged
    obtain rfl := Option.mem_unique hcaller hcaller'
    rcases hmay with hmay | ⟨-, hmay⟩
    · simp [hobserved] at hmay
    · simp [hstatus] at hmay
  · intro hscoped id hchanged
    have hserved := served_serve x st
    generalize (x.serve st).2 = st' at hserved hchanged
    cases hserved with
    | kept => exact absurd rfl hchanged
    | @reported ident success hcaller hbound hallowed =>
      obtain ⟨rfl, -⟩ := (project_status _ _ _ _ _).mp hchanged
      exact ⟨ident, hcaller, .inr ⟨hbound, hallowed⟩⟩
    | @observed ident phase hcaller hend hid hallowed =>
      obtain ⟨rfl, hmoves⟩ := (project_status _ _ _ _ _).mp hchanged
      refine ⟨ident, hcaller, ?_⟩
      rcases hallowed with hobserved | hbound
      · exact .inl hobserved
      · by_contra hmay
        simp only [MayChange, not_or, not_and, Bool.not_eq_true] at hmay
        exact hscoped ⟨ident, phase, hcaller, hend, hid, hbound, hmay.1, hmay.2 hbound, hmoves⟩

theorem serve_status {st} (hauth : x.Authorized st) (hnone : x.Powerless) (id : JobRunID) :
    (x.serve st).2.status id = st.status id := by
  by_contra hchanged
  obtain ⟨ident, hcaller, hmay⟩ := hauth id hchanged
  obtain ⟨hobserved, hstatus⟩ := hnone ident hcaller
  rcases hmay with hmay | ⟨-, hmay⟩
  · simp [hobserved] at hmay
  · simp [hstatus] at hmay

theorem eachArrives_congr {P Q : State → Exchange → Prop} (h : ∀ st x, P st x ↔ Q st x) (st : State)
    (xs : List Exchange) : EachArrives P st xs ↔ EachArrives Q st xs := by
  induction xs generalizing st with
  | nil => exact Iff.rfl
  | cons x rest ih => exact and_congr (h st x) (ih (x.serve st).2)

theorem serveAll_status {st xs} (hauth : EachArrives Exchange.Authorized st xs) (hnone : ∀ x ∈ xs, x.Powerless)
    (id : JobRunID) : (serveAll st xs).status id = st.status id := by
  induction xs generalizing st with
  | nil => rfl
  | cons x rest ih =>
    have hrest := ih hauth.2 fun y hy => hnone y (List.mem_cons_of_mem x hy)
    exact hrest.trans (serve_status hauth.1 (hnone x (.head _)) id)

/-- In a sequence of requests each changes only statuses that its caller may change, exactly when `/observed` should
ask none of them for a scope. Identities with neither scope then change no status. -/
theorem requests_authorized (st : State) (xs : List Exchange) :
    (EachArrives Exchange.Authorized st xs ↔ EachArrives (fun st x => ¬x.Unscoped st) st xs) ∧
    (EachArrives (fun st x => ¬x.Unscoped st) st xs → (∀ x ∈ xs, x.Powerless) →
      ∀ id, (serveAll st xs).status id = st.status id) := by
  have hiff := eachArrives_congr authorized_iff st xs
  exact ⟨hiff, fun hscoped hnone id => serveAll_status (hiff.mpr hscoped) hnone id⟩

/-- A server with one dispatched job. -/
def dispatchedServer : State :=
  State.new.withDurable
    ([StoreOp.recordDelivery pushDelivery, .createRun (pushSeed [intentOf "a" [] ""]) 0,
      .ackDispatched "ii" ⟨"jobrun-ii", "u"⟩ 1].foldl (StoreOp.apply Wiring.unary) DurableStore.new)

/-- A request to `/observed` with a token for the job that allows to read the plan. -/
def readerObserves : Exchange where
  verify := fun _ => .ok { jobRunID := "ii", scopes := [scopePlanRead] }
  secrets := { store := none, values := ∅ }
  s3 := none
  now := 2
  authorization := "Bearer token"
  id := "ii"
  endpoint := .observed (some .succeeded)

/-- The token allows neither to observe jobs nor to report results, and the job succeeds. -/
theorem reader_changes_status : readerObserves.Powerless ∧ dispatchedServer.status "ii" = some .dispatched ∧
      (serveAll dispatchedServer [readerObserves]).status "ii" = some .succeeded ∧
      ¬EachArrives Exchange.Authorized dispatchedServer [readerObserves] := by
  have hcaller : readerObserves.caller = some { jobRunID := "ii", scopes := [scopePlanRead] } := by decide +kernel
  refine ⟨fun ident hident => ?_, by decide +kernel, by decide +kernel, fun hauth => ?_⟩
  · obtain rfl := Option.mem_unique hcaller hident
    decide
  · exact (authorized_iff _ _).mp hauth.1
      ⟨_, .succeeded, hcaller, rfl, by decide, rfl, by decide, by decide, by decide +kernel⟩

end Forgelet.Server
