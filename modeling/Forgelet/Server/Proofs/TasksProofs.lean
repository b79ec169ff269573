import Forgelet.Scheduler.Proofs.WorkersProofs
import Forgelet.Server.Proofs.DispatchProofs
import Forgelet.Server.Tasks

/-!
# Plans of dispatched jobs

What one step of a call does to the state of the server, and that every dispatched job has a plan as long as
no job is claimed before its plan is stored. A call during which no other acts is the function of
`Forgelet.Server.Server` that models it.
-/

namespace Forgelet.Server

open Compiler (JobInstance)
open DurableStore Interleaving Relation

variable {opts : Options} {st st' : State} {p p' : Task}

/-! ## Steps -/

/-- What one step of a task can do to the server. -/
inductive Effect (opts : Options) (st : State) : Task → State → Prop
  | idle {p : Task} : Effect opts st p st
  | called {p : Task} (op : StoreOp)
      (acks : ∀ id obj now, op = .ackDispatched id obj now → ∃ n uid, p = .drain (.dispatch n id (.ack uid))) :
      Effect opts st p (st.withDurable (op.apply opts.wiring st.durable))
  | ensured {p : Task} (active : ActiveStore) :
      Effect opts st p { st with stores := { st.stores with active := active } }
  | planned {d : Delivery} {r : RunID} {jobs : List JobInstance} {runs : List JobRunRecord}
      {rec : JobRunRecord} {todo : List JobRunRecord} {plan : Plan} (own : plan.jobRunID = rec.id) :
      Effect opts st (.build d r (.plan jobs runs (rec :: todo)))
        { st with plans := st.plans.insert plan.jobRunID plan }
  | planCopied {id newID : JobRunID} {plan : Plan} :
      Effect opts st (.rerequest id (.putPlan newID plan))
        { st with plans := st.plans.insert plan.jobRunID plan }
  | trusted {d : Delivery} {r : RunID} {jobs : List JobInstance} {runs : List JobRunRecord}
      {rec : JobRunRecord} {todo : List JobRunRecord} :
      Effect opts st (.build d r (.trust jobs runs rec todo))
        { st with trust := st.trust.insert rec.id (trustFor opts d) }
  | trustCopied {id newID : JobRunID} {trust : TrustLevel} (found : st.trust.lookup id = some trust) :
      Effect opts st (.rerequest id (.trust newID)) { st with trust := st.trust.insert newID trust }

theorem called_observed (opts : Options) (st : State) (p : Task) (id : JobRunID) (phase : ObservedPhase) (now : Time) :
    Effect opts st p (st.withDurable (projectObserved st.durable id phase now).2) := by
  rw [projectObserved_store]
  exact .called (.applyObserved id phase now) fun _ _ _ heq => by cases heq

theorem planned_effect (d : Delivery) (r : RunID) (now : Time) (st : State) (jobs : List JobInstance)
    (runs : List JobRunRecord) (rec : JobRunRecord) (todo : List JobRunRecord) :
    Effect opts st (.build d r (.plan jobs runs (rec :: todo))) (planned opts d now st jobs runs rec todo).1 := by
  unfold planned
  split
  · exact .idle
  · split
    · exact .idle
    · have hobserved := called_observed opts st (.build d r (.plan jobs runs (rec :: todo))) rec.id .skipped now
      split <;> rename_i hproject <;> rw [hproject] at hobserved <;> exact hobserved
    · unfold putPlan
      split
      · exact .idle
      · rename_i plan hplan
        split
        · exact .idle
        · exact .planned (buildPlan_jobRunID hplan)

theorem ack_durable (w : Stores) (faults : DispatchFaults) (id : JobRunID) (uid : String) (now : Time) :
    Worker.ack w faults id uid now = (w, (Worker.ack w faults id uid now).2) ∨ (Worker.ack w faults id uid now).1 =
        { w with durable := (w.durable.ackDispatched id ⟨crName id, uid⟩ now).2 } := by
  unfold Worker.ack
  split
  · exact .inl rfl
  · right
    split <;> rename_i hack <;> rw [hack]

theorem step_effect (h : TaskStep opts st p st' p') : Effect opts st p st' := by
  cases h with
  | ingest hstep =>
    rcases ingestStep_store hstep with rfl | ⟨op, rfl, hop⟩
    · exact .idle
    · exact .called op fun id obj now heq => absurd heq (hop id obj now)
  | rebuild | listJobs => exact .idle
  | plan now => exact planned_effect _ _ now st _ _ _ _
  | planEnd => exact .idle
  | trust => exact .trusted
  | @attempt id now =>
    have hcalled : Effect opts st (.rerequest id .attempt)
        (st.withDurable (st.durable.rerequestJob opts.wiring id now).2) :=
      .called (.rerequestJob id now) fun _ _ _ heq => by cases heq
    unfold attempted
    split <;> rename_i hattempt <;> rw [hattempt] at hcalled <;> exact hcalled
  | getPlan => exact .idle
  | putPlan =>
    unfold copiedPlan
    split
    · exact .idle
    · exact .planCopied
  | copyTrust =>
    unfold copiedTrust
    split
    · exact .idle
    · rename_i found
      exact .trustCopied found
  | sweep ends now => exact called_observed opts st _ _ _ now
  | sweepEnd => exact .idle
  | @claim n =>
    have hcalled : Effect opts st (.drain (.claim n)) (st.withDurable (st.durable.claimNextQueuedJob opts.wiring).2) :=
      .called .claimNextQueuedJob fun _ _ _ heq => by cases heq
    unfold claimed
    split <;> rename_i hclaim <;> rw [hclaim] at hcalled <;> exact hcalled
  | load => exact .idle
  | create faults =>
    unfold Worker.create
    split
    · exact .idle
    · exact .ensured _
  | @ack n id uid faults now =>
    rcases ack_durable st.stores faults id uid now with hsame | hacked
    · rw [hsame]
      exact .idle
    · rw [hacked]
      refine .called (.ackDispatched id ⟨crName id, uid⟩ now) fun i obj t heq => ?_
      cases heq
      exact ⟨n, uid, rfl⟩
  | dispatched => exact .idle
  | @release n id err => exact .called (.releaseClaim id) fun _ _ _ heq => by cases heq
  | getSecretsPlan | decide => exact .idle
  | @background op aside =>
    refine .called op fun id obj now heq => ?_
    subst heq
    cases aside

theorem Effect.inv (h : Effect opts st p st') (hi : Inv opts.wiring st.durable) : Inv opts.wiring st'.durable := by
  cases h with
  | called op acks => exact inv_step hi op
  | _ => exact hi

variable {id : JobRunID}

theorem Effect.plan_isSome (h : Effect opts st p st') (hplan : (st.plans.lookup id).isSome) :
    (st'.plans.lookup id).isSome := by
  have hinsert : ∀ plan : Plan, ((st.plans.insert plan.jobRunID plan).lookup id).isSome := by
    intro plan
    rw [GoMap.lookup_insert_ite]
    split_ifs
    · rfl
    · exact hplan
  cases h with
  | planned | planCopied => exact hinsert _
  | _ => exact hplan

/-! ## Dispatched jobs -/

theorem jobStatusFromPhase_ne_dispatched (phase : ObservedPhase) : jobStatusFromPhase phase ≠ some .dispatched := by
  intro h
  cases phase <;> cases h

theorem dispatched_of_writes {op job job'} (h : ReflTransGen (JobWrite op id) job job')
    (hop : ∀ obj now, op ≠ .ackDispatched id obj now) (hjob' : job'.status = .dispatched) :
    job.status = .dispatched := by
  induction h with
  | refl => exact hjob'
  | tail _ hwrite ih =>
    cases hwrite with
    | skip queued now => cases hjob'
    | ack waiting obj now => exact absurd rfl (hop obj now)
    | observe opened implied =>
      rw [observed_status] at hjob'
      subst hjob'
      exact absurd implied (jobStatusFromPhase_ne_dispatched _)
    | cancel opened now => cases hjob'
    | collect now => exact ih hjob'

theorem dispatched_before {W s} (hi : Inv W s) (op : StoreOp) (hop : ∀ obj now, op ≠ .ackDispatched id obj now) {job'}
    (hjob' : (op.apply W s).jobs.lookup id = some job') (hdisp : job'.status = .dispatched) :
    ∃ job, s.jobs.lookup id = some job ∧ job.status = .dispatched := by
  rcases origin_apply hi op hjob' with hnew | ⟨job, hjob, hwrites⟩
  · rw [← hnew] at hdisp
    cases hdisp
  · exact ⟨job, hjob, dispatched_of_writes hwrites hop hdisp⟩

/-- Every dispatched job has a plan. -/
def DispatchedPlanned (st : State) : Prop :=
  ∀ id job, st.durable.jobs.lookup id = some job → job.status = .dispatched →
    (st.plans.lookup id).isSome

/-- A job that is handed to the cluster has a plan. -/
def HandedPlanned (st : State) : Task → Prop
  | .drain (.dispatch _ id _) => (st.plans.lookup id).isSome
  | _ => True

theorem HandedPlanned.keep {q} (h : HandedPlanned st q) (heffect : Effect opts st p st') : HandedPlanned st' q := by
  unfold HandedPlanned at h ⊢
  split
  · exact heffect.plan_isSome h
  · trivial

theorem DispatchedPlanned.step (h : DispatchedPlanned st) (hi : Inv opts.wiring st.durable) (hp : HandedPlanned st p)
    (heffect : Effect opts st p st') : DispatchedPlanned st' := by
  intro id job' hjob' hdisp
  refine heffect.plan_isSome ?_
  cases heffect with
  | called op acks =>
    by_cases hack : ∃ obj now, op = .ackDispatched id obj now
    · obtain ⟨obj, now, heq⟩ := hack
      obtain ⟨n, uid, rfl⟩ := acks id obj now heq
      exact hp
    · obtain ⟨job, hjob, hdispatched⟩ := dispatched_before hi op (fun obj now heq => hack ⟨obj, now, heq⟩) hjob' hdisp
      exact h id job hjob hdispatched
  | _ => exact h id job' hjob' hdisp

theorem HandedPlanned.act (hstep : TaskStep opts st p st' p') (hp : HandedPlanned st p) (hguard : PlansReady opts st p)
    : HandedPlanned st' p' := by
  have heffect := step_effect hstep
  cases hstep with
  | ingest h =>
    unfold afterIngest
    split
    · split_ifs <;> trivial
    · trivial
  | claim =>
    unfold claimed
    split
    · trivial
    · rename_i job s' hclaim
      exact hguard job (by rw [hclaim])
  | load => exact hp
  | create | ack => exact hp.keep heffect
  | @dispatched n id result => cases result <;> trivial
  | _ => trivial

theorem plans_proof (opts : Options) : GuardedProof Arrives (TaskStep opts) (fun st p _ => PlansReady opts st p)
      (fun st => Inv opts.wiring st.durable ∧ DispatchedPlanned st) HandedPlanned fun _ _ _ => True where
  spawn _ harrives := by cases harrives <;> trivial
  spawn_pair _ _ _ := ⟨trivial, trivial⟩
  shared hJ hp _ hstep := ⟨(step_effect hstep).inv hJ.1, hJ.2.step hJ.1 hp (step_effect hstep)⟩
  act _ hp hguard hstep := hp.act hstep hguard
  act_pair _ _ _ _ _ _ _ := ⟨trivial, trivial⟩
  keep _ _ hq _ _ _ hstep := hq.keep (step_effect hstep)
  keep_pair _ _ _ _ _ _ _ _ := trivial

theorem inv_server_new (opts : Options) : Inv opts.wiring State.new.durable := inv_new opts.wiring

/-- In every interleaving of the server's calls in which no job is claimed before its plan is stored, every
dispatched job has a plan. -/
theorem dispatched_planned (opts : Options) (c : Tasks)
    (hreach : GuardedReaches Arrives (TaskStep opts) (fun c => PlansReady opts c.shared) Tasks.new c) (id : JobRunID)
    (job : JobRunRecord) (hjob : c.shared.durable.getJobRun id = .ok job) (hdisp : job.status = .dispatched) :
    ∃ plan, c.shared.plans.lookup id = some plan := by
  have hstart : Holds (fun st => Inv opts.wiring st.durable ∧ DispatchedPlanned st) HandedPlanned
      (fun _ _ _ => True) Tasks.new :=
    holds_idle ⟨inv_server_new opts, fun id job hjob => by cases hjob⟩
  have hc := (plans_proof opts).reaches (fun hready _ => hready) hstart hreach
  exact Option.isSome_iff_exists.mp (hc.shared.2 id job (getJobRun_eq_ok.mp hjob) hdisp)

/-! ## Calls on their own -/

/-- One step of a task with nobody else there. -/
def Alone (opts : Options) (x y : State × Task) : Prop := TaskStep opts x.1 x.2 y.1 y.2

theorem alone_step {y} (h : TaskStep opts st p st' p') (hrest : ReflTransGen (Alone opts) (st', p') y) :
    ReflTransGen (Alone opts) (st, p) y :=
  .head (show Alone opts (st, p) (st', p') from h) hrest

/-- The error of a call, if any. -/
def errorOf : Except Err Unit → Option Err
  | .ok () => none
  | .error err => some err

theorem planJobs_alone (d : Delivery) (r : RunID) (skipTime : JobRunID → Time) (jobs : List JobInstance)
    (runs : List JobRunRecord) (st : State) (todo : List JobRunRecord) :
    let out := planJobs opts d (trustFor opts d) skipTime jobs runs st todo
    ReflTransGen (Alone opts) (st, .build d r (.plan jobs runs todo))
      (out.2, .build d r (.returned (errorOf out.1))) := by
  induction todo generalizing st with
  | nil => exact alone_step .planEnd .refl
  | cons rec rest ih =>
    refine alone_step (.plan (skipTime rec.id)) ?_
    unfold planned planJobs planJob
    cases jobs.find? (·.key = rec.jobKey) with
    | none => exact .refl
    | some inst =>
      dsimp only
      cases eagerDecision d.event rec runs inst with
      | error err => exact .refl
      | ok run =>
        cases run with
        | false =>
          cases projectObserved st.durable rec.id .skipped (skipTime rec.id) with
          | mk result s =>
            cases result with
            | error err => exact .refl
            | ok => exact ih (st.withDurable s)
        | true =>
          unfold putPlan storePlan
          cases buildPlan opts.src rec d.event inst with
          | error err => exact .refl
          | ok plan =>
            dsimp only
            cases plan.digestError with
            | some err => exact .refl
            | none => exact alone_step .trust (ih _)

/-- `buildPlans` is what a call does that is left alone after it has created the run. -/
theorem buildPlans_alone (opts : Options) (d : Delivery) (r : RunID) (skipTime : JobRunID → Time) (st : State) :
    let out := buildPlans opts d r (trustFor opts d) skipTime st
    ReflTransGen (Alone opts) (st, .build d r .rebuild) (out.2, .build d r (.returned (errorOf out.1))) := by
  refine alone_step (.rebuild (opts.src.matchedJobs d.event d.payload)) ?_
  unfold buildPlans rebuilt
  cases opts.src.matchedJobs d.event d.payload with
  | error err => exact .refl
  | ok jobs =>
    refine alone_step .listJobs ?_
    unfold listed
    cases st.durable.listJobRuns r with
    | error err => exact .refl
    | ok runs => exact planJobs_alone d r skipTime jobs runs st runs

/-- `rerequest` is a `Rerequest` on its own. -/
theorem rerequest_alone (opts : Options) (id : JobRunID) (now : Time) (st : State) :
    ReflTransGen (Alone opts) (st, .rerequest id .attempt)
      ((rerequest opts id now st).2, .rerequest id (.returned (rerequest opts id now st).1)) := by
  refine alone_step (.attempt now) ?_
  unfold attempted rerequest
  cases st.durable.rerequestJob opts.wiring id now with
  | mk result s =>
    cases result with
    | error err => exact .refl
    | ok newID =>
      dsimp only
      refine alone_step .getPlan ?_
      unfold gotPlan
      cases (st.withDurable s).plans.lookup id with
      | none => exact alone_step .copyTrust .refl
      | some plan =>
        refine alone_step .putPlan ?_
        unfold copiedPlan
        dsimp only
        cases Plan.digestError { plan with jobRunID := newID } with
        | some | none => exact alone_step .copyTrust .refl

theorem dispatch_alone_drain (n : Nat) (id : JobRunID) (faults : DispatchFaults) (now : Time) (st : State) :
    ReflTransGen (Alone opts) (st, .drain (.dispatch n id .load))
      ({ st with stores := (st.stores.dispatch faults id now).2 },
        .drain (dispatched n id (st.stores.dispatch faults id now).1)) := by
  have hsteps := dispatch_steps (R := Alone opts)
    (fun w point => ({ st with stores := w }, .drain (.dispatch n id point)))
    (fun _ => .load) (fun _ => .create faults) (fun _ _ => .ack faults now) st.stores
  exact hsteps.trans (alone_step .dispatched .refl)

/-- What the loop of `DispatchOnce` does with the result of `DispatchNext`. -/
def afterNext (n : Nat) : Except Err JobRunRecord → DrainPoint
  | .ok _ => .claim (n + 1)
  | .error err => .returned n (if err = .errNoQueuedJob then none else some err)

theorem dispatchNext_alone (opts : Options) (n : Nat) (faults : DispatchFaults) (now : Time) (st : State) :
    ReflTransGen (Alone opts) (st, .drain (.claim n))
      ({ st with stores := (st.stores.dispatchNext opts.wiring faults now).2 },
        .drain (afterNext n (st.stores.dispatchNext opts.wiring faults now).1)) := by
  refine alone_step .claim ?_
  unfold Stores.dispatchNext claimed State.durable
  cases st.stores.durable.claimNextQueuedJob opts.wiring with
  | mk result durable =>
    cases result with
    | error err => exact .refl
    | ok job =>
      refine (dispatch_alone_drain n job.id faults now (st.withDurable durable)).trans ?_
      unfold State.withDurable
      dsimp only
      cases Stores.dispatch { st.stores with durable := durable } faults job.id now with
      | mk dispatched w =>
        cases dispatched with
        | ok => exact .refl
        | error err => exact alone_step .release .refl

theorem drain_alone (opts : Options) (faults : Nat → DispatchFaults) (now : Nat → Time) {fuel} (n : Nat) (st : State)
    (hi : Inv opts.wiring st.durable) (hfuel : st.durable.countQueuedJobs < fuel) :
    let out := drain opts.wiring faults now fuel st.stores
    ReflTransGen (Alone opts) (st, .drain (.claim n))
      ({ st with stores := out.stores }, .drain (.returned (n + out.moments.length) out.err)) := by
  induction fuel generalizing n st with
  | zero => omega
  | succ fuel ih =>
    have hnext := dispatchNext_alone opts n (faults fuel) (now fuel) st
    have hout := st.stores.dispatchNext_outcome hi.minted (faults fuel) (now fuel)
    rw [drain]
    refine hnext.trans ?_
    cases hcall : st.stores.dispatchNext opts.wiring (faults fuel) (now fuel) with
    | mk result w =>
      rw [hcall] at hout
      cases hout with
      | idle | released => exact .refl
      | @dispatched _ _ _ obj _ skips claimable claimed durable =>
        have hskipped : _ ≤ st.durable.countQueuedJobs := countQueuedJobs_skips skips
        have hacked := countQueuedJobs_ack claimable obj (now fuel)
        rw [← durable] at hacked
        have hrest := ih (n + 1) { st with stores := w }
          (by show Inv opts.wiring w.durable; rw [durable]; exact inv_ack (inv_skips hi skips) claimable _ _)
          (by show w.durable.countQueuedJobs < fuel; omega)
        rw [List.length_cons, Nat.add_comm _ 1, ← Nat.add_assoc]
        exact hrest

/-- `dispatchOnce` is a `DispatchOnce` on its own. -/
theorem dispatchOnce_alone (c : Circumstances) (hi : Inv opts.wiring st.durable) :
    let out := dispatchOnce opts.wiring c st.stores
    ReflTransGen (Alone opts) (st, .drain .sweep)
      ({ st with stores := out.stores }, .drain (.returned out.moments.length out.err)) := by
  have hsweep : ReflTransGen (Alone opts) (st, .drain .sweep)
      (st.withDurable (swept c st.stores).durable, .drain .sweep) := by
    refine evaluateDeferredConditions_invariant c.order c.sweepTime
      (P := fun s => ReflTransGen (Alone opts) (st, .drain .sweep) (st.withDurable s, .drain .sweep))
      (fun s id phase now hends hreach => ?_) .refl
    refine hreach.trans ?_
    rw [← projectObserved_store]
    exact alone_step (.sweep hends.symm now) .refl
  have hdrain := drain_alone opts c.faults c.drainTime 0 (st.withDurable (swept c st.stores).durable)
    (inv_evaluateDeferredConditions c.order c.sweepTime hi) (Nat.lt_succ_self _)
  have hrun := hsweep.trans (alone_step .sweepEnd hdrain)
  rw [Nat.zero_add] at hrun
  exact hrun

theorem alone_ends {Q : State × Task → Prop} (h : TaskStep opts st p st' p')
    (hrest : ∃ y, ReflTransGen (Alone opts) (st', p') y ∧ Q y) : ∃ y, ReflTransGen (Alone opts) (st, p) y ∧ Q y := by
  obtain ⟨y, hy, hQ⟩ := hrest
  exact ⟨y, alone_step h hy, hQ⟩

theorem ingest_alone (opts : Options) (d : Delivery) (now : Time) (skipTime : JobRunID → Time) (st : State) :
    ∃ y, ReflTransGen (Alone opts) (st, .ingest (.begin d)) y ∧ y.1 = (ingest opts d now skipTime st).2 := by
  refine alone_ends (.ingest (.record rfl)) ?_
  unfold ingest Forgelet.ingest IngestCall.record
  dsimp only [IngestCall.begin]
  rcases st.durable.recordDelivery opts.wiring d with ⟨err | ⟨rec, _⟩, s⟩
  · exact ⟨_, .refl, rfl⟩
  dsimp only
  rcases rec.runID with _ | runID
  swap
  · exact ⟨_, .refl, by simp⟩
  have hcompile : TaskStep opts (st.withDurable s) (.ingest ⟨d, [], .compile rec.payload⟩) (st.withDurable s) _ :=
    .ingest (.compile rfl (opts.src.compile d.event rec.payload))
  refine alone_ends hcompile ?_
  unfold IngestCall.compiled
  rcases opts.src.compile d.event rec.payload with err | jobs
  · exact ⟨_, .refl, rfl⟩
  dsimp only
  rcases IngestCall.invalid jobs with _ | msg
  swap
  · exact ⟨_, .refl, rfl⟩
  dsimp only
  split_ifs
  · exact ⟨_, .refl, rfl⟩
  refine alone_ends (.ingest (.create rfl now)) ?_
  unfold IngestCall.create IngestCall.seed
  rw [show (st.withDurable s).durable = s from rfl]
  dsimp only
  rcases s.createRun opts.wiring ⟨d.key, d.event, jobs⟩ now with ⟨err | ⟨run, created⟩, s'⟩
  · exact ⟨_, .refl, rfl⟩
  dsimp only
  split_ifs with hnew
  · exact ⟨_, .refl, rfl⟩
  -- the run is new, and its plans are built
  obtain ⟨hid, rfl⟩ : run.id ≠ "" ∧ created = true := by simpa using hnew
  have hbuild := buildPlans_alone opts d run.id skipTime (st.withDurable s')
  generalize buildPlans opts d run.id (trustFor opts d) skipTime (st.withDurable s') = out at hbuild ⊢
  refine ⟨_, by simpa [afterIngest, IngestCall.finish, hid, State.withDurable] using hbuild, ?_⟩
  rcases out with ⟨_ | _, st'⟩ <;> rfl

theorem call_alone (hi : Inv opts.wiring st.durable) (call : Call) :
    ∃ p y, Arrives p ∧ ReflTransGen (Alone opts) (st, p) y ∧ y.1 = call.apply opts st := by
  cases call with
  | ingest d now skipTime =>
    obtain ⟨y, hy⟩ := ingest_alone opts d now skipTime st
    exact ⟨_, y, .ingest d, hy⟩
  | applyObserved id phase now =>
    exact ⟨_, _, .background (.applyObserved id phase now) trivial, alone_step .background .refl, rfl⟩
  | cancelRun id now => exact ⟨_, _, .background (.cancelRun id now) trivial, alone_step .background .refl, rfl⟩
  | rerequest id now => exact ⟨_, _, .rerequest id, rerequest_alone opts id now st, rfl⟩
  | dispatchOnce c => exact ⟨_, _, .drain, dispatchOnce_alone c hi, rfl⟩

theorem reachable_tasks {c : Tasks} (h : Interleaving.Reaches Arrives (TaskStep opts) Tasks.new c) :
    Reachable opts.wiring c.shared.durable := by
  induction h with
  | refl => exact .refl
  | tail _ hturn ih =>
    cases hturn with
    | spawn => exact ih
    | act _ stepped =>
      cases step_effect stepped with
      | called op => exact ih.tail ⟨op, rfl⟩
      | _ => exact ih

theorem tasks_of_reaches (h : Reaches opts (fun _ _ => True) st) :
    ∃ c, Interleaving.Reaches Arrives (TaskStep opts) Tasks.new c ∧ c.shared = st := by
  induction h with
  | refl => exact ⟨Tasks.new, .refl, rfl⟩
  | tail _ hstep ih =>
    obtain ⟨call, -, rfl⟩ := hstep
    obtain ⟨c, hc, rfl⟩ := ih
    obtain ⟨p, y, harrives, halone, hy⟩ := call_alone (inv_reachable (reachable_tasks hc)) call
    exact ⟨_, hc.trans (reaches_alone harrives halone), hy⟩

/-- What calls reach that are made one at a time is reached by calls at the same time, and these act on the durable
store by its operations only. -/
theorem calls_refine (opts : Options) :
    (∀ st, Reaches opts (fun _ _ => True) st →
      ∃ c, Interleaving.Reaches Arrives (TaskStep opts) Tasks.new c ∧ c.shared = st) ∧
    ∀ c, Interleaving.Reaches Arrives (TaskStep opts) Tasks.new c → Reachable opts.wiring c.shared.durable := by
  exact ⟨fun st => tasks_of_reaches, fun c => reachable_tasks⟩

theorem claimed_ingest (opts : Options) (d : Delivery) (now : Time) (skipTime : JobRunID → Time) (st : State) :
    (ingest opts d now skipTime st).2.durable.claimed = st.durable.claimed := by
  have hrecord := claimed_apply opts.wiring st.durable (.recordDelivery d) rfl
  refine ingest_cases (P := fun t => t.claimed = st.durable.claimed) opts st d now skipTime hrecord (fun l => hrecord)
    fun {r _} hout => ?_
  cases hout with
  | quiet nothing => exact absurd rfl (nothing r)
  | created =>
    exact buildPlans_invariant (P := fun t => t.claimed = st.durable.claimed) (fun t id now h =>
      (claimed_apply opts.wiring t (.applyObserved id .skipped now) rfl).trans h) _ hrecord

/-- Whatever calls the server has had and whatever has failed in them, no job is left claimed. -/
theorem calls_unclaimed (opts : Options) (calls : List Call) (id : JobRunID) :
    (afterCalls opts calls).durable.isClaimed id = false := by
  have h := reaches_afterCalls opts calls
  generalize afterCalls opts calls = st at h
  induction h with
  | refl => rfl
  | @tail st _ hbefore hstep ih =>
    obtain ⟨call, -, rfl⟩ := hstep
    have hkeep : ∀ {t : DurableStore}, t.claimed = st.durable.claimed → t.isClaimed id = false := by
      intro t heq
      rw [isClaimed, heq]
      exact ih
    cases call with
    | ingest d now skipTime => exact hkeep (claimed_ingest opts d now skipTime st)
    | applyObserved i phase now =>
      exact hkeep (claimed_apply opts.wiring st.durable (.applyObserved i phase now) rfl)
    | cancelRun r now =>
      show (st.durable.cancelRun r now).2.isClaimed id = false
      obtain heq | ⟨run, -, heq⟩ := cancelRun_eq st.durable r now <;> rw [heq]
      · exact ih
      · show (cancelJobs now st.durable _).isClaimed id = false
        rw [isClaimed_cancelJobs, ih, ite_self]
    | rerequest i now =>
      exact hkeep ((congrArg _ (rerequest_durable opts i now st)).trans
        (claimed_apply opts.wiring st.durable (.rerequestJob i now) rfl))
    | dispatchOnce c =>
      obtain ⟨tasks, htasks, rfl⟩ := tasks_of_reaches hbefore
      have hi := inv_evaluateDeferredConditions c.order c.sweepTime (inv_reachable (reachable_tasks htasks))
      refine (isClaimed_drain c.faults c.drainTime hi (Nat.lt_succ_self _) id).trans (hkeep ?_)
      exact evaluateDeferredConditions_invariant c.order c.sweepTime
        (P := fun t => t.claimed = tasks.shared.durable.claimed)
        (fun t i phase now _ h => (claimed_apply opts.wiring t (.applyObserved i phase now) rfl).trans h) rfl

/-! ## Schedules -/

theorem exec_step {now} (h : Task.exec opts now st p = some (st', p')) : TaskStep opts st p st' p' := by
  unfold Task.exec at h
  split at h
  · split at h <;> rename_i hpoint <;> cases h
    · exact .ingest (.record hpoint)
    · exact .ingest (.compile hpoint _)
    · exact .ingest (.create hpoint now)
  all_goals cases h
  · exact .rebuild _
  · exact .listJobs
  · exact .plan now
  · exact .planEnd
  · exact .trust
  · exact .attempt now
  · exact .getPlan
  · exact .putPlan
  · exact .copyTrust
  · exact .sweepEnd
  · exact .claim
  · exact .load
  · exact .create .none
  · exact .ack .none now
  · exact .dispatched
  · exact .release
  · exact .getSecretsPlan
  · exact .decide
  · exact .background

theorem reaches_schedule {ps : List Task} (hps : ∀ p ∈ ps, Arrives p) (schedule : List Nat) {c : Tasks}
    (hplay : play (Task.exec opts 0) schedule ⟨State.new, ps⟩ = some c) :
    Interleaving.Reaches Arrives (TaskStep opts) Tasks.new c :=
  (reaches_spawn ps hps).trans (reaches_of_play exec_step schedule hplay)

theorem guardedReaches_schedule (opts : Options) (ok : Tasks → Task → Prop) [∀ c p, Decidable (ok c p)] {ps : List Task}
    (hps : ∀ p ∈ ps, Arrives p) (schedule : List Nat) {c : Tasks}
    (hplay : playGuarded ok (Task.exec opts 0) schedule ⟨State.new, ps⟩ = some c) :
    GuardedReaches Arrives (TaskStep opts) ok Tasks.new c :=
  (guardedReaches_spawn [] ps hps).trans (guardedReaches_of_playGuarded exec_step schedule hplay)

/-- A source whose only workflow has a job `deploy` that reads the secret `TOKEN`. -/
def deploySource : WorkflowSource where
  dir := ""
  readDir _ := .ok []
  fetcher := some fun _ _ => .ok [{ name := "ci.yml", data := [] }]
  actionFetcher := none
  parse name _ := .ok
    { file := name
      name := name
      on :=
        { push := some { branches := [], branchesIgnore := [] }
          pullRequest := some { branches := [], branchesIgnore := [] }
          schedule := [] }
      jobs := [{ Compiler.scriptJob "deploy" [] ∅ with
        env := some ((∅ : GoMap String String).insert "TOKEN" "$\x7b\x7b secrets.TOKEN \x7d\x7d") }] }
  baseRef _ := "main"

/-- A server with that source, to which every pull request comes from a fork. -/
def deployServer : Options where
  wiring := Wiring.unary
  src := deploySource
  headFork _ := some true

/-- A push, a dispatch and a second delivery of the push. -/
def replayedPush : List Task := [.ingest (.begin pushDelivery), .drain .sweep, .ingest (.begin pushDelivery)]

theorem replayedPush_arrives (p : Task) (hp : p ∈ replayedPush) : Arrives p := by
  simp only [replayedPush, List.mem_cons, List.not_mem_nil, or_false] at hp
  rcases hp with rfl | rfl | rfl
  · exact .ingest pushDelivery
  · exact .drain
  · exact .ingest pushDelivery

/-- The plan is stored before the job is dispatched. -/
theorem dispatched_planned_push : ∃ c job plan,
      GuardedReaches Arrives (TaskStep deployServer) (fun c => PlansReady deployServer c.shared) Tasks.new c ∧
      c.shared.durable.getJobRun "ii" = .ok job ∧ job.status = .dispatched ∧
      c.shared.plans.lookup "ii" = some plan := by
  have hreach := guardedReaches_schedule deployServer (fun c => PlansReady deployServer c.shared)
    replayedPush_arrives [0, 0, 0, 0, 0, 0, 0, 1, 1, 1, 1, 1] rfl
  obtain ⟨plan, hplan⟩ := dispatched_planned deployServer _ hreach "ii" _ rfl rfl
  exact ⟨_, _, plan, hreach, rfl, rfl, hplan⟩

/-- `Ingest` is cut off after it created the run: its job is dispatched and never has a plan. -/
theorem dispatched_without_plan : ∃ (c : Tasks) (job : JobRunRecord) (call : IngestCall),
      Interleaving.Reaches Arrives (TaskStep deployServer) Tasks.new c ∧
      c.shared.durable.getJobRun "ii" = .ok job ∧ job.status = .dispatched ∧ c.shared.plans.lookup "ii" = none ∧
      c.procs[2]? = some (.ingest call) ∧ call.point = .returned (.ok ("i", false)) :=
  ⟨_, _, _, reaches_schedule replayedPush_arrives [0, 0, 0, 1, 1, 1, 1, 1, 1, 1, 2] rfl, rfl, rfl, rfl, rfl,
    rfl⟩

end Forgelet.Server
