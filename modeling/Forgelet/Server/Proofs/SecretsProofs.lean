import Forgelet.Server.Proofs.TasksProofs

/-!
# Secrets of pull requests from forks

A request for secrets is decided by the trust level of the job, which is stored after its plan. As long as no request
for a job of a fork's run is decided before, none of its answers has a value. Every trust level stored for a job of a
run is the one of the delivery it was created for.
-/

namespace Forgelet.Server

open Compiler (JobInstance)
open DurableStore Interleaving Relation Policy

variable {opts : Options} {st st' : State} {p p' q : Task} {id : JobRunID} {r r' : RunID}

/-! ## The jobs of a run -/

/-- The job belongs to the run. -/
def InRun (st : State) (id : JobRunID) (r : RunID) : Prop :=
  ∃ job, st.durable.jobs.lookup id = some job ∧ job.runID = r

theorem InRun.unique (h : InRun st id r) (h' : InRun st id r') : r = r' := by
  obtain ⟨job, hjob, rfl⟩ := h
  obtain ⟨job', hjob', rfl⟩ := h'
  rw [Option.mem_unique hjob hjob']

theorem Effect.inRun (h : Effect opts st p st') (hi : Inv opts.wiring st.durable) (hjob : InRun st id r) :
    InRun st' id r := by
  obtain ⟨job, hjob, hrun⟩ := hjob
  cases h with
  | called op acks =>
    obtain ⟨job', hjob', hwrites⟩ := carried_apply hi op id job hjob
    exact ⟨job', hjob', (JobRunRecord.of_asCreated_eq (writes_asCreated hwrites)).2.1.trans hrun⟩
  | _ => exact ⟨job, hjob, hrun⟩

theorem Effect.inRun_before (h : Effect opts st p st') (hi : Inv opts.wiring st.durable) (hknown : ∃ r, InRun st id r)
    (hjob : InRun st' id r) : InRun st id r := by
  obtain ⟨r₀, hr₀⟩ := hknown
  rw [← (h.inRun hi hr₀).unique hjob]
  exact hr₀

theorem InRun.ne_mint (h : InRun st id r) (hi : Inv opts.wiring st.durable) :
    r ≠ opts.wiring.ids.mint st.durable.minted := by
  obtain ⟨job, hjob, rfl⟩ := h
  obtain ⟨n, hn, heq⟩ := hi.minted.job_run_minted hjob
  intro hmint
  have := opts.wiring.ids.mint_injective (heq.symm.trans hmint)
  omega

theorem inRun_of_listed (hi : Inv opts.wiring st.durable) {rec} (h : rec ∈ st.durable.jobsOf r) :
    InRun st rec.id r := by
  obtain ⟨id, hrec, hrun⟩ := hi.listing.of_mem h
  rw [hi.minted.job_id hrec]
  exact ⟨rec, hrec, hrun⟩

/-! ## What is known of a call -/

/-- The jobs that a `buildPlans` has still to plan or to trust. -/
def BuildPoint.pending : BuildPoint → List JobRunRecord
  | .plan _ _ todo => todo
  | .trust _ _ rec todo => rec :: todo
  | _ => []

/-- The trust levels stored for jobs of the run are that of the delivery. -/
def TrustAgrees (opts : Options) (st : State) (d : Delivery) (r : RunID) : Prop :=
  ∀ id trust, st.trust.lookup id = some trust → InRun st id r → trust = trustFor opts d

/-- The two jobs belong to one run. -/
def SameRun (st : State) (id newID : JobRunID) : Prop := ∃ r, InRun st id r ∧ InRun st newID r

/-- What a task in flight still has to do is for jobs that are there. -/
def Accounted (opts : Options) (st : State) : Task → Prop
  | .build d r point =>
    (∃ id, InRun st id r) ∧ (∀ rec ∈ point.pending, InRun st rec.id r) ∧ TrustAgrees opts st d r
  | .rerequest id (.getPlan newID) | .rerequest id (.trust newID) => SameRun st id newID
  | .rerequest id (.putPlan newID plan) => plan.jobRunID = newID ∧ SameRun st id newID
  | .secrets _ req (.decide _ _ _) => ∃ r, InRun st req.id r
  | .secrets _ req (.returned (.secrets out)) => out = ∅ ∨ ∃ r, InRun st req.id r
  | _ => True

/-- A delivery has one run, and requests for a fork's jobs get no value. -/
def Denied (opts : Options) (st : State) (p q : Task) : Prop :=
  (∀ d d' r point point', p = .build d r point → q = .build d' r point' → d = d') ∧
    ∀ d r point src req out, p = .build d r point → q = .secrets src req (.returned (.secrets out)) →
      trustFor opts d = .fork → InRun st req.id r → out = ∅

/-- The job of every plan and of every trust level is stored. -/
structure Known (opts : Options) (st : State) : Prop where
  inv : Inv opts.wiring st.durable
  plans : ∀ id plan, st.plans.lookup id = some plan → ∃ r, InRun st id r
  trust : ∀ id trust, st.trust.lookup id = some trust → ∃ r, InRun st id r

theorem known_new (opts : Options) : Known opts State.new :=
  ⟨inv_server_new opts, fun _ _ h => (by cases h), fun _ _ h => by cases h⟩

/-! ## Steps -/

theorem SameRun.keep {newID} (h : SameRun st id newID) (heffect : Effect opts st p st')
    (hi : Inv opts.wiring st.durable) : SameRun st' id newID := by
  obtain ⟨r, hid, hnew⟩ := h
  exact ⟨r, heffect.inRun hi hid, heffect.inRun hi hnew⟩

theorem Known.step (hk : Known opts st) (hp : Accounted opts st p) (heffect : Effect opts st p st') :
    Known opts st' := by
  have hkeep : ∀ {id}, (∃ r, InRun st id r) → ∃ r, InRun st' id r :=
    fun ⟨r, hr⟩ => ⟨r, heffect.inRun hk.inv hr⟩
  refine ⟨heffect.inv hk.inv, fun id plan hplan => hkeep ?_, fun id trust htrust => hkeep ?_⟩
  · cases heffect with
    | planned own =>
      rcases GoMap.lookup_insert_cases hplan with ⟨rfl, -⟩ | hold
      · rw [own]
        exact ⟨_, hp.2.1 _ (.head _)⟩
      · exact hk.plans id plan hold
    | planCopied =>
      rcases GoMap.lookup_insert_cases hplan with ⟨rfl, -⟩ | hold
      · obtain ⟨hown, r, -, hnew⟩ := hp
        rw [hown]
        exact ⟨r, hnew⟩
      · exact hk.plans id plan hold
    | _ => exact hk.plans id plan hplan
  · cases heffect with
    | trusted =>
      rcases GoMap.lookup_insert_cases htrust with ⟨rfl, -⟩ | hold
      · exact ⟨_, hp.2.1 _ (.head _)⟩
      · exact hk.trust id trust hold
    | trustCopied found =>
      rcases GoMap.lookup_insert_cases htrust with ⟨rfl, -⟩ | hold
      · obtain ⟨r, -, hnew⟩ := hp
        exact ⟨r, hnew⟩
      · exact hk.trust id trust hold
    | _ => exact hk.trust id trust htrust

variable {d : Delivery} {src : SecretSource}

theorem TrustAgrees.step (h : TrustAgrees opts st d r) (hk : Known opts st) (hp : Accounted opts st p)
    (heffect : Effect opts st p st') (hsame : ∀ d' point, p = .build d' r point → d' = d) :
    TrustAgrees opts st' d r := by
  intro id trust htrust hjob
  have hbefore : st.trust.lookup id = some trust → trust = trustFor opts d :=
    fun hold => h id trust hold (heffect.inRun_before hk.inv (hk.trust id trust hold) hjob)
  cases heffect with
  | trusted =>
    rcases GoMap.lookup_insert_cases htrust with ⟨rfl, rfl⟩ | hold
    · have hrun := (hp.2.1 _ (.head _)).unique hjob
      subst hrun
      rw [hsame _ _ rfl]
    · exact hbefore hold
  | trustCopied found =>
    rcases GoMap.lookup_insert_cases htrust with ⟨rfl, rfl⟩ | hold
    · obtain ⟨r₀, hid, hnew⟩ := hp
      have hrun := hnew.unique hjob
      subst hrun
      exact h _ _ found hid
    · exact hbefore hold
  | _ => exact hbefore htrust

theorem afterIngest_cases (call : IngestCall) :
    afterIngest call = .ingest call ∨ ∃ r, call.point = .returned (.ok (r, true)) ∧
      afterIngest call = .build call.delivery r .rebuild := by
  unfold afterIngest
  split
  · rename_i r hpoint
    split_ifs
    · exact .inl rfl
    · exact .inr ⟨r, hpoint, rfl⟩
  · exact .inl rfl

theorem build_origin (hi : Inv opts.wiring st.durable) {point} (h : TaskStep opts st p st' (.build d r point)) :
    (∃ point₀, p = .build d r point₀) ∨
      (point = .rebuild ∧ r = opts.wiring.ids.mint st.durable.minted ∧ (∃ id, InRun st' id r) ∧
        st'.trust = st.trust) := by
  generalize hp' : Task.build d r point = p' at h
  cases h with
  | @ingest call call' s' hstep =>
    right
    have heffect := ingestStep_effect hi hstep
    rcases afterIngest_cases call' with hsame | ⟨runID, hpoint, hbuild⟩
    · rw [hsame] at hp'
      cases hp'
    · rw [hbuild] at hp'
      cases hp'
      cases heffect with
      | quiet bound jobs result => exact absurd (result _ _ hpoint).1 (by decide)
      | @created record now recorded unbound nonempty =>
        cases hpoint
        obtain ⟨intent, rest, hjobs⟩ := List.exists_cons_of_ne_nil nonempty
        have hmem : newJob (opts.wiring.ids.mint (st.durable.minted + 1))
            (opts.wiring.ids.mint st.durable.minted) intent now ∈
            newJobs opts.wiring st.durable call.seed.jobs now := by
          rw [show call.seed.jobs = intent :: rest from hjobs]
          exact (.head _)
        exact ⟨rfl, rfl, ⟨_, _, newJobs_lookup hi.minted hmem, rfl⟩, rfl⟩
  | rebuild | listJobs | plan | planEnd | trust => cases hp'; exact .inl ⟨_, rfl⟩
  | _ => cases hp'

theorem checkRequest_ne_secrets {req out} : checkRequest req ≠ .error (.secrets out) := by
  unfold checkRequest
  intro h
  split at h
  · cases h
  · split at h
    · cases h
    · split at h
      · cases h
      · split at h
        · cases h
        · split at h <;> cases h

theorem answer_origin {req out} (h : TaskStep opts st p st' (.secrets src req (.returned (.secrets out)))) :
    ∃ ident requested plan, p = .secrets src req (.decide ident requested plan) ∧ st' = st ∧
      respond src ident requested plan (st.trust.lookup req.id) = .secrets out := by
  generalize hp' : Task.secrets src req (.returned (.secrets out)) = p' at h
  cases h with
  | @ingest _ call' =>
    rcases afterIngest_cases call' with heq | ⟨r, -, heq⟩ <;> rw [heq] at hp' <;> cases hp'
  | getSecretsPlan =>
    unfold gotSecretsPlan at hp'
    split at hp'
    · rename_i response hcheck
      cases hp'
      exact absurd hcheck checkRequest_ne_secrets
    · split at hp' <;> cases hp'
  | @decide src' req' ident requested plan =>
    injection hp' with hsrc hreq hpoint
    subst hsrc hreq
    injection hpoint with hresponse
    exact ⟨ident, requested, plan, rfl, rfl, hresponse.symm⟩
  | _ => cases hp'

theorem Accounted.keep (hq : Accounted opts st q) (hk : Known opts st) (hp : Accounted opts st p)
    (heffect : Effect opts st p st') (hpair : Denied opts st p q) : Accounted opts st' q := by
  have hkeep : ∀ {id}, (∃ r, InRun st id r) → ∃ r, InRun st' id r :=
    fun ⟨r, hr⟩ => ⟨r, heffect.inRun hk.inv hr⟩
  unfold Accounted at hq ⊢
  split
  · rename_i d r point
    obtain ⟨⟨id, hid⟩, hpending, hagrees⟩ := hq
    exact ⟨⟨id, heffect.inRun hk.inv hid⟩, fun rec hrec => heffect.inRun hk.inv (hpending rec hrec),
      hagrees.step hk hp heffect fun d' point' hbuild => hpair.1 d' d r point' point hbuild rfl⟩
  · exact SameRun.keep hq heffect hk.inv
  · exact SameRun.keep hq heffect hk.inv
  · exact ⟨hq.1, hq.2.keep heffect hk.inv⟩
  · exact hkeep hq
  · exact hq.imp_right hkeep
  · trivial

theorem listed_pending (hi : Inv opts.wiring st.durable) (jobs : List JobInstance) :
    ∀ rec ∈ (listed st.durable r jobs).pending, InRun st rec.id r := by
  unfold listed listJobRuns
  cases st.durable.runs.lookup r with
  | none => exact fun rec hrec => by cases hrec
  | some run => exact fun rec hrec => inRun_of_listed hi hrec

theorem planned_pending (d : Delivery) (now : Time) (st : State) (jobs : List JobInstance) (runs : List JobRunRecord)
    (rec : JobRunRecord) (todo : List JobRunRecord) :
    (planned opts d now st jobs runs rec todo).2.pending ⊆ rec :: todo := by
  unfold planned
  split
  · exact List.nil_subset _
  · split
    · exact List.nil_subset _
    · split
      · exact List.nil_subset _
      · exact List.subset_cons_self ..
    · unfold putPlan
      split
      · exact List.nil_subset _
      · split
        · exact List.nil_subset _
        · exact List.Subset.refl _

/-- `buildPlans` goes on with jobs it had or has just listed. -/
theorem build_pending (hi : Inv opts.wiring st.durable) {point point'}
    (h : TaskStep opts st (.build d r point) st' (.build d r point'))
    (hpending : ∀ rec ∈ point.pending, InRun st rec.id r) : ∀ rec ∈ point'.pending, InRun st rec.id r := by
  generalize hp' : Task.build d r point' = p' at h
  cases h with
  | rebuild result =>
    cases hp'
    cases result <;> exact fun rec hrec => by cases hrec
  | listJobs =>
    cases hp'
    exact listed_pending hi _
  | plan now =>
    cases hp'
    exact fun rec hrec => hpending rec (planned_pending _ now st _ _ _ _ hrec)
  | planEnd =>
    cases hp'
    exact fun rec hrec => by cases hrec
  | trust =>
    cases hp'
    exact fun rec hrec => hpending rec (.tail _ hrec)

theorem attempted_accounted (hi : Inv opts.wiring st.durable) (id : JobRunID) (now : Time) :
    Accounted opts (attempted opts id now st).1 (.rerequest id (attempted opts id now st).2) := by
  unfold attempted
  have hout := rerequestJob_outcome opts.wiring st.durable id now
  generalize st.durable.rerequestJob opts.wiring id now = out at hout
  cases hout with
  | missing absent => trivial
  | existing found listed key next => exact ⟨_, ⟨_, found, rfl⟩, inRun_of_listed hi listed⟩
  | orphan found unstored => trivial
  | attempt found last stored =>
    exact ⟨_, ⟨_, reattempted_kept hi found, rfl⟩, ⟨_, reattempted_new, rfl⟩⟩

theorem trustAgrees_new (hk : Known opts st) (heffect : Effect opts st p st') (htrust : st'.trust = st.trust)
    (d : Delivery) : TrustAgrees opts st' d (opts.wiring.ids.mint st.durable.minted) := by
  intro id trust hfound hjob
  rw [htrust] at hfound
  exact absurd rfl ((heffect.inRun_before hk.inv (hk.trust id trust hfound) hjob).ne_mint hk.inv)

theorem gotSecretsPlan_accounted (hk : Known opts st) (src : SecretSource) (req : SecretsRequest) :
    Accounted opts st (.secrets src req (gotSecretsPlan st req)) := by
  unfold gotSecretsPlan
  split
  · rename_i response hcheck
    cases response with
    | httpError text code => trivial
    | secrets out => exact absurd hcheck checkRequest_ne_secrets
  · split
    · trivial
    · rename_i plan hplan
      exact hk.plans req.id plan hplan

theorem Accounted.act (hp : Accounted opts st p) (hk : Known opts st) (h : TaskStep opts st p st' p') :
    Accounted opts st' p' := by
  have heffect := step_effect h
  -- what is known of a `buildPlans` follows from where it comes from
  have hbuild : ∀ d r point, p' = .build d r point → Accounted opts st' (.build d r point) := by
    rintro d r point rfl
    rcases build_origin hk.inv h with ⟨point₀, rfl⟩ | ⟨rfl, rfl, hjob, htrust⟩
    · have ⟨⟨id, hid⟩, hpending, hagrees⟩ := hp
      refine ⟨⟨id, heffect.inRun hk.inv hid⟩, fun rec hrec => ?_, ?_⟩
      · exact heffect.inRun hk.inv (build_pending hk.inv h hpending rec hrec)
      · refine hagrees.step hk hp heffect fun d' point' heq => ?_
        cases heq
        rfl
    · exact ⟨hjob, fun rec hrec => (by cases hrec), trustAgrees_new hk heffect htrust d⟩
  cases h with
  | @ingest _ call' =>
    rcases afterIngest_cases call' with heq | ⟨r, -, heq⟩
    · rw [heq]
      trivial
    · rw [heq]
      exact hbuild _ _ _ heq
  | rebuild | listJobs | plan | planEnd | trust => exact hbuild _ _ _ rfl
  | attempt now => exact attempted_accounted hk.inv _ now
  | getPlan =>
    unfold gotPlan
    split
    · exact hp
    · exact ⟨rfl, hp⟩
  | putPlan => exact SameRun.keep hp.2 heffect hk.inv
  | getSecretsPlan => exact gotSecretsPlan_accounted hk _ _
  | decide => exact .inr hp
  | _ => trivial

/-! ## Answers -/

theorem collectValues_none {refs} (h : ∀ r ∈ refs, src.value r = none) (out : GoMap String String) :
    collectValues src out refs = out := by
  induction refs with
  | nil => rfl
  | cons ref rest ih =>
    rw [List.forall_mem_cons] at h
    rw [collectValues, h.1]
    exact ih h.2

theorem decideSecrets_allowed {ident requested refs trust ref}
    (h : ref ∈ (decideSecrets ident requested refs trust).allowed) :
    trust ≠ some .fork ∧ ref ∈ requested ∧ ref ∈ refs := by
  unfold decideSecrets at h
  split_ifs at h with hscope hfork
  · cases h
  · cases h
  · obtain ⟨hrequested, hrefs⟩ := List.mem_filter.mp h
    exact ⟨hfork, hrequested, of_decide_eq_true hrefs⟩

theorem respond_empty {ident requested plan trust}
    (h : trust = some .fork ∨ ∀ r ∈ requested, r ∈ planRefs plan → src.value r = none) :
    respond src ident requested plan trust = .secrets ∅ := by
  unfold respond
  rw [collectValues_none]
  intro ref href
  obtain ⟨hfork, hrequested, hrefs⟩ := decideSecrets_allowed href
  exact h.elim (fun heq => absurd heq hfork) fun hnone => hnone ref hrequested hrefs

/-- A request for a fork's job is decided once its trust level is stored, or has no value. -/
def DecidedReady (opts : Options) (st : State) (p q : Task) : Prop :=
  ∀ src req ident requested plan d r point, p = .secrets src req (.decide ident requested plan) →
    q = .build d r point → trustFor opts d = .fork → InRun st req.id r →
    (st.trust.lookup req.id).isSome ∨ ∀ ref ∈ requested, ref ∈ planRefs plan → src.value ref = none

theorem decidedReady_of_trustReady {c} (h : TrustReady opts c p) (hq : q ∈ c.procs) :
    DecidedReady opts c.shared p q := by
  rintro src req ident requested plan d r point rfl rfl hfork ⟨job, hjob, rfl⟩
  exact h job (getJobRun_eq_ok.mpr hjob) ⟨_, hq, rfl, hfork⟩

theorem denied_keep {q₁ q₂} (hk : Known opts st) (hq₂ : Accounted opts st q₂) (heffect : Effect opts st p st')
    (h : Denied opts st q₁ q₂) : Denied opts st' q₁ q₂ := by
  refine ⟨h.1, ?_⟩
  rintro d r point src req out rfl rfl hfork hjob
  rcases hq₂ with hempty | hknown
  · exact hempty
  · exact h.2 d r point src req out rfl rfl hfork (heffect.inRun_before hk.inv hknown hjob)

section

variable (hk : Known opts st) (hq : Accounted opts st q) (h : TaskStep opts st p st' p')
include hk hq h

/-- A call that comes to `buildPlans` and one that does not act. -/
theorem denied_act
    (hpair : Denied opts st p q) : Denied opts st' p' q := by
  have heffect := step_effect h
  refine ⟨?_, ?_⟩
  · rintro d d' r point point' rfl rfl
    rcases build_origin hk.inv h with ⟨point₀, rfl⟩ | ⟨-, rfl, -, -⟩
    · exact hpair.1 d d' r point₀ point' rfl rfl
    · obtain ⟨⟨id, hid⟩, -⟩ := hq
      exact absurd rfl (hid.ne_mint hk.inv)
  · rintro d r point src req out rfl rfl hfork hjob
    rcases hq with hempty | hknown
    · exact hempty
    · have hold := heffect.inRun_before hk.inv hknown hjob
      rcases build_origin hk.inv h with ⟨point₀, rfl⟩ | ⟨-, rfl, -, -⟩
      · exact hpair.2 d r point₀ src req out rfl rfl hfork hold
      · exact absurd rfl (hold.ne_mint hk.inv)

theorem denied_act'
    (hready : DecidedReady opts st p q) (hpair : Denied opts st q p) : Denied opts st' q p' := by
  refine ⟨?_, ?_⟩
  · rintro d d' r point point' rfl rfl
    rcases build_origin hk.inv h with ⟨point₀, rfl⟩ | ⟨-, rfl, -, -⟩
    · exact hpair.1 d d' r point point₀ rfl rfl
    · obtain ⟨⟨id, hid⟩, -⟩ := hq
      exact absurd rfl (hid.ne_mint hk.inv)
  · rintro d r point src req out rfl rfl hfork hjob
    obtain ⟨ident, requested, plan, rfl, rfl, hresponse⟩ := answer_origin h
    have hempty : respond src ident requested plan (st'.trust.lookup req.id) = .secrets ∅ := by
      refine respond_empty ?_
      rcases hready src req ident requested plan d r point rfl rfl hfork hjob with hstored | hnone
      · obtain ⟨trust, htrust⟩ := Option.isSome_iff_exists.mp hstored
        rw [htrust, hq.2.2 req.id trust htrust hjob, hfork]
        exact .inl rfl
      · exact .inr hnone
    rw [hempty] at hresponse
    exact (Response.secrets.inj hresponse).symm

end

theorem secrets_proof (opts : Options) :
    GuardedProof Arrives (TaskStep opts) (DecidedReady opts) (Known opts) (Accounted opts) (Denied opts) where
  spawn _ harrives := by cases harrives <;> trivial
  spawn_pair _ harrives _ := by
    cases harrives <;> exact ⟨⟨by rintro _ _ _ _ _ ⟨⟩, by rintro _ _ _ _ _ _ ⟨⟩⟩,
      ⟨by rintro _ _ _ _ _ _ ⟨⟩, by rintro _ _ _ _ _ _ _ ⟨⟩⟩⟩
  shared hk hp _ h := hk.step hp (step_effect h)
  act hk hp _ h := hp.act hk h
  act_pair hk _ hq hready hpq hqp h := ⟨denied_act hk hq h hpq, denied_act' hk hq h hready hqp⟩
  keep hk hp hq _ hpair _ h := hq.keep hk hp (step_effect h) hpair
  keep_pair hk _ _ hr _ _ hpair h := denied_keep hk hr (step_effect h) hpair

/-- While no request for a job of a fork's run is decided before the trust level of the job is stored, no request for
one of its jobs is answered with a value. -/
theorem fork_run_no_secrets (opts : Options) (c : Tasks)
    (hreach : GuardedReaches Arrives (TaskStep opts) (TrustReady opts) Tasks.new c) (r : RunID)
    (hfork : ForkRun opts c r) (src : SecretSource) (req : SecretsRequest) (out : GoMap String String)
    (hanswer : .secrets src req (.returned (.secrets out)) ∈ c.procs) (job : JobRunRecord)
    (hjob : c.shared.durable.getJobRun req.id = .ok job) (hrun : job.runID = r) : out = ∅ := by
  have hstart : Holds (Known opts) (Accounted opts) (Denied opts) Tasks.new := holds_idle (known_new opts)
  have hc := (secrets_proof opts).reaches decidedReady_of_trustReady hstart hreach
  obtain ⟨p, hp, hbuilds⟩ := hfork
  obtain ⟨i, hi⟩ := List.mem_iff_getElem?.mp hp
  obtain ⟨j, hj⟩ := List.mem_iff_getElem?.mp hanswer
  cases p with
  | build d r' point =>
    obtain ⟨rfl, hfork⟩ := hbuilds
    have hne : i ≠ j := by
      rintro rfl
      rw [hi] at hj
      cases hj
    exact (hc.pair hne hi hj).2 d r' point src req out rfl rfl hfork ⟨job, getJobRun_eq_ok.mp hjob, hrun⟩
  | _ => cases hbuilds

/-- A pull request. -/
def pullDelivery : Delivery where
  key := { provider := "github", deliveryID := "d2" }
  event := { pushEvent with name := "pull_request" }
  payload := []

/-- A store of secrets that holds `TOKEN`. -/
def tokenSource : SecretSource where
  store := none
  values := (∅ : GoMap String String).insert "repository/TOKEN" "t0k3n"

/-- The executor of the job `ii` asks for `TOKEN`. -/
def tokenRequest : SecretsRequest where
  id := "ii"
  ident := some { jobRunID := "ii", scopes := [scopeSecretsRead] }
  body := some [{ scope := "repository", name := "TOKEN" }]

/-- A pull request is ingested while its secrets are asked for. -/
def forkRequest : List Task := [.ingest (.begin pullDelivery), .secrets tokenSource tokenRequest .getPlan]

theorem forkRequest_arrives (p : Task) (hp : p ∈ forkRequest) : Arrives p := by
  simp only [forkRequest, List.mem_cons, List.not_mem_nil, or_false] at hp
  rcases hp with rfl | rfl
  · exact .ingest pullDelivery
  · exact .secrets tokenSource tokenRequest

/-- The request comes after the trust level was stored and is answered without a value. -/
theorem fork_run_no_secrets_late :
    ∃ c out, GuardedReaches Arrives (TaskStep deployServer) (TrustReady deployServer) Tasks.new c ∧
      ForkRun deployServer c "i" ∧
      .secrets tokenSource tokenRequest (.returned (.secrets out)) ∈ c.procs ∧ out = ∅ := by
  have hreach := guardedReaches_schedule deployServer (TrustReady deployServer) forkRequest_arrives
    [0, 0, 0, 0, 0, 0, 0, 0, 1, 1] rfl
  refine ⟨_, _, hreach, ⟨_, (.head _), rfl, rfl⟩, .tail _ (.head _), ?_⟩
  exact fork_run_no_secrets deployServer _ hreach "i" ⟨_, (.head _), rfl, rfl⟩ tokenSource
    tokenRequest _ (.tail _ (.head _)) _ rfl rfl

/-- The request comes between the plan and the trust level. -/
theorem fork_run_secret_early : ∃ (c : Tasks) (job : JobRunRecord) (out : GoMap String String),
      Interleaving.Reaches Arrives (TaskStep deployServer) Tasks.new c ∧ ForkRun deployServer c "i" ∧
      c.shared.durable.getJobRun tokenRequest.id = .ok job ∧ job.runID = "i" ∧
      .secrets tokenSource tokenRequest (.returned (.secrets out)) ∈ c.procs ∧
      out.lookup "repository/TOKEN" = some "t0k3n" :=
  ⟨_, _, _, reaches_schedule forkRequest_arrives [0, 0, 0, 0, 0, 0, 1, 1, 0, 0] rfl,
    ⟨_, (.head _), rfl, rfl⟩, rfl, rfl, .tail _ (.head _), rfl⟩

end Forgelet.Server
