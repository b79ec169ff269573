import Forgelet.Executor.Proofs.EngineProofs
import Forgelet.Server.Proofs.PlansProofs
import Forgelet.Server.Proofs.ReferencesProofs

/-!
# Proofs: the way of a secret into the inputs of a step

`buildPlan` writes the step and the key of a secret into the name of a variable, and `Engine.Run` reads them by
comparing the start of the name. The two agree where step names keep the variables apart.
-/

namespace Forgelet.Executor

open Bytes (ofString ofString_injective)
open Compiler (JobInstance)
open Server (Route buildPlan origins routes secretRefs)

theorem marker_withPrefix (id k : Bytes) : withMarker <+: withPrefix id ++ k := by
  rw [withPrefix, List.append_assoc, List.append_assoc]
  exact List.prefix_append ..

section Delivered

variable {secrets : GoMap Bytes Bytes} {refs : List SecretRef} {name val : Bytes}

theorem lookup_deliverOne (d : Delivery) (ref : SecretRef) : (deliverOne secrets d ref).withSecrets.lookup name =
      if ref.env = name ∧ withMarker <+: name then (secrets.lookup (SecretRef.key ref)).or (d.withSecrets.lookup name)
      else d.withSecrets.lookup name := by
  unfold deliverOne
  cases secrets.lookup (SecretRef.key ref) with
  | none =>
    rw [Option.none_or, ite_self]
  | some val =>
    dsimp only
    by_cases hmark : withMarker <+: ref.env
    · rw [if_pos (List.isPrefixOf_iff_prefix.mpr hmark)]
      rw [GoMap.lookup_insert_ite, Option.some_or]
      by_cases hname : ref.env = name
      · rw [if_pos hname.symm, if_pos ⟨hname, hname ▸ hmark⟩]
      · rw [if_neg (Ne.symm hname), if_neg fun h => hname h.1]
    · have hother : ¬(ref.env = name ∧ withMarker <+: name) := fun h => hmark (h.1.symm ▸ h.2)
      rw [if_neg fun h => hmark (List.isPrefixOf_iff_prefix.mp h), if_neg hother]
      split_ifs
      · rfl
      · rfl

/-- A value for the `with` of a step was delivered for a reference. -/
theorem ref_of_withSecrets {env} (h : (deliver secrets env refs).withSecrets.lookup name = some val) :
    ∃ ref ∈ refs, ref.env = name ∧ secrets.lookup (SecretRef.key ref) = some val := by
  revert val
  refine List.foldlRecOn refs (deliverOne secrets) (motive := fun d => ∀ {val}, d.withSecrets.lookup name = some val →
      ∃ ref ∈ refs, ref.env = name ∧ secrets.lookup (SecretRef.key ref) = some val) ?_ ?_
  · intro val h
    cases h
  · intro d ih ref href val h
    rw [lookup_deliverOne] at h
    split_ifs at h with hname
    · rcases Option.or_eq_some_iff.mp h with hval | ⟨-, hd⟩
      · exact ⟨ref, href, hname.1, hval⟩
      · exact ih hd
    · exact ih h

/-- A reference that carries the marker is delivered for the `with` of a step. -/
theorem withSecrets_of_ref (env : GoMap Bytes Bytes) {ref} (href : ref ∈ refs) (hmark : withMarker <+: ref.env)
    (hval : secrets.lookup (SecretRef.key ref) = some val) :
    ∃ val', (deliver secrets env refs).withSecrets.lookup ref.env = some val' := by
  apply deliver_of_mem (P := fun d => ∃ val', d.withSecrets.lookup ref.env = some val') env href
  · intro d
    rw [lookup_deliverOne, if_pos ⟨rfl, hmark⟩, hval]
    exact ⟨val, rfl⟩
  · -- what is delivered under a name may be replaced, but stays delivered
    rintro d ref' ⟨val', hval'⟩
    rw [lookup_deliverOne, hval']
    split_ifs
    · cases secrets.lookup (SecretRef.key ref') with
      | none => exact ⟨val', rfl⟩
      | some val => exact ⟨val, rfl⟩
    · exact ⟨val', rfl⟩

end Delivered

theorem lookup_overlay (withSecrets : GoMap Bytes Bytes) (id : Bytes) (inputs : GoMap Bytes Bytes) (k : Bytes) :
    (overlay withSecrets id inputs).lookup k = (withSecrets.lookup (withPrefix id ++ k)).or (inputs.lookup k) := by
  have hfold : ∀ (entries : List ((_ : Bytes) × Bytes)) (inputs : GoMap Bytes Bytes), entries.NodupKeys →
      (entries.foldl (fun inputs e =>
        if (withPrefix id).isPrefixOf e.1 then inputs.insert (e.1.drop (withPrefix id).length) e.2 else inputs)
        inputs).lookup k = (entries.dlookup (withPrefix id ++ k)).or (inputs.lookup k) := by
    intro entries
    induction entries with
    | nil => exact fun inputs _ => rfl
    | cons e rest ih =>
      intro inputs hnodup
      obtain ⟨hnew, hrest⟩ := List.nodupKeys_cons.mp hnodup
      rw [List.foldl_cons, ih _ hrest]
      by_cases hname : withPrefix id ++ k = e.1
      · have hgone : rest.dlookup (withPrefix id ++ k) = none := List.dlookup_eq_none.mpr (hname ▸ hnew)
        have hfirst : (e :: rest).dlookup (withPrefix id ++ k) = some e.2 := by
          rw [hname]
          exact List.dlookup_cons_eq rest e.1 e.2
        rw [hgone, hfirst, Option.none_or, Option.some_or, ← hname,
          if_pos (List.isPrefixOf_iff_prefix.mpr (List.prefix_append ..)), List.drop_left, AList.lookup_insert]
      · have hfirst : (e :: rest).dlookup (withPrefix id ++ k) = rest.dlookup (withPrefix id ++ k) :=
          List.dlookup_cons_ne rest e hname
        rw [hfirst]
        split_ifs with hstart
        · obtain ⟨k', hk'⟩ := List.isPrefixOf_iff_prefix.mp hstart
          have hne : k ≠ k' := fun h => hname (h ▸ hk')
          rw [← hk', List.drop_left, AList.lookup_insert_ne hne]
        · rfl
  exact hfold withSecrets.entries inputs withSecrets.nodupKeys

/-- A handler is called with the inputs of its step and the secrets for it. -/
theorem calls_overlay {host p jobRunID secrets} (hsecrets : fetch host p = .ok secrets) {c}
    (hc : c ∈ (run host p jobRunID).calls) :
    ∃ env ps, p.steps[c.index]? = some ps ∧ IsAction ps ∧
      c.inputs = overlay (deliver secrets env p.secretRefs).withSecrets ps.id c.plain := by
  rcases run_cases host p jobRunID with ⟨k, err, heq⟩ | ⟨st, result, err, heq, -, hcalls⟩ |
    ⟨secrets', env, st, halt, hfetch, hrun, heq⟩
  · rw [heq] at hc
    cases hc
  · rw [heq] at hc
    have hnone : c ∈ st.calls := hc
    rw [hcalls] at hnone
    cases hnone
  · obtain rfl : secrets' = secrets := Except.ok.inj (hfetch.symm.trans hsecrets)
    obtain ⟨new, hnew, hall⟩ := (moved_of_runSteps hrun).calls
    rw [heq, finish_calls, hnew] at hc
    obtain ⟨e, he, haction, hindex, hinputs⟩ := hall c hc
    refine ⟨env, e.1, ?_, haction, hinputs⟩
    rw [hindex]
    exact List.mem_zipIdx_iff_getElem?.mp he

/-- The references to secrets of a job: those of its environment, and those in the `with` of its steps. -/
def references (inst : JobInstance) : List SecretRef :=
  secretRefs ofString inst.env ++ (routes inst.steps).map (·.ref)

/-- Every variable that an action reads is for its own step, under the key and with the secret of that step's `with`.
Every secret in a `with` has a variable for each action of its step, and its step has one. -/
structure Separated (src : WorkflowSource) (inst : JobInstance) : Prop where
  own : ∀ o ∈ origins src inst.steps, IsAction o.2 → ∀ ref ∈ references inst, withPrefix o.2.id <+: ref.env →
    ∃ r ∈ routes inst.steps, r.index = o.1 ∧ withPrefix o.2.id ++ ofString r.key = ref.env ∧
      SecretRef.key r.ref = SecretRef.key ref
  read : ∀ r ∈ routes inst.steps, ∀ o ∈ origins src inst.steps, IsAction o.2 → r.index = o.1 →
    ∃ ref ∈ references inst, ref.env = withPrefix o.2.id ++ ofString r.key
  taken : ∀ r ∈ routes inst.steps, ∃ o ∈ origins src inst.steps, IsAction o.2 ∧ r.index = o.1

instance (src : WorkflowSource) (inst : JobInstance) : Decidable (Separated src inst) :=
  decidable_of_iff
    ((∀ o ∈ origins src inst.steps, IsAction o.2 → ∀ ref ∈ references inst, withPrefix o.2.id <+: ref.env →
        ∃ r ∈ routes inst.steps, r.index = o.1 ∧ withPrefix o.2.id ++ ofString r.key = ref.env ∧
          SecretRef.key r.ref = SecretRef.key ref) ∧
      (∀ r ∈ routes inst.steps, ∀ o ∈ origins src inst.steps, IsAction o.2 → r.index = o.1 →
        ∃ ref ∈ references inst, ref.env = withPrefix o.2.id ++ ofString r.key) ∧
      ∀ r ∈ routes inst.steps, ∃ o ∈ origins src inst.steps, IsAction o.2 ∧ r.index = o.1)
    ⟨fun h => ⟨h.1, h.2.1, h.2.2⟩, fun h => ⟨h.own, h.read, h.taken⟩⟩

/-- The inputs have the secrets that the `with` of the step `index` refers to, and are the plain ones under every other
key. -/
structure Delivered (inst : JobInstance) (secrets : GoMap Bytes Bytes) (index : Nat)
    (plain inputs : GoMap Bytes Bytes) : Prop where
  secret : ∀ r ∈ routes inst.steps, r.index = index → ∀ val, secrets.lookup (SecretRef.key r.ref) = some val →
    inputs.lookup (ofString r.key) = some val
  other : ∀ k, (∀ r ∈ routes inst.steps, r.index = index → ofString r.key = k →
    secrets.lookup (SecretRef.key r.ref) = none) → inputs.lookup k = plain.lookup k

/-- Whatever the secrets are, every secret in a `with` has an action of its step, and the overlay gives every action
what is for its step. -/
def Routed (src : WorkflowSource) (inst : JobInstance) : Prop :=
  (∀ r ∈ routes inst.steps, ∃ o ∈ origins src inst.steps, IsAction o.2 ∧ r.index = o.1) ∧
    ∀ o ∈ origins src inst.steps, IsAction o.2 → ∀ secrets env plain,
      Delivered inst secrets o.1 plain
        (overlay (deliver secrets env (references inst)).withSecrets o.2.id plain)

section Routed

variable {src : WorkflowSource} {inst : JobInstance} {secrets env : GoMap Bytes Bytes} {o : Nat × PlanStep}

/-- What an action finds under a key is a secret in the `with` of its step. -/
theorem Separated.route (hsep : Separated src inst) (ho : o ∈ origins src inst.steps) (haction : IsAction o.2) {k val}
    (h : (deliver secrets env (references inst)).withSecrets.lookup (withPrefix o.2.id ++ k) = some val) :
    ∃ r ∈ routes inst.steps, r.index = o.1 ∧ ofString r.key = k ∧ secrets.lookup (SecretRef.key r.ref) = some val := by
  obtain ⟨ref, href, henv, hval⟩ := ref_of_withSecrets h
  obtain ⟨r, hr, hindex, hname, hkey⟩ := hsep.own o ho haction ref href (henv ▸ List.prefix_append ..)
  rw [henv] at hname
  exact ⟨r, hr, hindex, List.append_cancel_left hname, hkey ▸ hval⟩

theorem Separated.delivered (hsep : Separated src inst) (ho : o ∈ origins src inst.steps) (haction : IsAction o.2)
    (plain : GoMap Bytes Bytes) : Delivered inst secrets o.1 plain
      (overlay (deliver secrets env (references inst)).withSecrets o.2.id plain) where
  secret r hr hindex val hval := by
    obtain ⟨ref, href, henv⟩ := hsep.read r hr o ho haction hindex
    have hmark : withMarker <+: ref.env := henv ▸ marker_withPrefix o.2.id _
    -- every reference of that name has the secret of this route
    have hsecret : ∀ {k}, k = ofString r.key → ∀ {val'},
        (deliver secrets env (references inst)).withSecrets.lookup (withPrefix o.2.id ++ k) = some val' →
          val' = val := by
      intro k hk val' hval'
      obtain ⟨r', hr', hindex', hkey', hlook⟩ := hsep.route ho haction hval'
      obtain rfl := Server.routes_unique hr' hr (hindex'.trans hindex.symm) (ofString_injective (hkey'.trans hk))
      rw [hval] at hlook
      exact (Option.some.inj hlook).symm
    obtain ⟨r', hr', hindex', hname', hkey'⟩ := hsep.own o ho haction ref href (henv ▸ List.prefix_append ..)
    rw [henv] at hname'
    obtain rfl := Server.routes_unique hr' hr (hindex'.trans hindex.symm)
      (ofString_injective (List.append_cancel_left hname'))
    obtain ⟨val', hfound⟩ := withSecrets_of_ref env href hmark (hkey' ▸ hval)
    rw [henv] at hfound
    rw [lookup_overlay, hfound, hsecret rfl hfound, Option.some_or]
  other k hnone := by
    rw [lookup_overlay]
    cases hfound : (deliver secrets env (references inst)).withSecrets.lookup (withPrefix o.2.id ++ k) with
    | none => rw [Option.none_or]
    | some val =>
      obtain ⟨r, hr, hindex, hkey, hval⟩ := hsep.route ho haction hfound
      rw [hnone r hr hindex hkey] at hval
      cases hval

/-- One secret alone, with an empty value, shows who reads it. -/
theorem separated_of_routed (h : Routed src inst) : Separated src inst where
  own o ho haction ref href hstart := by
    obtain ⟨k, hk⟩ := hstart
    by_contra hnone
    have hmark : withMarker <+: ref.env := hk ▸ marker_withPrefix o.2.id k
    have hlook : ((∅ : GoMap Bytes Bytes).insert (SecretRef.key ref) []).lookup (SecretRef.key ref) = some [] :=
      AList.lookup_insert ..
    obtain ⟨val, hfound⟩ := withSecrets_of_ref ∅ href hmark hlook
    have hother := (h.2 o ho haction ((∅ : GoMap Bytes Bytes).insert (SecretRef.key ref) []) ∅ ∅).other k
    rw [lookup_overlay, hk, hfound] at hother
    refine absurd (hother fun r hr hindex hkey => ?_) (Option.some_ne_none val)
    refine AList.lookup_insert_ne fun hsame => hnone ⟨r, hr, hindex, ?_, hsame⟩
    rw [hkey, hk]
  read r hr o ho haction hindex := by
    have hsecret := (h.2 o ho haction ((∅ : GoMap Bytes Bytes).insert (SecretRef.key r.ref) []) ∅ ∅).secret r hr hindex
      [] (AList.lookup_insert ..)
    rw [lookup_overlay, AList.lookup_empty, Option.or_none] at hsecret
    obtain ⟨ref, href, henv, -⟩ := ref_of_withSecrets hsecret
    exact ⟨ref, href, henv⟩
  taken := h.1

/-- Whatever the secrets, every step is given its own exactly if the names of the steps keep the variables of the
secrets apart. Every call of a run is then given the secrets of its step, and under every other key the input of the
plan. -/
theorem secrets_reach_their_step (src : WorkflowSource) (rec : JobRunRecord) (ev : Event) (inst : JobInstance)
    (p : Plan) (hplan : buildPlan src rec ev inst = .ok p) :
    (Routed src inst ↔ Separated src inst) ∧
      (Separated src inst → ∀ host jobRunID secrets, fetch host p = .ok secrets →
        ∀ c ∈ (run host p jobRunID).calls, ∃ o, (origins src inst.steps)[c.index]? = some o ∧
          p.steps[c.index]? = some o.2 ∧ Delivered inst secrets o.1 c.plain c.inputs) := by
  refine ⟨⟨separated_of_routed, fun hsep => ⟨hsep.taken, fun o ho haction _ _ => hsep.delivered ho haction⟩⟩, ?_⟩
  intro hsep host jobRunID secrets hsecrets c hc
  obtain ⟨env, ps, hstep, haction, hinputs⟩ := calls_overlay hsecrets hc
  have hmade := hstep
  rw [(Server.buildPlan_ok hplan).1, List.getElem?_map] at hmade
  obtain ⟨o, horigin, rfl⟩ := Option.map_eq_some_iff.mp hmade
  refine ⟨o, horigin, hstep, ?_⟩
  rw [hinputs, (Server.buildPlan_ok hplan).2]
  exact hsep.delivered (List.mem_of_getElem? horigin) haction c.plain

end Routed

/-- A step that uses an action; its `with` has a token, unless the secret is empty. -/
def tokenStep (name uses secret : String) : Syntax.Step where
  name := name
  cond := ""
  run := ""
  uses := uses
  inputs :=
    if secret = "" then ∅
    else (∅ : GoMap String String).insert "token" ("$\x7b\x7b secrets." ++ secret ++ " \x7d\x7d")
  continueOnError := false
  env := none

theorem eq_ok_of_toOption {ε α : Type} {x : Except ε α} {a : α} (h : x.toOption = some a) : x = .ok a := by
  cases x with
  | error err => cases h
  | ok b => rw [Option.some.inj h]

/-- The first job that is compiled from a workflow with these steps. -/
def jobOf (steps : List Syntax.Step) : Option JobInstance :=
  match Compiler.compile
    { Compiler.releaseWorkflow ∅ with jobs := [{ Compiler.scriptJob "build" [] ∅ with steps := steps }] } with
  | .error _ => none
  | .ok c => c.jobs.head?

/-- The plan of a job on a push. -/
def pushPlan (src : WorkflowSource) (inst : JobInstance) : Except Err Plan :=
  buildPlan src (DurableStore.newJob "j" "r" (intentFor inst) 0) DurableStore.pushEvent inst

/-- The values of the secrets `A` and `B`. -/
def twoSecrets : GoMap Bytes Bytes :=
  (∅ : GoMap Bytes Bytes).insert (ofString "repository/A") (ofString "a")
    |>.insert (ofString "repository/B") (ofString "b")

/-- A host that has the two secrets. -/
def secretsHost : Host := { Host.quiet with fetchSecrets := fun _ => .ok twoSecrets }

/-- A source of actions that are all composite; their only step passes the token on. -/
def compositeSource : WorkflowSource :=
  { Server.ciSource "" with
    actionFetcher := some fun _ _ _ _ => .ok
      { runsUsing := "composite"
        main := ""
        steps := [{ name := ""
                    run := ""
                    uses := "actions/github-script@v7"
                    inputs := (∅ : GoMap String String).insert "token" "$\x7b\x7b inputs.token \x7d\x7d" }] } }

/-- The secrets in the `with` of these steps, and the inputs of the calls. -/
def routed (src : WorkflowSource) (steps : List Syntax.Step) :
    Option (List Route × List (Nat × GoMap Bytes Bytes)) :=
  (jobOf steps).bind fun inst => (pushPlan src inst).toOption.map fun p =>
    (routes inst.steps, (run secretsHost p "j").calls.map fun c => (c.index, c.inputs))

/-- Inputs with one entry. -/
def oneInput (k v : String) : GoMap Bytes Bytes := (∅ : GoMap Bytes Bytes).insert (ofString k) (ofString v)

/-- Two steps without names that share a token, and one of another name with its own. -/
def checkouts : List Syntax.Step :=
  [tokenStep "" "actions/checkout@v4" "A", tokenStep "" "actions/checkout@v4" "A",
    tokenStep "other" "actions/checkout@v4" "B"]

/-- All get their own token. -/
theorem secrets_reach_checkouts :
    ∃ inst p, jobOf checkouts = some inst ∧ pushPlan (Server.ciSource "") inst = .ok p ∧
      (run secretsHost p "j").calls.map (·.index) = [0, 1, 2] ∧
      ∀ c ∈ (run secretsHost p "j").calls, ∃ o, (origins (Server.ciSource "") inst.steps)[c.index]? = some o ∧
        p.steps[c.index]? = some o.2 ∧ Delivered inst twoSecrets o.1 c.plain c.inputs := by
  have hall : ((jobOf checkouts).bind fun inst => (pushPlan (Server.ciSource "") inst).toOption.map fun p =>
      decide (Separated (Server.ciSource "") inst ∧ p.secretRefs ≠ [] ∧
        (run secretsHost p "j").calls.map (·.index) = [0, 1, 2])) = some true := by
    decide +kernel
  obtain ⟨inst, hjob, hall⟩ := Option.bind_eq_some_iff.mp hall
  obtain ⟨p, hp, hall⟩ := Option.map_eq_some_iff.mp hall
  obtain ⟨hsep, hrefs, hcalls⟩ := of_decide_eq_true hall
  have hplan := eq_ok_of_toOption hp
  have hfetch : fetch secretsHost p = .ok twoSecrets := if_neg hrefs
  exact ⟨inst, p, hjob, hplan, hcalls, (secrets_reach_their_step _ _ _ inst p hplan).2 hsep secretsHost "j" twoSecrets
    hfetch⟩

/-- Two steps of one name get one token, a step whose name goes on with a colon gives its token away, and a composite
action loses it. -/
theorem secrets_misplaced :
    routed (Server.ciSource "") [tokenStep "" "actions/checkout@v4" "A", tokenStep "" "actions/checkout@v4" "B"] =
        some ([⟨0, ofString "checkout", "token", "A"⟩, ⟨1, ofString "checkout", "token", "B"⟩],
          [(0, oneInput "token" "b"), (1, oneInput "token" "b")]) ∧ routed (Server.ciSource "")
          [tokenStep "deploy" "actions/checkout@v4" "", tokenStep "deploy:eu" "actions/checkout@v4" "A"] =
        some ([⟨1, ofString "deploy:eu", "token", "A"⟩], [(0, oneInput "eu:token" "a"), (1, oneInput "token" "a")]) ∧
      routed compositeSource [tokenStep "" "acme/setup@v1" "A"] = some ([⟨0, ofString "setup", "token", "A"⟩], []) := by
  refine ⟨?_, ?_, ?_⟩
  · decide +kernel
  · decide +kernel
  · decide +kernel

end Forgelet.Executor
